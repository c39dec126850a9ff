import Mathlib.Data.List.AList

/-!
# Finite maps

Association lists with values of one type, and the two updates the library has none for: a change
of the value at a key, and keeping the pairs that satisfy a predicate. What is made of all the
pairs, each part naming its key, is taken apart again by key (`filter_flatMap_toPairs`).
-/

namespace Horsie.Lib

universe u v

/-- A finite map from `α` to `β`. -/
abbrev Map (α : Type u) (β : Type v) := AList fun _ : α => β

/-! ## Lists of keyed things -/

section

variable {α : Type u} [DecidableEq α] {γ δ : Type*} {l : List δ} {id : δ → α} {g : δ → List γ}
  {key : γ → Option α} {k : α} {x : δ}

theorem filter_flatMap_of_notMem (hg : ∀ x ∈ l, ∀ c ∈ g x, key c = some (id x) ∨ key c = none)
    (hk : k ∉ l.map id) : (l.flatMap g).filter (key · = some k) = [] := by
  rw [List.filter_eq_nil_iff]
  intro c hc hck
  obtain ⟨y, hy, hcy⟩ := List.mem_flatMap.mp hc
  rw [decide_eq_true_eq] at hck
  rcases hg y hy c hcy with h | h <;> rw [h] at hck
  · exact hk (Option.some.inj hck ▸ List.mem_map_of_mem hy)
  · cases hck

/-- Where keys are not repeated, all that names the key of `x` was made of `x`. -/
theorem filter_flatMap_of_nodup (hnd : (l.map id).Nodup)
    (hg : ∀ x ∈ l, ∀ c ∈ g x, key c = some (id x) ∨ key c = none) (hx : x ∈ l) :
    (l.flatMap g).filter (key · = some (id x)) = (g x).filter (key · = some (id x)) := by
  obtain ⟨pre, post, rfl⟩ := List.append_of_mem hx
  rw [List.map_append, List.map_cons] at hnd
  have hpost : id x ∉ post.map id := (List.nodup_cons.mp (List.nodup_append.mp hnd).2.1).1
  have hpre : id x ∉ pre.map id := fun h =>
    (List.nodup_append.mp hnd).2.2 _ h _ List.mem_cons_self rfl
  rw [List.flatMap_append, List.flatMap_cons, List.filter_append, List.filter_append,
    filter_flatMap_of_notMem (fun y hy => hg y (List.mem_append_left _ hy)) hpre,
    filter_flatMap_of_notMem
      (fun y hy => hg y (List.mem_append_right _ (List.mem_cons_of_mem _ hy))) hpost,
    List.nil_append, List.append_nil]

end

namespace Map

variable {α : Type u} {β : Type v} [DecidableEq α]

/-- The value at `k`, where there is one, changed by `f`. -/
def adjust (m : Map α β) (k : α) (f : β → β) : Map α β :=
  match m.lookup k with
  | some v => m.insert k (f v)
  | none => m

/-- The pairs that satisfy `p`. -/
def retain (m : Map α β) (p : α → β → Bool) : Map α β where
  entries := m.entries.filter fun e => p e.1 e.2
  nodupKeys := m.nodupKeys.sublist List.filter_sublist

/-- The values, each with its key. -/
def toPairs (m : Map α β) : List (α × β) := m.entries.map fun e => (e.1, e.2)

/-- The keys whose value satisfies `p`. -/
def keysOf (m : Map α β) (p : β → Bool) : List α := (m.toPairs.filter (p ·.2)).map (·.1)

variable {m : Map α β} {k k' : α} {f : β → β} {p : α → β → Bool} {v : β}

theorem lookup_insert_eq :
    (m.insert k v).lookup k' = if k' = k then some v else m.lookup k' := by
  split_ifs with h
  · subst h
    exact AList.lookup_insert m
  · exact AList.lookup_insert_ne h

theorem lookup_erase_eq : (m.erase k).lookup k' = if k' = k then none else m.lookup k' := by
  split_ifs with h
  · subst h
    exact AList.lookup_erase _ _
  · exact AList.lookup_erase_ne h

@[simp]
theorem lookup_adjust_self : (m.adjust k f).lookup k = (m.lookup k).map f := by
  unfold adjust
  cases h : m.lookup k with
  | some v => simp
  | none => simp [h]

@[simp]
theorem lookup_adjust_ne (h : k' ≠ k) : (m.adjust k f).lookup k' = m.lookup k' := by
  unfold adjust
  cases m.lookup k with
  | some v => exact AList.lookup_insert_ne h
  | none => rfl

theorem lookup_adjust :
    (m.adjust k f).lookup k' = if k' = k then (m.lookup k').map f else m.lookup k' := by
  split_ifs with h
  · subst h
    exact lookup_adjust_self
  · exact lookup_adjust_ne h

theorem lookup_retain : (m.retain p).lookup k = (m.lookup k).filter (p k) := by
  ext v
  rw [← Option.mem_def, AList.mem_lookup_iff, retain, List.mem_filter, ← AList.mem_lookup_iff,
    Option.mem_def, Option.filter_eq_some_iff]

theorem mem_toPairs : (k, v) ∈ m.toPairs ↔ m.lookup k = some v := by
  rw [toPairs, List.mem_map, ← Option.mem_def, AList.mem_lookup_iff]
  constructor
  · rintro ⟨⟨a, b⟩, h, heq⟩
    cases heq
    exact h
  · exact fun h => ⟨_, h, rfl⟩

theorem mem_keysOf {q : β → Bool} : k ∈ m.keysOf q ↔ ∃ v, m.lookup k = some v ∧ q v = true := by
  simp only [keysOf, List.mem_map, List.mem_filter, Prod.exists, mem_toPairs]
  constructor
  · rintro ⟨a, v, h, rfl⟩
    exact ⟨v, h⟩
  · rintro ⟨v, h⟩
    exact ⟨k, v, h, rfl⟩

theorem nodup_toPairs : (m.toPairs.map (·.1)).Nodup := by
  rw [toPairs, List.map_map]
  exact m.nodupKeys

/-- Where what is made of a pair names its key or nothing, all that names one key was made there. -/
theorem filter_flatMap_toPairs {γ : Type*} {g : α → β → List γ} {key : γ → Option α}
    (hg : ∀ k v, ∀ c ∈ g k v, key c = some k ∨ key c = none) :
    (m.toPairs.flatMap fun e => g e.1 e.2).filter (key · = some k) =
      ((m.lookup k).elim [] (g k)).filter (key · = some k) := by
  have hg' : ∀ e ∈ m.toPairs, ∀ c ∈ g e.1 e.2, key c = some e.1 ∨ key c = none :=
    fun e _ => hg e.1 e.2
  cases h : m.lookup k with
  | none =>
    refine filter_flatMap_of_notMem hg' ?_
    intro hk
    obtain ⟨⟨k', v⟩, he, rfl⟩ := List.mem_map.mp hk
    rw [mem_toPairs.mp he] at h
    cases h
  | some v => exact filter_flatMap_of_nodup nodup_toPairs hg' (mem_toPairs.mpr h)

end Map

end Horsie.Lib
