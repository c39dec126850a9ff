import Mathlib.Data.List.Basic

/-!
# The newest entry that says something

A log is read from its end for the first entry that speaks of a matter.
-/

namespace Horsie.Lib

universe u v w

variable {α : Type u} {β : Type v} {γ : Type w} {f : α → Option β} {b : β}

/-- What the last entry that `f` finds something in says. -/
def newest (f : α → Option β) (xs : List α) : Option β := xs.reverse.findSome? f

@[simp]
theorem newest_nil : newest f [] = none := rfl

@[simp]
theorem newest_singleton (x : α) : newest f [x] = f x := by
  simp [newest]

theorem newest_append (xs ys : List α) :
    newest f (xs ++ ys) = (newest f ys).or (newest f xs) := by
  simp [newest, List.findSome?_append]

theorem newest_cons (x : α) (xs : List α) : newest f (x :: xs) = (newest f xs).or (f x) := by
  rw [← List.singleton_append, newest_append, newest_singleton]

/-- The newest entry of logs put behind one another is that of the last log that has one. -/
theorem newest_flatMap (xs : List γ) (g : γ → List α) :
    newest f (xs.flatMap g) = newest (fun x => newest f (g x)) xs := by
  induction xs with
  | nil => rfl
  | cons x xs ih => rw [List.flatMap_cons, newest_append, ih, newest_cons]

variable {xs : List α}

theorem newest_eq_none (h : ∀ x ∈ xs, f x = none) : newest f xs = none := by
  rw [newest, List.findSome?_eq_none_iff]
  exact fun x hx => h x (List.mem_reverse.mp hx)

theorem newest_eq_some (h : ∀ x ∈ xs, f x = some b) (hne : xs ≠ []) :
    newest f xs = some b := by
  obtain ⟨init, last, rfl⟩ := List.eq_nil_or_concat xs |>.resolve_left hne
  rw [List.concat_eq_append, newest_append, newest_singleton, h last (by simp)]
  rfl

/-- The newest entry that says something, and those after it, which do not. -/
theorem newest_split (h : newest f xs = some b) :
    ∃ before x after, xs = before ++ x :: after ∧ f x = some b ∧ ∀ y ∈ after, f y = none := by
  induction xs with
  | nil => cases h
  | cons x xs ih =>
    rw [newest_cons] at h
    cases hxs : newest f xs with
    | none =>
      rw [hxs, Option.none_or] at h
      rw [newest, List.findSome?_eq_none_iff] at hxs
      exact ⟨[], x, xs, rfl, h, fun y hy => hxs y (List.mem_reverse.mpr hy)⟩
    | some c =>
      rw [hxs, Option.some_or, Option.some_inj] at h
      obtain ⟨before, y, after, rfl, hy, hafter⟩ := ih (h ▸ hxs)
      exact ⟨x :: before, y, after, rfl, hy, hafter⟩

/-- The newest word is no beginning exactly where every beginning has an end after it. -/
theorem newest_ne_true_iff {f : α → Option Bool} : newest f xs ≠ some true ↔
    ∀ before x after, xs = before ++ x :: after → f x = some true →
      ∃ y ∈ after, f y = some false := by
  constructor
  · rintro h before x after rfl hx
    rw [newest_append, newest_cons, hx] at h
    cases hafter : newest f after with
    | none =>
      rw [hafter] at h
      exact absurd rfl h
    | some c =>
      cases c with
      | true =>
        rw [hafter] at h
        exact absurd rfl h
      | false =>
        obtain ⟨pre, y, post, rfl, hy, -⟩ := newest_split hafter
        exact ⟨y, List.mem_append_right _ List.mem_cons_self, hy⟩
  · intro h hnew
    obtain ⟨before, x, after, rfl, hx, hafter⟩ := newest_split hnew
    obtain ⟨y, hy, hend⟩ := h before x after rfl hx
    rw [hafter y hy] at hend
    cases hend

theorem newest_congr {g : α → Option β} (h : ∀ x ∈ xs, f x = g x) :
    newest f xs = newest g xs := by
  induction xs with
  | nil => rfl
  | cons x xs ih =>
    rw [newest_cons, newest_cons, h x List.mem_cons_self,
      ih fun y hy => h y (List.mem_cons_of_mem _ hy)]

theorem map_newest (g : β → γ) (xs : List α) :
    (newest f xs).map g = newest (fun x => (f x).map g) xs := by
  induction xs with
  | nil => rfl
  | cons x xs ih =>
    rw [newest_cons, newest_cons, ← ih]
    cases newest f xs <;> rfl

end Horsie.Lib
