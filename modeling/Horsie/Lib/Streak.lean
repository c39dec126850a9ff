import Mathlib.Data.List.DropRight

/-!
# Streaks

How a list ends: its last `n` elements are there and all the same (`Repeats`). A window that keeps
the last `m` elements sees every shorter streak, but only as part of what else is in it.
-/

namespace Horsie.Lib

variable {α β γ : Type*} {l : List α} {n m : ℕ}

/-- All elements are the same. -/
def Uniform (l : List α) : Prop := ∀ x ∈ l, ∀ y ∈ l, x = y

/-- The last `n` elements are there, and all the same. -/
def Repeats (n : ℕ) (l : List α) : Prop := n ≤ l.length ∧ Uniform (l.rtake n)

theorem Uniform.subset {l' : List α} (h : Uniform l) (hsub : l' ⊆ l) : Uniform l' :=
  fun x hx y hy => h x (hsub hx) y (hsub hy)

theorem uniform_snoc {x : α} : Uniform (l ++ [x]) ↔ ∀ y ∈ l ++ [x], y = x := by
  have hx : x ∈ l ++ [x] := List.mem_append_right _ (List.mem_singleton_self x)
  constructor
  · intro h y hy
    exact h y hy x hx
  · intro h y hy z hz
    rw [h y hy, h z hz]

theorem uniform_map {f : α → β} : Uniform (l.map f) ↔ ∀ x ∈ l, ∀ y ∈ l, f x = f y := by
  simp only [Uniform, List.forall_mem_map]

theorem rtake_subset (l : List α) (n : ℕ) : l.rtake n ⊆ l := (List.drop_suffix _ _).subset

theorem rtake_mono (h : n ≤ m) : l.rtake n ⊆ l.rtake m := by
  have hle : l.length - m ≤ l.length - n := by omega
  exact (List.drop_sublist_drop_left l hle).subset

theorem rtake_of_length_le (h : l.length ≤ n) : l.rtake n = l := by
  rw [List.rtake, Nat.sub_eq_zero_of_le h, List.drop_zero]

theorem rtake_map (f : α → β) (n : ℕ) : (l.map f).rtake n = (l.rtake n).map f := by
  rw [List.rtake, List.rtake, List.length_map, List.map_drop]

theorem length_rtake (n : ℕ) : (l.rtake n).length = min n l.length := by
  rw [List.rtake, List.length_drop]
  omega

theorem Repeats.mono (h : Repeats m l) (hle : n ≤ m) : Repeats n l :=
  ⟨hle.trans h.1, h.2.subset (rtake_mono hle)⟩

theorem Repeats.of_snoc {x : α} (h : Repeats (n + 1) (l ++ [x])) : Repeats n l := by
  obtain ⟨hlen, hall⟩ := h
  rw [List.rtake_concat_succ] at hall
  refine ⟨?_, hall.subset (List.subset_append_left _ _)⟩
  rw [List.length_append, List.length_singleton] at hlen
  omega

/-- Two ways of looking at elements that tell the same ones apart see the same streaks. -/
theorem repeats_map_congr {f : α → β} {g : α → γ}
    (h : ∀ x ∈ l, ∀ y ∈ l, f x = f y ↔ g x = g y) :
    (Uniform (l.map f) ↔ Uniform (l.map g)) ∧ (Repeats n (l.map f) ↔ Repeats n (l.map g)) := by
  have huniform : ∀ l' ⊆ l, (Uniform (l'.map f) ↔ Uniform (l'.map g)) := by
    intro l' hsub
    rw [uniform_map, uniform_map]
    exact forall₄_congr fun x hx y hy => h x (hsub hx) y (hsub hy)
  refine ⟨huniform l fun _ hx => hx, ?_⟩
  unfold Repeats
  rw [List.length_map, List.length_map, rtake_map, rtake_map, huniform _ (rtake_subset l n)]

theorem window_snoc (hn : 0 < n) (x : α) :
    (if n < (l.rtake n ++ [x]).length then (l.rtake n ++ [x]).tail else l.rtake n ++ [x]) =
      (l ++ [x]).rtake n := by
  obtain ⟨k, rfl⟩ : ∃ k, n = k + 1 := ⟨n - 1, by omega⟩
  rw [List.rtake_concat_succ, List.length_append, length_rtake, List.length_singleton]
  split_ifs with hfull
  · have hne : l.rtake (k + 1) ≠ [] := by
      rw [← List.length_pos_iff, length_rtake]
      omega
    rw [List.tail_append_of_ne_nil hne, List.rtake, List.tail_drop, List.rtake]
    congr 2
    omega
  · rw [rtake_of_length_le (n := k + 1) (by omega), rtake_of_length_le (n := k) (by omega)]

theorem Repeats.uniform_of_le (h : Repeats n l) (hle : l.length ≤ n) : Uniform l := by
  have h' := h.2
  rwa [rtake_of_length_le hle] at h'

/-- A streak of `n + k` that ends here was one of `n` for each of the last `k` elements. -/
theorem Repeats.of_append {l' : List α} {k : ℕ} (h : Repeats (n + k) (l ++ l'))
    (hk : l'.length ≤ k) : Repeats n l := by
  induction l' using List.reverseRecOn generalizing k with
  | nil => exact (List.append_nil l ▸ h).mono (Nat.le_add_right n k)
  | append_singleton l' x ih =>
    rw [List.length_append, List.length_singleton] at hk
    obtain ⟨k, rfl⟩ : ∃ j, k = j + 1 := ⟨k - 1, by omega⟩
    rw [← List.append_assoc] at h
    exact ih h.of_snoc (by omega)

end Horsie.Lib
