import Mathlib.Data.List.Basic
import Mathlib.Data.List.Dedup
import Mathlib.Data.List.Sort

/-!
# What a block was told

A sequence of events opens numbered blocks and adds pieces of text to them. A block that is opened
again starts over, so what it was told is what came since it was last opened (`told`), and what
came before it was opened is nobody's. The numbers of the blocks are listed in order, each once.
-/

namespace Horsie.Lib

variable {α β : Type*} {f : α → Option β} {piece : α → Option String} {l m : List α}

/-- What `f` reads off the last element that it reads, and the elements behind. -/
def sinceLast (f : α → Option β) : List α → Option (β × List α)
  | [] => none
  | a :: l => (sinceLast f l).or ((f a).map (·, l))

/-- The pieces of a block, put together since `f` last opened it. -/
def told (f : α → Option β) (piece : α → Option String) (l : List α) : Option (β × String) :=
  (sinceLast f l).map fun x => (x.1, String.join (x.2.filterMap piece))

theorem sinceLast_snoc (a : α) : sinceLast f (l ++ [a]) =
    match f a with
    | some b => some (b, [])
    | none => (sinceLast f l).map fun x => (x.1, x.2 ++ [a]) := by
  induction l with
  | nil =>
    show (none : Option (β × List α)).or ((f a).map (·, [])) = _
    cases f a <;> rfl
  | cons x l ih =>
    rw [List.cons_append, sinceLast, ih, sinceLast]
    cases f a with
    | some b => rfl
    | none => cases sinceLast f l <;> cases f x <;> rfl

theorem isSome_sinceLast : (sinceLast f l).isSome ↔ ∃ a ∈ l, (f a).isSome := by
  induction l with
  | nil => simp [sinceLast]
  | cons x l ih => simp [sinceLast, ih, or_comm]

theorem isSome_told : (told f piece l).isSome ↔ ∃ a ∈ l, (f a).isSome := by
  rw [told, Option.isSome_map, isSome_sinceLast]

/-- One more element opens the block, or adds a piece to it if it has one. -/
theorem told_snoc (a : α) : told f piece (l ++ [a]) =
    match f a with
    | some b => some (b, "")
    | none => (told f piece l).map fun x => (x.1, x.2 ++ (piece a).getD "") := by
  rw [told, sinceLast_snoc]
  cases f a with
  | some b => rfl
  | none =>
    dsimp only
    rw [told, Option.map_map, Option.map_map]
    congr 1
    ext x
    · rfl
    · cases hs : piece a <;> simp [hs, String.join_append]

/-! ## The numbers of the blocks -/

/-- The numbers in `l` in order, each once. -/
def ordered (l : List ℕ) : List ℕ := (l.insertionSort (· ≤ ·)).dedup

theorem mem_ordered {l : List ℕ} {i : ℕ} : i ∈ ordered l ↔ i ∈ l := by
  rw [ordered, List.mem_dedup, List.mem_insertionSort]

theorem pairwise_ordered (l : List ℕ) : (ordered l).Pairwise (· < ·) := by
  have hle : (ordered l).Pairwise (· ≤ ·) :=
    (List.pairwise_insertionSort (· ≤ ·) l).sublist (List.dedup_sublist _)
  have hne : (ordered l).Pairwise (· ≠ ·) := List.nodup_dedup _
  exact hle.imp₂ (fun _ _ h h' => lt_of_le_of_ne h h') hne

/-- The same numbers are listed the same way. -/
theorem ordered_congr {l m : List ℕ} (h : ∀ i, i ∈ l ↔ i ∈ m) : ordered l = ordered m := by
  apply List.Perm.eq_of_pairwise' (r := (· < ·)) (pairwise_ordered l) (pairwise_ordered m)
  apply (List.perm_ext_iff_of_nodup (List.nodup_dedup _) (List.nodup_dedup _)).mpr
  intro i
  show i ∈ ordered l ↔ i ∈ ordered m
  rw [mem_ordered, mem_ordered]
  exact h i

end Horsie.Lib
