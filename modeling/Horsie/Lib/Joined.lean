import Horsie.Lib.Text
import Mathlib.Data.List.Infix

/-!
# Names joined by a doubled letter

Two texts joined by a separator that is a letter twice. A text can be taken apart in two ways only
if one of them moves letters of the separator into a part (`joined_eq_iff`), and the piece before
the first separator is the first part exactly if that neither holds a separator nor ends in its
letter (`firstPiece_joined_iff`).
-/

namespace Horsie.Lib

variable {c : Char} {s t s' t' : List Char}

/-- What stands before the first separator, and all of a text that has none. -/
def firstPiece (sep cs : List Char) : List Char := ((splitOnce sep cs).map Prod.fst).getD cs

theorem firstPiece_cons (a : Char) : firstPiece [c, c] (a :: s) =
    if [c, c].isPrefixOf (a :: s) then [] else a :: firstPiece [c, c] s := by
  unfold firstPiece
  rw [splitOnce]
  split_ifs with h
  · rfl
  · cases splitOnce [c, c] s <;> rfl

/-- The separator is nowhere in a text, and would not begin in its last letter either. -/
def Plain (c : Char) (s : List Char) : Prop := ¬ [c, c] <:+: s ∧ s.getLast? ≠ some c

instance (c : Char) (s : List Char) : Decidable (Plain c s) := inferInstanceAs (Decidable (_ ∧ _))

theorem firstPiece_joined_iff : firstPiece [c, c] (s ++ c :: c :: t) = s ↔ Plain c s := by
  induction s with
  | nil =>
    rw [List.nil_append, firstPiece_cons, if_pos (by simp)]
    refine iff_of_true rfl ⟨?_, ?_⟩
    · intro h
      cases List.infix_nil.mp h
    · intro h
      cases h
  | cons a s ih =>
    rw [List.cons_append, firstPiece_cons]
    by_cases h : [c, c].isPrefixOf (a :: (s ++ c :: c :: t)) = true
    · rw [if_pos h]
      refine iff_of_false (List.cons_ne_nil _ _).symm ?_
      rintro ⟨hin, hlast⟩
      obtain ⟨rfl, hrest⟩ := List.cons_prefix_cons.mp (List.isPrefixOf_iff_prefix.mp h)
      cases s with
      | nil => exact hlast rfl
      | cons b s =>
        obtain ⟨rfl, -⟩ := List.cons_prefix_cons.mp hrest
        exact hin ⟨[], s, rfl⟩
    · rw [if_neg h, List.cons.injEq, and_iff_right rfl, ih]
      have hstart : ¬ [c, c] <+: a :: s := fun hp =>
        h (List.isPrefixOf_iff_prefix.mpr (hp.trans (List.prefix_append (a :: s) _)))
      unfold Plain
      rw [List.infix_cons_iff, or_iff_right hstart]
      cases s with
      | nil =>
        have hne : a ≠ c := by
          rintro rfl
          exact h (by simp)
        simp [hne]
      | cons b s => rw [List.getLast?_cons_cons]

/-- The second way to take a text apart: a letter of the separator belongs to the first part, or a
whole one with what follows it. -/
def Overlap (c : Char) (s t s' t' : List Char) : Prop :=
  s' = s ++ [c] ∧ t = c :: t' ∨ ∃ y, s' = s ++ c :: c :: y ∧ t = y ++ c :: c :: t'

theorem Overlap.joined (h : Overlap c s t s' t') : s ++ c :: c :: t = s' ++ c :: c :: t' := by
  rcases h with ⟨rfl, rfl⟩ | ⟨y, rfl, rfl⟩
  · rw [List.append_assoc, List.singleton_append]
  · rw [List.append_assoc, List.cons_append, List.cons_append]

theorem Overlap.ne (h : Overlap c s t s' t') : s ≠ s' := by
  rcases h with ⟨rfl, -⟩ | ⟨y, rfl, -⟩
  · intro h
    have := congrArg List.length h
    simp at this
  · intro h
    have := congrArg List.length h
    simp at this

/-- A first part that is longer has moved letters over. -/
theorem joined_eq_append {y : List Char} (h : c :: c :: t = y ++ c :: c :: t') (hs : s' = s ++ y) :
    s = s' ∧ t = t' ∨ Overlap c s t s' t' := by
  cases y with
  | nil =>
    refine .inl ⟨by rw [hs, List.append_nil], ?_⟩
    injection h with _ h
    injection h
  | cons a y =>
    rw [List.cons_append] at h
    injection h with ha h
    subst ha
    cases y with
    | nil =>
      rw [List.nil_append] at h
      injection h with _ h
      exact .inr (.inl ⟨hs, h⟩)
    | cons b y =>
      rw [List.cons_append] at h
      injection h with hb h
      subst hb
      exact .inr (.inr ⟨y, hs, h⟩)

theorem joined_eq_iff : s ++ c :: c :: t = s' ++ c :: c :: t' ↔
    s = s' ∧ t = t' ∨ Overlap c s t s' t' ∨ Overlap c s' t' s t := by
  constructor
  · intro h
    rcases List.append_eq_append_iff.mp h with ⟨y, hs, hrest⟩ | ⟨y, hs, hrest⟩
    · exact (joined_eq_append hrest hs).imp id .inl
    · refine (joined_eq_append hrest hs).imp ?_ .inr
      rintro ⟨rfl, rfl⟩
      exact ⟨rfl, rfl⟩
  · rintro (⟨rfl, rfl⟩ | h | h)
    · rfl
    · exact h.joined
    · exact h.joined.symm

/-- What stands before the first `c`. -/
theorem eq_of_append_cons (hs : c ∉ s) (hs' : c ∉ s') (h : s ++ c :: t = s' ++ c :: t') :
    s = s' := by
  have htaken : ∀ l r : List Char, c ∉ l → (l ++ c :: r).takeWhile (· ≠ c) = l := by
    intro l r hl
    have hne : ∀ a ∈ l, decide (a ≠ c) = true := fun a ha =>
      decide_eq_true fun hac => hl (hac ▸ ha)
    rw [List.takeWhile_append_of_pos hne, List.takeWhile_cons_of_neg (by simp), List.append_nil]
  rw [← htaken s t hs, h, htaken s' t' hs']

theorem Plain.not_overlap (h : Plain c s') : ¬ Overlap c s t s' t' := by
  rintro (⟨rfl, -⟩ | ⟨y, rfl, -⟩)
  · exact h.2 (by rw [List.getLast?_append, List.getLast?_singleton, Option.some_or])
  · exact h.1 ⟨s, y, by rw [List.append_assoc, List.cons_append, List.cons_append]; rfl⟩

end Horsie.Lib
