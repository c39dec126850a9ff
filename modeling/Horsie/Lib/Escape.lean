import Mathlib.Data.List.Basic

/-!
# Escaped joins

Parts joined by a separator after the separator and the escape have been escaped in them. Reading
the join back (`split`) gives the parts, so the join tells lists of parts apart, whatever is in
them.
-/

namespace Horsie.Lib

universe u

variable {α : Type u} [DecidableEq α] (esc sep : α)

/-- An escape before every occurrence of `c`. -/
def escapeAll (c : α) (l : List α) : List α := l.flatMap fun x => if x = c then [esc, x] else [x]

def escaped (l : List α) : List α := escapeAll esc sep (escapeAll esc esc l)

def joined : List (List α) → List α
  | [] => []
  | [p] => escaped esc sep p
  | p :: ps => escaped esc sep p ++ sep :: joined ps

/-- Reads a join back: what follows an escape is literal, a separator begins a part. -/
def split : List α → List (List α)
  | [] => [[]]
  | [x] => if x = sep then [[], []] else [[x]]
  | x :: y :: l =>
    if x = esc then (split l).modifyHead (y :: ·)
    else if x = sep then [] :: split (y :: l)
    else (split (y :: l)).modifyHead (x :: ·)

variable {esc sep}

theorem escaped_nil : escaped esc sep [] = [] := rfl

theorem escaped_cons (h : esc ≠ sep) (x : α) (l : List α) : escaped esc sep (x :: l) =
    (if x = esc ∨ x = sep then [esc, x] else [x]) ++ escaped esc sep l := by
  unfold escaped escapeAll
  rw [List.flatMap_cons, List.flatMap_append]
  congr 1
  by_cases hesc : x = esc
  · subst hesc
    simp [h]
  · by_cases hsep : x = sep
    · simp [hsep, h.symm]
    · simp [hesc, hsep]

theorem split_sep_cons (h : esc ≠ sep) (l : List α) :
    split esc sep (sep :: l) = [] :: split esc sep l := by
  cases l with
  | nil => simp [split]
  | cons y l => simp [split, h.symm]

theorem split_cons {x : α} (hesc : x ≠ esc) (hsep : x ≠ sep) (l : List α) :
    split esc sep (x :: l) = (split esc sep l).modifyHead (x :: ·) := by
  cases l with
  | nil => simp [split, hsep]
  | cons y l => simp [split, hesc, hsep]

/-- An escaped part is read as itself, in front of the first part of what follows. -/
theorem split_escaped_append (h : esc ≠ sep) (p rest : List α) :
    split esc sep (escaped esc sep p ++ rest) =
      (split esc sep rest).modifyHead (p ++ ·) := by
  induction p with
  | nil =>
    rw [escaped_nil, List.nil_append]
    cases split esc sep rest <;> rfl
  | cons x p ih =>
    rw [escaped_cons h, List.append_assoc]
    by_cases hx : x = esc ∨ x = sep
    · rw [if_pos hx]
      show split esc sep (esc :: x :: (escaped esc sep p ++ rest)) = _
      rw [split, if_pos rfl, ih]
      cases split esc sep rest <;> rfl
    · obtain ⟨hesc, hsep⟩ := not_or.mp hx
      rw [if_neg hx, List.singleton_append, split_cons hesc hsep, ih]
      cases split esc sep rest <;> rfl

theorem split_joined (h : esc ≠ sep) {ps : List (List α)} (hne : ps ≠ []) :
    split esc sep (joined esc sep ps) = ps := by
  induction ps with
  | nil => exact absurd rfl hne
  | cons p ps ih =>
    cases ps with
    | nil =>
      have hsplit := split_escaped_append h p []
      rw [List.append_nil] at hsplit
      rw [joined, hsplit, split]
      simp
    | cons q qs =>
      rw [joined, split_escaped_append h, split_sep_cons h, ih (List.cons_ne_nil q qs)]
      · simp
      · exact List.cons_ne_nil q qs

theorem joined_injective (h : esc ≠ sep) {ps qs : List (List α)} (hp : ps ≠ []) (hq : qs ≠ [])
    (heq : joined esc sep ps = joined esc sep qs) : ps = qs := by
  rw [← split_joined h hp, heq, split_joined h hq]

end Horsie.Lib
