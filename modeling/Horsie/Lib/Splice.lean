import Mathlib.Data.List.Basic
import Mathlib.Data.List.TakeDrop

/-!
# Splices

A splice puts a list in the place of a part of another, and carries every position outside that part
to a position of the outcome. What stands at a position stands where it is carried, over any number
of splices made one after another.
-/

namespace Horsie.Lib

universe u

/-- `taken` entries from `start` on are replaced by `put`. -/
structure Splice (α : Type u) where
  start : ℕ
  taken : ℕ
  put : List α
deriving DecidableEq

variable {α : Type u} {s : Splice α} {ss : List (Splice α)} {l : List α} {i k : ℕ}

namespace Splice

def splice (s : Splice α) (l : List α) : List α :=
  l.take s.start ++ s.put ++ l.drop (s.start + s.taken)

/-- Where a position is carried, if what is there is not replaced. -/
def carry (s : Splice α) (i : ℕ) : Option ℕ :=
  if i < s.start then some i
  else if i < s.start + s.taken then none
  else some (i - s.taken + s.put.length)

def spliceAll (ss : List (Splice α)) (l : List α) : List α := ss.foldl (fun l s => s.splice l) l

def carryAll (ss : List (Splice α)) (i : ℕ) : Option ℕ := ss.foldlM (fun i s => s.carry i) i

def FitAll : List (Splice α) → List α → Prop
  | [], _ => True
  | s :: ss, l => s.start + s.taken ≤ l.length ∧ FitAll ss (s.splice l)

theorem spliceAll_cons : spliceAll (s :: ss) l = spliceAll ss (s.splice l) := rfl

theorem carryAll_cons : carryAll (s :: ss) i = (s.carry i).bind (carryAll ss) := by
  unfold carryAll
  rw [List.foldlM_cons]
  rfl

theorem splice_carry (hfit : s.start + s.taken ≤ l.length) (h : s.carry i = some k) :
    (s.splice l)[k]? = l[i]? := by
  have htake : (l.take s.start).length = s.start := by
    rw [List.length_take]
    omega
  unfold splice
  unfold carry at h
  split_ifs at h with hbefore hin
  · cases h
    rw [List.append_assoc, List.getElem?_append_left (by omega), List.getElem?_take,
      if_pos hbefore]
  · cases h
    have hlen : (l.take s.start ++ s.put).length = s.start + s.put.length := by
      rw [List.length_append, htake]
    rw [List.getElem?_append_right (by omega), List.getElem?_drop, hlen]
    congr 1
    omega

theorem spliceAll_carryAll (hfit : FitAll ss l) (h : carryAll ss i = some k) :
    (spliceAll ss l)[k]? = l[i]? := by
  induction ss generalizing l i with
  | nil =>
    cases h
    rfl
  | cons s ss ih =>
    obtain ⟨hone, hrest⟩ := hfit
    rw [carryAll_cons, Option.bind_eq_some_iff] at h
    obtain ⟨j, hj, hk⟩ := h
    rw [spliceAll_cons, ih hrest hk, splice_carry hone hj]

end Splice

end Horsie.Lib
