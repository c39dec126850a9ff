import Mathlib.Data.List.Basic

/-!
# Checks

Checks one after the other, the first that fails being the answer, and what has been checked once
all of them passed.
-/

namespace Horsie.Lib

universe u v

variable {α : Type u} {ε : Type v} {x y : Except ε Unit} {b : Bool} {why : ε}

/-- Fails unless `b` holds. -/
def require (b : Bool) (why : ε) : Except ε Unit := if b then .ok () else .error why

def checkAll (f : α → Except ε Unit) : List α → Except ε Unit
  | [] => .ok ()
  | a :: as =>
    match f a with
    | .error why => .error why
    | .ok () => checkAll f as

@[simp] theorem require_eq_ok : require b why = .ok () ↔ b = true := by
  unfold require
  cases b <;> simp

theorem bind_eq_ok : (x >>= fun _ => y) = .ok () ↔ x = .ok () ∧ y = .ok () := by
  cases x with
  | error why =>
    refine iff_of_false (fun h => ?_) fun h => ?_
    · cases h
    · cases h.1
  | ok u => exact (and_iff_right rfl).symm

theorem checkAll_eq_ok {f : α → Except ε Unit} {l : List α} :
    checkAll f l = .ok () ↔ ∀ a ∈ l, f a = .ok () := by
  induction l with
  | nil => exact iff_of_true rfl fun _ h => absurd h List.not_mem_nil
  | cons a l ih =>
    rw [List.forall_mem_cons, ← ih, checkAll]
    cases f a with
    | error why =>
      refine iff_of_false (fun h => ?_) fun h => ?_
      · cases h
      · cases h.1
    | ok u => exact (and_iff_right rfl).symm

end Horsie.Lib
