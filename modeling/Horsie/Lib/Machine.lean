import Mathlib.Data.List.Basic

/-!
# Machines with answers

A machine takes inputs one after another and answers each.
-/

namespace Horsie.Lib.Machine

variable {S I O : Type*}

/-- The state that the inputs lead to, and their answers. -/
def run (step : S → I → S × O) : S → List I → S × List O
  | s, [] => (s, [])
  | s, i :: is =>
    let rest := run step (step s i).1 is
    (rest.1, (step s i).2 :: rest.2)

variable {step : S → I → S × O} {s : S} {is : List I}

/-- The rule for invariants: what every input keeps, the run keeps. -/
theorem run_invariant {P : S → Prop} (hs : P s) (hstep : ∀ i ∈ is, ∀ s, P s → P (step s i).1) :
    P (run step s is).1 := by
  induction is generalizing s with
  | nil => exact hs
  | cons i is ih =>
    exact ih (hstep i List.mem_cons_self s hs) fun j hj => hstep j (List.mem_cons_of_mem i hj)

end Horsie.Lib.Machine
