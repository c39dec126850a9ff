import Mathlib.Data.List.Basic

/-!
# Programs that ask

A program that asks its surroundings questions, one after another and each depending on the earlier
answers. What it comes to depends on the answers to the questions it asks and on nothing else.
-/

namespace Horsie.Lib

universe u v

/-- A program that asks questions of one kind. -/
inductive Asking (Q A : Type u) (α : Type v) where
  | done (a : α)
  | ask (q : Q) (next : A → Asking Q A α)

namespace Asking

variable {Q A : Type u} {α β : Type v}

def bind (p : Asking Q A α) (f : α → Asking Q A β) : Asking Q A β :=
  match p with
  | done a => f a
  | ask q next => .ask q fun a => (next a).bind f

instance : Monad (Asking Q A) where
  pure := done
  bind := bind

/-- What a program comes to where questions are answered so. -/
def run (answer : Q → A) : Asking Q A α → α
  | done a => a
  | ask q next => (next (answer q)).run answer

theorem run_bind (answer : Q → A) (p : Asking Q A α) (f : α → Asking Q A β) :
    (p >>= f).run answer = (f (p.run answer)).run answer := by
  induction p with
  | done a => rfl
  | ask q next ih => exact ih (answer q)

def asked (answer : Q → A) : Asking Q A α → List Q
  | done _ => []
  | ask q next => q :: (next (answer q)).asked answer

theorem run_congr {answer answer' : Q → A} {p : Asking Q A α}
    (h : ∀ q ∈ p.asked answer, answer' q = answer q) : p.run answer' = p.run answer := by
  induction p with
  | done a => rfl
  | ask q next ih =>
    obtain ⟨hq, hnext⟩ := List.forall_mem_cons.mp h
    show (next (answer' q)).run answer' = (next (answer q)).run answer
    rw [hq]
    exact ih (answer q) hnext

end Asking

/-- One question. -/
def ask {Q A : Type u} (q : Q) : Asking Q A A := .ask q .done

end Horsie.Lib
