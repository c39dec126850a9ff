import Mathlib.Data.List.Basic

/-!
# Fly

The names a runtime's machine and volumes go by on Fly, and what a Fly app holds. A machine's name
gives the runtime id back; a volume's name does not, since it is folded to lower case, substituted
and cut to thirty characters.
-/

namespace Horsie.Runtime

/-! ## Names -/

def machineName (runtimeId : String) : String := "horsie-" ++ runtimeId

def runtimeIdOf (name : String) : Option String :=
  if "horsie-".toList <+: name.toList then
    let rest := String.ofList (name.toList.drop 7)
    if rest = "" then none else some rest
  else none

def volumeChar (c : Char) : Char := if c.isAlphanum then c.toLower else '_'

def volumeName (runtimeId : String) : String :=
  String.ofList (("horsie_".toList ++ runtimeId.toList.map volumeChar).take 30)

/-! ## What an app holds -/

/-- A machine or a volume of a Fly app. -/
structure Object where
  id : ℕ
  name : String
  madeFor : Option String
deriving DecidableEq

structure App where
  machines : List Object
  volumes : List Object
deriving DecidableEq

inductive Kind
  | machine
  | volume
deriving DecidableEq

namespace App

def empty : App := ⟨[], []⟩

def of (a : App) : Kind → List Object
  | .machine => a.machines
  | .volume => a.volumes

def objects (a : App) : List Object := a.of .machine ++ a.of .volume

def add (a : App) (o : Object) : Kind → App
  | .machine => { a with machines := a.machines ++ [o] }
  | .volume => { a with volumes := a.volumes ++ [o] }

/-- The app without the machine or volume `id`. Nothing else goes with it. -/
def destroy (a : App) (id : ℕ) : Kind → App
  | .machine => { a with machines := a.machines.filter (·.id ≠ id) }
  | .volume => { a with volumes := a.volumes.filter (·.id ≠ id) }

variable {a : App}

theorem mem_objects {o : Object} : o ∈ a.objects ↔ ∃ kind, o ∈ a.of kind := by
  rw [objects, List.mem_append]
  constructor
  · rintro (h | h)
    · exact ⟨.machine, h⟩
    · exact ⟨.volume, h⟩
  · rintro ⟨_ | _, h⟩
    · exact .inl h
    · exact .inr h

variable {k : Kind} {x : Object}

theorem mem_add {o : Object} :
    x ∈ (a.add o k).objects ↔ x ∈ a.objects ∨ x = o := by
  cases k <;> simp only [add, objects, of, List.mem_append, List.mem_singleton] <;> tauto

theorem of_destroy (a : App) (id : ℕ) (k : Kind) :
    (a.destroy id k).of k = (a.of k).filter (·.id ≠ id) := by
  cases k <;> rfl

theorem of_destroy_of_ne (a : App) (id : ℕ) {k' : Kind} (h : k' ≠ k) :
    (a.destroy id k).of k' = a.of k' := by
  cases k <;> cases k' <;> first | rfl | exact absurd rfl h

theorem mem_of_mem_destroy {id : ℕ} {k' : Kind}
    (h : x ∈ (a.destroy id k).of k') : x ∈ a.of k' := by
  by_cases hk : k' = k
  · subst hk
    rw [of_destroy] at h
    exact List.mem_of_mem_filter h
  · rwa [of_destroy_of_ne a id hk] at h

theorem mem_destroy {id : ℕ} {k' : Kind} (h : x ∈ a.of k')
    (hid : x.id ≠ id) : x ∈ (a.destroy id k).of k' := by
  by_cases hk : k' = k
  · subst hk
    rw [of_destroy]
    exact List.mem_filter.mpr ⟨h, decide_eq_true hid⟩
  · rwa [of_destroy_of_ne a id hk]

end App

end Horsie.Runtime
