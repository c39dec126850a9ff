import Mathlib.Data.List.Nodup
import Horsie.Lib.Transition

/-!
# The runtimes that are connected

A runtime's process dials back with the token it was given. `upgrade_and_serve` looks the token up,
`handle_runtime_connection` waits for the runtime to announce itself, and registers its transport,
which is removed when the link is gone. `halt` removes the transport and revokes the token; waiters
are answered when a transport is registered. All of it goes on at once.
-/

namespace Horsie.RuntimeHost

open Horsie.Lib

/-! ## The registry -/

/-- A transport is named by its connection, a waiter by its place among all waiters. -/
structure ConnectedRuntimeRegistry where
  transports : String → Option ℕ
  pending : String → List ℕ

namespace ConnectedRuntimeRegistry

variable (r : ConnectedRuntimeRegistry)

def resolve (runtime : String) : List ℕ × ConnectedRuntimeRegistry :=
  (r.pending runtime, { r with pending := Function.update r.pending runtime [] })

def tryRegisterTransport (runtime : String) (transport : ℕ) :
    Bool × List ℕ × ConnectedRuntimeRegistry :=
  if (r.transports runtime).isSome then (false, [], r)
  else
    (true,
      { r with transports := Function.update r.transports runtime (some transport) }.resolve
        runtime)

def notifyWhenReady (runtime : String) (waiter : ℕ) : ConnectedRuntimeRegistry :=
  { r with pending := Function.update r.pending runtime (r.pending runtime ++ [waiter]) }

def runtimeTransport (runtime : String) : Option ℕ := r.transports runtime

def remove (runtime : String) : ConnectedRuntimeRegistry :=
  { r with transports := Function.update r.transports runtime none }

end ConnectedRuntimeRegistry

/-! ## The tokens -/

structure IssuedTokens where
  byToken : String → Option String
  byRuntime : String → Option String

namespace IssuedTokens

variable (t : IssuedTokens)

def issue (token runtime : String) : IssuedTokens where
  byRuntime := Function.update t.byRuntime runtime (some token)
  byToken :=
    Function.update
      (match t.byRuntime runtime with
        | some previous => Function.update t.byToken previous none
        | none => t.byToken)
      token (some runtime)

def resolve (token : String) : Option String := t.byToken token

def revokeRuntime (runtime : String) : IssuedTokens :=
  match t.byRuntime runtime with
  | some token =>
    { byRuntime := Function.update t.byRuntime runtime none
      byToken := Function.update t.byToken token none }
  | none => t

theorem resolve_issue (token runtime token' : String) :
    (t.issue token runtime).resolve token' =
      if token' = token then some runtime
      else if t.byRuntime runtime = some token' then none
      else t.resolve token' := by
  unfold resolve issue
  simp only [Function.update_apply]
  split_ifs with htoken hold
  · rfl
  · rw [hold]
    exact Function.update_self _ _ _
  · cases hr : t.byRuntime runtime with
    | none => rfl
    | some previous =>
      refine Function.update_of_ne ?_ _ _
      rintro rfl
      exact hold hr

theorem resolve_revokeRuntime (runtime token : String) :
    (t.revokeRuntime runtime).resolve token =
      if t.byRuntime runtime = some token then none else t.resolve token := by
  unfold resolve revokeRuntime
  cases hr : t.byRuntime runtime with
  | none => rfl
  | some previous =>
    simp only [Function.update_apply, Option.some.injEq, eq_comm]

theorem byRuntime_revokeRuntime (runtime runtime' : String) :
    (t.revokeRuntime runtime).byRuntime runtime' =
      if runtime' = runtime then none else t.byRuntime runtime' := by
  unfold revokeRuntime
  cases hr : t.byRuntime runtime with
  | none =>
    split_ifs with h
    · rw [h, hr]
    · rfl
  | some previous => exact Function.update_apply _ _ _ _

/-- The two tables are each other's inverse. -/
def Paired : Prop :=
  ∀ token runtime, t.resolve token = some runtime ↔ t.byRuntime runtime = some token

variable {t}

theorem Paired.issue (h : t.Paired) {token : String} (runtime : String)
    (hnew : t.resolve token = none) : (t.issue token runtime).Paired := by
  intro token' runtime'
  have hold := h token' runtime'
  have hother := h token' runtime
  have hfree := h token runtime'
  rw [resolve_issue, show (t.issue token runtime).byRuntime runtime' = _ from
    Function.update_apply _ _ _ _]
  grind

theorem Paired.revokeRuntime (h : t.Paired) (runtime : String) :
    (t.revokeRuntime runtime).Paired := by
  intro token runtime'
  have hold := h token runtime'
  have hother := h token runtime
  rw [resolve_revokeRuntime, byRuntime_revokeRuntime]
  grind

end IssuedTokens

/-! ## The listener -/

/-- How far a connection is. -/
inductive LinkPhase
  | dialled
  | upgraded (runtime : String)
  | announced (runtime : String)
  | checked (runtime : String)
  | registered (runtime : String)
  /-- The link is gone, and its transport is to be removed. -/
  | closed (runtime : String)
  | ended
deriving DecidableEq

def LinkPhase.authenticated : LinkPhase → Option String
  | .upgraded runtime | .announced runtime | .checked runtime | .registered runtime
  | .closed runtime => some runtime
  | .dialled | .ended => none

/-- The runtime whose transport a connection registered, and has not removed. -/
def LinkPhase.holds : LinkPhase → Option String
  | .registered runtime | .closed runtime => some runtime
  | .dialled | .upgraded _ | .announced _ | .checked _ | .ended => none

structure Link where
  token : String
  phase : LinkPhase
deriving DecidableEq

/-- A receiver of `notify_when_ready`. -/
structure Waiter where
  runtime : String
  answers : List (Except String Unit)
  /-- It was dropped before an answer came. -/
  gaveUp : Bool

structure Listener where
  registry : ConnectedRuntimeRegistry
  issued : IssuedTokens
  minted : List String
  links : List Link
  waiters : List Waiter

namespace Listener

def init : Listener where
  registry := { transports := fun _ => none, pending := fun _ => [] }
  issued := { byToken := fun _ => none, byRuntime := fun _ => none }
  minted := []
  links := []
  waiters := []

inductive Label
  | issue (token runtime : String)
  | revoke (runtime : String)
  | remove (runtime : String)
  | notify (runtime : String)
  | failPending (runtime message : String)
  /-- The time of a create is over. -/
  | giveUp (waiter : ℕ)
  | dial (token : String)
  | upgrade (link : ℕ)
  | announce (link : ℕ) (runtime : String)
  | check (link : ℕ)
  | register (link : ℕ)
  | drop (link : ℕ)
  | deregister (link : ℕ)
deriving DecidableEq

variable (v : Listener)

def setPhase (c : ℕ) (phase : LinkPhase) : Listener :=
  { v with links := v.links.modify c fun link => { link with phase } }

/-- Those that were waiting get an answer, if they still wait. -/
def answer (outcome : Except String Unit) (answered : List ℕ)
    (registry : ConnectedRuntimeRegistry) : Listener :=
  { v with
    registry
    waiters := v.waiters.mapIdx fun i w =>
      if i ∈ answered ∧ w.gaveUp = false then { w with answers := w.answers ++ [outcome] } else w }

def step? : Label → Option Listener
  | .issue token runtime =>
    if token ∈ v.minted then none
    else some { v with issued := v.issued.issue token runtime, minted := v.minted ++ [token] }
  | .revoke runtime => some { v with issued := v.issued.revokeRuntime runtime }
  | .remove runtime => some { v with registry := v.registry.remove runtime }
  | .notify runtime =>
    some
      { v with
        registry := v.registry.notifyWhenReady runtime v.waiters.length
        waiters := v.waiters ++ [⟨runtime, [], false⟩] }
  | .failPending runtime message =>
    let (answered, registry) := v.registry.resolve runtime
    some (v.answer (.error message) answered registry)
  | .giveUp i =>
    match v.waiters[i]? with
    | some ⟨runtime, [], _⟩ => some { v with waiters := v.waiters.set i ⟨runtime, [], true⟩ }
    | _ => none
  | .dial token => some { v with links := v.links ++ [⟨token, .dialled⟩] }
  | .upgrade c =>
    match v.links[c]? with
    | some ⟨token, .dialled⟩ =>
      some (v.setPhase c ((v.issued.resolve token).elim .ended .upgraded))
    | _ => none
  | .announce c runtime =>
    match v.links[c]? with
    | some ⟨_, .upgraded authenticated⟩ =>
      some (v.setPhase c (if runtime ≠ authenticated then .ended else .announced runtime))
    | _ => none
  | .check c =>
    match v.links[c]? with
    | some ⟨_, .announced runtime⟩ =>
      some (v.setPhase c
        (if (v.registry.runtimeTransport runtime).isSome then .ended else .checked runtime))
    | _ => none
  | .register c =>
    match v.links[c]? with
    | some ⟨_, .checked runtime⟩ =>
      let (registered, answered, registry) := v.registry.tryRegisterTransport runtime c
      some ((v.answer (.ok ()) answered registry).setPhase c
        (if registered then .registered runtime else .ended))
    | _ => none
  | .drop c =>
    match v.links[c]? with
    | some ⟨_, .registered runtime⟩ => some (v.setPhase c (.closed runtime))
    | some ⟨_, .closed _⟩ | some ⟨_, .ended⟩ => none
    | some _ => some (v.setPhase c .ended)
    | none => none
  | .deregister c =>
    match v.links[c]? with
    | some ⟨_, .closed runtime⟩ =>
      some { v.setPhase c .ended with registry := v.registry.remove runtime }
    | _ => none

end Listener

/-- The runtime listener of one vendor's process. -/
def dialBack : System Listener Listener.Label := .ofStep? .init Listener.step?

end Horsie.RuntimeHost
