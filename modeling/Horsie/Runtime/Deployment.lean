import Horsie.Lib.Transition
import Horsie.Runtime.Fly

/-!
# Sessions, their runtimes and the orphan sweep

A deployment: the projects with their sessions and vendors, the Fly apps those vendors name, and
the tasks spawned off a mailbox, which are the creates of runtimes and the orphan sweeps. A create
is spawned before the entry that records its runtime is written, so the two land in either order.
A sweep asks its project's supervisor for the session list, and then goes vendor by vendor:
it reads the machines, destroys those the list does not name, and does the same with the volumes.
Between any two calls everything else may move.

Session ids and runtime ids are minted apart, and never twice.
-/

namespace Horsie.Runtime

/-! ## What is recorded -/

inductive ProvisioningState
  | never
  | inFlight
  | ready
  | failed
deriving DecidableEq

structure RuntimeRecord where
  id : String
  /-- The session or sub session that asked for it. -/
  owner : String
  vendor : String
  provisioning : ProvisioningState
  /-- Whether the entry that records it is in the journal yet. -/
  written : Bool
deriving DecidableEq

structure Session where
  id : String
  project : String
  /-- Whether the registry has it: the session is told to create itself before that is written. -/
  listed : Bool
  vendor : Option String
  runtimes : List RuntimeRecord
deriving DecidableEq

inductive Vendor
  | fly (app : String) (volumes : Bool)
  /-- A vendor that cannot enumerate what it owns. -/
  | other
deriving DecidableEq

namespace Session

def runtimesOwnedBy (s : Session) (owner : String) : List RuntimeRecord :=
  s.runtimes.filter (·.owner = owner)

/-- Between two commands: everything the last handler persisted is written. -/
def settled (s : Session) : Bool := s.runtimes.all (·.written)

def setProvisioning (s : Session) (runtime : String) (p : ProvisioningState) : Session :=
  { s with
    runtimes := s.runtimes.map fun r => if r.id = runtime then { r with provisioning := p } else r }

/-- The runtime a `Provision` builds and its vendor, and whether its record is new. -/
def provision (s : Session) (owner : String) (env : Option String) (fresh : String) :
    Option (String × String × Bool) :=
  match s.runtimesOwnedBy owner, env with
  | r :: _, _ => if r.provisioning = .ready then none else some (r.id, r.vendor, false)
  | [], some vendor => some (fresh, vendor, true)
  | [], none => if owner = s.id then s.vendor.map fun vendor => (fresh, vendor, true) else none

end Session

/-! ## Tasks -/

/-- How far a create has come. -/
inductive CreateStage
  | called
  /-- The volume is made and the machine is next. -/
  | mounted (app : String)
  | reported (ok : Bool)
deriving DecidableEq

structure Create where
  session : String
  runtime : String
  project : String
  vendor : String
  stage : CreateStage
deriving DecidableEq

inductive SweepStage
  | listing
  | listed
  | vendors
  /-- These were read and are still to be looked at. -/
  | left (app : String) (kind : Kind) (objects : List Object)
  | swept (app : String)
deriving DecidableEq

structure Sweep where
  project : String
  live : List String
  vendors : List Vendor
  stage : SweepStage
deriving DecidableEq

def condemned (live : List String) (kind : Kind) (o : Object) : Bool :=
  match kind with
  | .machine => (runtimeIdOf o.name).any (!live.contains ·)
  | .volume => "horsie_".toList.isPrefixOf o.name.toList && !(live.map volumeName).contains o.name

/-! ## The deployment -/

structure Deployment where
  sessions : List Session
  vendors : String → List (String × Vendor)
  apps : String → App
  creates : List Create
  sweeps : List Sweep
  sessionIds : List String
  runtimeIds : List String
  nextId : ℕ

inductive Label
  | configure (project : String) (vendors : List (String × Vendor))
  | createSession (project id : String) (vendor : Option String)
  | list (session : String)
  | deleteSession (session : String)
  /-- A session handles a `Provision`, minting `fresh` where it needs an id. -/
  | provision (session owner : String) (env : Option String) (fresh : String)
  /-- What the last handler of a session persisted is written, or lost with its process. -/
  | persist (session : String)
  | lose (session : String)
  | create (task : ℕ) (ok : Bool)
  /-- A session handles the `FinishProvisioning` of a create. -/
  | finishProvisioning (task : ℕ)
  | killCreate (task : ℕ)
  /-- Something on an app that no create made, or that a vendor or an operator removes. -/
  | foreign (app : String) (kind : Kind) (name : String)
  | vanish (app : String) (kind : Kind) (id : ℕ)
  | openProject (project : String)
  | killSweep (task : ℕ)
  | sweep (task : ℕ) (ok : Bool)
deriving DecidableEq

namespace Deployment

def empty : Deployment := ⟨[], fun _ => [], fun _ => .empty, [], [], [], [], 0⟩

def vendor? (d : Deployment) (project name : String) : Option Vendor :=
  ((d.vendors project).find? (·.1 = name)).map (·.2)

def setApp (d : Deployment) (app : String) (a : App) : Deployment :=
  { d with apps := Function.update d.apps app a }

def make (d : Deployment) (app : String) (kind : Kind) (name : String)
    (madeFor : Option String) : Deployment :=
  { d.setApp app ((d.apps app).add ⟨d.nextId, name, madeFor⟩ kind) with nextId := d.nextId + 1 }

def destroy (d : Deployment) (app : String) (kind : Kind) (id : ℕ) : Deployment :=
  d.setApp app ((d.apps app).destroy id kind)

def mapSession (d : Deployment) (session : String) (f : Session → Session) : Deployment :=
  { d with sessions := d.sessions.map fun s => if s.id = session then f s else s }

def listedIds (d : Deployment) (project : String) : List String :=
  (d.sessions.filter fun s => s.project = project && s.listed).map (·.id)

def createNext (d : Deployment) (c : Create) (ok : Bool) : Deployment × CreateStage :=
  match c.stage with
  | .called =>
    if ok then
      match d.vendor? c.project c.vendor with
      | none => (d, .reported false)
      | some .other => (d, .reported true)
      | some (.fly app true) =>
        (d.make app .volume (volumeName c.runtime) (some c.runtime), .mounted app)
      | some (.fly app false) =>
        (d.make app .machine (machineName c.runtime) (some c.runtime), .reported true)
    else (d, .reported false)
  | .mounted app =>
    if ok then (d.make app .machine (machineName c.runtime) (some c.runtime), .reported true)
    else (d, .reported false)
  | .reported ok => (d, .reported ok)

def sweepNext (d : Deployment) (w : Sweep) (ok : Bool) : Deployment × Option Sweep :=
  match w.stage with
  | .listing =>
    if ok then (d, some { w with live := d.listedIds w.project, stage := .listed }) else (d, none)
  | .listed => (d, some { w with vendors := (d.vendors w.project).map (·.2), stage := .vendors })
  | .vendors =>
    match w.vendors with
    | [] => (d, none)
    | .other :: rest => (d, some { w with vendors := rest })
    | .fly app _ :: rest =>
      if ok then
        (d, some { w with vendors := rest, stage := .left app .machine (d.apps app).machines })
      else (d, some { w with vendors := rest })
  | .left app .machine [] => (d, some { w with stage := .swept app })
  -- One machine that cannot be destroyed does not shield the others.
  | .left app .machine (o :: rest) =>
    (if condemned w.live .machine o && ok then d.destroy app .machine o.id else d,
      some { w with stage := .left app .machine rest })
  | .swept app =>
    if ok then (d, some { w with stage := .left app .volume (d.apps app).volumes })
    else (d, some { w with stage := .vendors })
  | .left _ .volume [] => (d, some { w with stage := .vendors })
  -- One volume that cannot be deleted ends the pass over the volumes.
  | .left app .volume (o :: rest) =>
    if condemned w.live .volume o then
      if ok then
        (d.destroy app .volume o.id, some { w with stage := .left app .volume rest })
      else (d, some { w with stage := .vendors })
    else (d, some { w with stage := .left app .volume rest })

def spawn (d : Deployment) (c : Create) : Deployment := { d with creates := d.creates ++ [c] }

def record (d : Deployment) (session : String) (r : RuntimeRecord) : Deployment :=
  { d.mapSession session fun s => { s with runtimes := s.runtimes ++ [r] } with
    runtimeIds := r.id :: d.runtimeIds }

/-- A session handles a `Provision`: the create is spawned, and the record is still to be
written. -/
def provision (d : Deployment) (s : Session) (owner : String) (env : Option String)
    (fresh : String) : Deployment :=
  match s.provision owner env fresh with
  | none => d
  | some (runtime, vendor, requested) =>
    let d := d.spawn ⟨s.id, runtime, s.project, vendor, .called⟩
    if requested then d.record s.id ⟨runtime, owner, vendor, .inFlight, false⟩
    else d.mapSession s.id (·.setProvisioning runtime .inFlight)

/-- The next call of the create `task` is done. -/
def call (d : Deployment) (task : ℕ) (c : Create) (ok : Bool) : Deployment :=
  { (d.createNext c ok).1 with
    creates := d.creates.set task { c with stage := (d.createNext c ok).2 } }

/-- What is left of the sweep `task`. -/
def putSweep (d : Deployment) (task : ℕ) : Option Sweep → Deployment
  | none => { d with sweeps := d.sweeps.eraseIdx task }
  | some w => { d with sweeps := d.sweeps.set task w }

def step? (d : Deployment) : Label → Option Deployment
  | .configure project vendors =>
    some { d with vendors := Function.update d.vendors project vendors }
  | .createSession project id vendor =>
    if id ∉ d.sessionIds ∧ id ∉ d.runtimeIds ∧ id ≠ "" then
      some { d with
        sessions := d.sessions ++ [⟨id, project, false, vendor, []⟩]
        sessionIds := id :: d.sessionIds }
    else none
  | .list session => some (d.mapSession session fun s => { s with listed := true })
  | .deleteSession session => some { d with sessions := d.sessions.filter (·.id ≠ session) }
  | .provision session owner env fresh =>
    (d.sessions.find? (·.id = session)).bind fun s =>
      if s.settled ∧ fresh ∉ d.sessionIds ∧ fresh ∉ d.runtimeIds ∧ fresh ≠ "" then
        some (d.provision s owner env fresh)
      else none
  | .persist session =>
    some (d.mapSession session fun s =>
      { s with runtimes := s.runtimes.map ({ · with written := true }) })
  | .lose session =>
    some (d.mapSession session fun s => { s with runtimes := s.runtimes.filter (·.written) })
  | .create task ok => (d.creates[task]?).map fun c => d.call task c ok
  | .finishProvisioning task =>
    (d.creates[task]?).bind fun c =>
      match c.stage with
      | .reported ok =>
        some { d.mapSession c.session
            (·.setProvisioning c.runtime (if ok then .ready else .failed)) with
          creates := d.creates.eraseIdx task }
      | .called | .mounted _ => none
  | .killCreate task => some { d with creates := d.creates.eraseIdx task }
  | .foreign app kind name => some (d.make app kind name none)
  | .vanish app kind id => some (d.destroy app kind id)
  | .openProject project =>
    some { d with sweeps := d.sweeps ++ [⟨project, [], [], .listing⟩] }
  | .killSweep task => some { d with sweeps := d.sweeps.eraseIdx task }
  | .sweep task ok =>
    (d.sweeps[task]?).map fun w => (d.sweepNext w ok).1.putSweep task (d.sweepNext w ok).2

section

variable {d : Deployment} {task : ℕ}

@[simp] theorem putSweep_apps (next : Option Sweep) : (d.putSweep task next).apps = d.apps := by
  cases next <;> rfl

@[simp] theorem putSweep_sessions (next : Option Sweep) :
    (d.putSweep task next).sessions = d.sessions := by
  cases next <;> rfl

theorem getElem?_putSweep {w w' : Sweep} (h : d.sweeps[task]? = some w) :
    (d.putSweep task (some w')).sweeps[task]? = some w' :=
  List.getElem?_set_self (List.getElem?_eq_some_iff.mp h).1

theorem apps_destroy_self (app : String) (kind : Kind) (id : ℕ) :
    (d.destroy app kind id).apps app = (d.apps app).destroy id kind := Function.update_self ..

theorem apps_destroy_of_ne {app app' : String} (h : app' ≠ app) (kind : Kind) (id : ℕ) :
    (d.destroy app kind id).apps app' = d.apps app' := Function.update_of_ne h ..

end

end Deployment

def deploymentSystem : Lib.System Deployment Label := .ofStep? .empty Deployment.step?

/-- Guarded steps that can be taken make an execution whose steps all meet the guard. -/
theorem exec_deployment {G : Deployment → Label → Prop} [∀ d l, Decidable (G d l)]
    {ls : List Label} (h : (Lib.System.steps? (Lib.System.guarded? G Deployment.step?) .empty
      ls).isSome) :
    ∃ tr, deploymentSystem.Exec .empty tr (Option.get _ h) ∧ tr.map (·.2.1) = ls ∧
      ∀ x ∈ tr, G x.1 x.2.1 :=
  Lib.System.exec_guarded? _ (Option.some_get h).symm

end Horsie.Runtime
