import Horsie.Lib.Transition

/-!
# Velos containers

The vendor of velos containers, one runtime of it. A hibernate and a resume record what the user
wants of the container; the phase moves when the worker acts. An acquisition reads the phase alone,
and asks for a resume only where that says the container is hibernated. Every vendor call is a few
requests to velos, and the requests of calls under way come in any order.
-/

namespace Horsie.Runtime.Velos

open Horsie.Lib

/-! ## Containers -/

inductive ContainerPhase
  | pending
  | scheduled
  | running
  | hibernated
  | succeeded
  | failed
  | unknown
deriving DecidableEq

def ContainerPhase.name : ContainerPhase → String
  | pending => "Pending"
  | scheduled => "Scheduled"
  | running => "Running"
  | hibernated => "Hibernated"
  | succeeded => "Succeeded"
  | failed => "Failed"
  | unknown => "Unknown"

/-- The container crashed, or exited before connecting. -/
def ContainerPhase.isDead : ContainerPhase → Bool
  | failed | succeeded => true
  | _ => false

/-- What `spec.desiredState` records. -/
inductive DesiredState
  | running
  | hibernated
deriving DecidableEq

/-- The phase a worker that has acted on the intent reports. -/
def DesiredState.phase : DesiredState → ContainerPhase
  | running => .running
  | hibernated => .hibernated

structure Container where
  desired : DesiredState
  phase : Option ContainerPhase
deriving DecidableEq

def Container.converge (c : Container) : Container := { c with phase := some c.desired.phase }

/-! ## Requests -/

inductive VelosError
  | status (code : ℕ) (body : String)
  | request (message : String)
deriving DecidableEq

inductive VendorError
  | unavailable (message : String)
  | provision (message : String)
  | gone (message : String)
deriving DecidableEq

def VendorError.ofVelos : VelosError → VendorError
  | .status code body =>
    if code = 429 ∨ 500 ≤ code then .unavailable (toString code ++ ": " ++ body)
    else .provision (toString code ++ ": " ++ body)
  | .request m => .unavailable m

/-- How velos met a request: it did as asked, or it failed, with or without the request done. -/
inductive Reply
  | ok
  | failed (done : Bool) (e : VelosError)
deriving DecidableEq

/-- Whether the request took effect. -/
def Reply.done : Reply → Bool
  | ok => true
  | failed done _ => done

/-- A delete and a hibernate take a missing container for success. -/
def Reply.forgiving : Reply → Except VendorError Unit
  | ok => .ok ()
  | failed _ (.status 404 _) => .ok ()
  | failed _ e => .error (.ofVelos e)

def createContainer : Option Container → Option Container
  | none => some ⟨.running, some .pending⟩
  | some c => some c

def hibernateContainer (c : Option Container) : Option Container :=
  c.map fun c => { c with desired := .hibernated }

def resumeContainer (c : Option Container) : Option Container :=
  c.map fun c => { c with desired := .running }

/-! ## Vendor calls -/

inductive Progress
  | starting (detail : String)
  | stopped
  | gone (reason : String)
deriving DecidableEq

/-- A call of the vendor, by the request it makes next, or a watch it has spawned. -/
inductive Call
  /-- `create`, before `delete_container` of what is left under the name. -/
  | reclaiming
  /-- `create`, before `create_container`. -/
  | creating
  /-- `get`, before `container_phase`. -/
  | getting (provisioning : Bool)
  /-- `get` of a hibernated container, before `resume_container`. -/
  | resuming
  /-- `get` with nothing left but to answer. -/
  | starting (detail : String)
  | hibernating
  | deleting
  /-- `watch_substrate`, before it polls the phase. -/
  | watching
  /-- `watch_substrate` of a dead container, before `delete_container`. -/
  | burying (phase : ContainerPhase)
  | answered (answer : Except VendorError Progress)
deriving DecidableEq

/-- What the runtime manager asks of the vendor. -/
inductive Request
  | create
  | get (provisioning : Bool)
  | hibernate
  | delete
deriving DecidableEq

def Request.call : Request → Call
  | create => .reclaiming
  | get provisioning => .getting provisioning
  | hibernate => .hibernating
  | delete => .deleting

/-- What `get` makes of the phase it read. -/
def ofPhase (runtimeId : String) (provisioning : Bool) (phase : Option ContainerPhase) : Call :=
  if phase = some .hibernated then .resuming
  else if phase.any (!·.isDead) || provisioning then
    .starting "the container is up; waiting for it to dial back"
  else .answered (.error (.gone ("no container for runtime '" ++ runtimeId ++ "'")))

/-! ## Runs -/

structure World where
  container : Option Container
  calls : List Call
  /-- A `get` answered `Starting`, and neither a hibernate nor a delete was recorded since. -/
  acquired : Bool
deriving DecidableEq

inductive Label
  | call (r : Request)
  | act (i : ℕ) (r : Reply)
  | report (phase : ContainerPhase)
  | converge
  | lose
deriving DecidableEq

namespace World

def start : World := ⟨none, [], false⟩

/-- The call `i` goes on as `c`. -/
def next (w : World) (i : ℕ) (c : Call) : World := { w with calls := w.calls.set i c }

/-- The call `i` goes on as `c` and leaves a watch behind. -/
def spawn (w : World) (i : ℕ) (c : Call) : World :=
  { w with calls := w.calls.set i c ++ [.watching] }

/-- A hibernate or a delete that reached a container. -/
def record (w : World) (container : Option Container) : World :=
  { w with container, acquired := w.acquired && w.container.isNone }

/-- `delete_container`, where the request took effect. -/
def delete (w : World) (r : Reply) : World := if r.done then w.record none else w

def hibernate (w : World) (r : Reply) : World :=
  if r.done then w.record (hibernateContainer w.container) else w

def phase (w : World) : Option ContainerPhase := w.container.bind (·.phase)

def act (runtimeId : String) (w : World) (i : ℕ) (r : Reply) : Call → Option World
  | .reclaiming => some ((w.delete r).next i .creating)
  | .creating =>
    match r, w.container with
    | .ok, none =>
      some ({ w with container := createContainer none }.spawn i
        (.answered (.ok (.starting "the container is being scheduled"))))
    | .ok, some _ => none
    | .failed done e, c =>
      some ({ w with container := if done then createContainer c else c }.next i
        (.answered (.error (.ofVelos e))))
  | .getting provisioning =>
    match r with
    | .ok =>
      match ofPhase runtimeId provisioning w.phase with
      | .starting detail => some (w.spawn i (.starting detail))
      | c => some (w.next i c)
    | .failed _ e => some (w.next i (.answered (.error (.ofVelos e))))
  | .resuming =>
    match r, w.container with
    | .ok, none => none
    | .ok, some c =>
      some ({ w with container := resumeContainer (some c) }.spawn i
        (.starting "the container is resuming"))
    | .failed done e, c =>
      some ({ w with container := if done then resumeContainer c else c }.next i
        (.answered (.error (.ofVelos e))))
  | .starting detail =>
    some ({ w with acquired := true }.next i (.answered (.ok (.starting detail))))
  | .hibernating => some ((w.hibernate r).next i (.answered (r.forgiving.map fun _ => .stopped)))
  | .deleting =>
    some ((w.delete r).next i
      (.answered (r.forgiving.map fun _ => .gone "the owning session was deleted")))
  | .watching =>
    match r, w.phase with
    | .ok, some phase => some (if phase.isDead then w.next i (.burying phase) else w)
    | _, _ => some w
  | .burying phase =>
    some ((w.delete r).next i
      (.answered (.ok (.gone ("the container reached " ++ phase.name ++ " before connecting")))))
  | .answered _ => none

def step? (runtimeId : String) (w : World) : Label → Option World
  | .call r => some { w with calls := w.calls ++ [r.call] }
  | .act i r => w.calls[i]?.bind (w.act runtimeId i r)
  | .report phase =>
    w.container.map fun c => { w with container := some { c with phase := some phase } }
  | .converge => w.container.map fun c => { w with container := some c.converge }
  | .lose => some { w with container := none }

def wanted (w : World) : Bool := w.container.all (·.desired = .running)

end World

abbrev velos (runtimeId : String) : System World Label :=
  System.ofStep? .start (World.step? runtimeId)

/-! ## What was acquired is to run -/

def Call.isStarting : Call → Bool
  | starting _ => true
  | _ => false

namespace World

/-- After an acquisition that answered `Starting`, the recorded intent is to run, so the worker
that acts on it leaves the container running. -/
def Kept (w : World) : Prop :=
  w.acquired = true → ∀ c, w.container = some c →
    c.desired = .running ∧ c.converge.phase = some .running

/-- A `get` is about to answer `Starting`. -/
def deciding (w : World) : Bool := w.calls.any (·.isStarting)

/-- A `get` that answers `Starting` for the phase it read reads it of a container that is to run,
and no hibernate is recorded before a `get` with that answer has given it. -/
def heeds (runtimeId : String) (w : World) : Label → Bool
  | .act i r =>
    match w.calls[i]? with
    | some (.getting provisioning) =>
      r ≠ .ok || w.wanted || !(ofPhase runtimeId provisioning w.phase).isStarting
    | some .hibernating => !r.done || w.container.isNone || !w.deciding
    | _ => true
  | _ => true

/-- What was acquired, or is about to be, is to run. -/
def Promised (w : World) : Prop := w.acquired = true ∨ w.deciding = true → w.wanted = true

variable {runtimeId : String} {w w' : World} {i : ℕ} {c : Call} {r : Reply}

theorem wanted_iff : w.wanted = true ↔ ∀ c, w.container = some c → c.desired = .running := by
  unfold wanted
  cases w.container <;> simp

theorem Promised.kept (h : w.Promised) : w.Kept := by
  intro hacq c hc
  have hrun := wanted_iff.mp (h (.inl hacq)) c hc
  exact ⟨hrun, by simp [Container.converge, hrun, DesiredState.phase]⟩

theorem deciding_set (hc : c.isStarting = false) (h : (w.calls.set i c).any (·.isStarting) = true) :
    w.deciding = true := by
  obtain ⟨d, hd, hs⟩ := List.any_eq_true.mp h
  rcases List.mem_or_eq_of_mem_set hd with hd | rfl
  · exact List.any_eq_true.mpr ⟨d, hd, hs⟩
  · rw [hc] at hs
    cases hs

theorem Promised.next (h : w.Promised) (hc : c.isStarting = false) : (w.next i c).Promised := by
  rintro (hacq | hdec)
  · exact h (.inl hacq)
  · exact h (.inr (deciding_set hc hdec))

theorem promised_of_wanted (h : w.wanted = true) : w.Promised := fun _ => h

theorem Promised.delete (h : w.Promised) (r : Reply) : (w.delete r).Promised := by
  unfold World.delete
  split
  · exact promised_of_wanted rfl
  · exact h

theorem Promised.hibernate (h : w.Promised)
    (hg : (!r.done || w.container.isNone || !w.deciding) = true) : (w.hibernate r).Promised := by
  unfold World.hibernate
  split
  · rename_i hdone
    cases hcont : w.container with
    | none => exact promised_of_wanted (by simp [wanted, record, hibernateContainer])
    | some c =>
      have hdec : w.deciding = false := by simpa [hdone, hcont] using hg
      rintro (hacq | hdec')
      · simp [record, hcont] at hacq
      · exact absurd (hdec'.symm.trans hdec) (by decide)
  · exact h

theorem Promised.container (h : w.Promised) {container : Option Container}
    (hc : w.wanted = true → container.all (·.desired = .running) = true) :
    { w with container }.Promised := fun hp => hc (h hp)

theorem wanted_create (h : w.wanted = true) :
    (createContainer w.container).all (·.desired = .running) = true := by
  unfold wanted at h
  cases hc : w.container with
  | none => rfl
  | some c =>
    rw [hc] at h
    exact h

theorem wanted_resume (container : Option Container) :
    (resumeContainer container).all (·.desired = .running) = true := by
  cases container <;> rfl

/-- What a `get` does with the phase it read: it answers `Starting`, of a container that is to run,
or it has nothing to promise. -/
theorem Promised.get (h : w.Promised) {provisioning : Bool}
    (hg : (w.wanted || !(ofPhase runtimeId provisioning w.phase).isStarting) = true)
    (hw : w.act runtimeId i .ok (.getting provisioning) = some w') : w'.Promised := by
  simp only [World.act] at hw
  split at hw
  · rename_i detail hread
    cases hw
    have hwanted : w.wanted = true := by simpa [hread, Call.isStarting] using hg
    exact promised_of_wanted hwanted
  · rename_i hno
    cases hw
    refine h.next ?_
    cases hread : ofPhase runtimeId provisioning w.phase with
    | starting detail => exact absurd hread (hno detail)
    | _ => rfl

theorem Promised.act (h : w.Promised) (hi : w.calls[i]? = some c)
    (hg : w.heeds runtimeId (.act i r) = true) (hw : w.act runtimeId i r c = some w') :
    w'.Promised := by
  simp only [heeds, hi] at hg
  cases c with
  | reclaiming =>
    cases hw
    exact (h.delete r).next rfl
  | creating =>
    simp only [World.act] at hw
    split at hw
    · cases hw
      exact promised_of_wanted rfl
    · cases hw
    · rename_i done e
      cases hw
      refine (h.container fun hwant => ?_).next rfl
      split
      · exact wanted_create hwant
      · exact hwant
  | getting provisioning =>
    cases r with
    | ok => exact h.get (by simpa using hg) hw
    | failed done e =>
      cases hw
      exact h.next rfl
  | resuming =>
    simp only [World.act] at hw
    split at hw
    · cases hw
    · cases hw
      exact promised_of_wanted rfl
    · cases hw
      refine (h.container fun hwant => ?_).next rfl
      split
      · exact wanted_resume _
      · exact hwant
  | starting detail =>
    cases hw
    have hdec : w.deciding = true :=
      List.any_eq_true.mpr ⟨_, List.mem_of_getElem? hi, rfl⟩
    exact promised_of_wanted (h (.inr hdec))
  | hibernating =>
    cases hw
    exact (h.hibernate hg).next rfl
  | deleting =>
    cases hw
    exact (h.delete r).next rfl
  | watching =>
    simp only [World.act] at hw
    split at hw
    · cases hw
      split
      · exact h.next rfl
      · exact h
    · cases hw
      exact h
  | burying phase =>
    cases hw
    exact (h.delete r).next rfl
  | answered answer => cases hw

theorem Promised.worker (h : w.Promised) {f : Container → Container}
    (hf : ∀ c, (f c).desired = c.desired)
    (hw : (w.container.map fun c => { w with container := some (f c) }) = some w') :
    w'.Promised := by
  obtain ⟨c, hc, rfl⟩ := Option.map_eq_some_iff.mp hw
  refine h.container fun hwant => ?_
  simpa [wanted, hc, hf] using hwant

theorem Promised.step {l : Label} (h : w.Promised) (hg : w.heeds runtimeId l = true)
    (hw : w.step? runtimeId l = some w') : w'.Promised := by
  cases l with
  | call request =>
    cases hw
    rintro (hacq | hdec)
    · exact h (.inl hacq)
    · refine h (.inr ?_)
      cases request <;> simpa [deciding, Request.call, Call.isStarting] using hdec
  | act i r =>
    obtain ⟨c, hi, hw⟩ := Option.bind_eq_some_iff.mp hw
    exact h.act hi hg hw
  | report phase => exact h.worker (f := fun c => { c with phase := some phase }) (fun _ => rfl) hw
  | converge => exact h.worker (f := Container.converge) (fun _ => rfl) hw
  | lose =>
    cases hw
    exact promised_of_wanted rfl

end World

/-- An acquisition outlives a hibernate where every `get` that finds the container up finds it
recorded as one to run. -/
theorem acquired_kept {runtimeId : String} {w : World} {tr : List (World × Label × World)}
    (h : (velos runtimeId).Exec .start tr w) (hg : ∀ x ∈ tr, x.1.heeds runtimeId x.2.1 = true) :
    w.Kept := by
  have h0 : World.start.Promised := World.promised_of_wanted rfl
  have hstep : ∀ s l t, (velos runtimeId).Reachable s → s.Promised →
      s.heeds runtimeId l = true → (velos runtimeId).Step s l t → t.Promised :=
    fun _ _ _ _ hs hheeds hstep => hs.step hheeds hstep
  exact (h.guarded hstep (.init rfl) h0 hg).kept

/-- A create whose container is up, hibernated and, once the worker has acted, acquired again. -/
theorem acquired_kept_resumed : ∃ tr w, (velos "r").Exec .start tr w ∧ w.Kept ∧
    w.acquired = true ∧ w.container.map (·.converge.phase) = some (some .running) := by
  have hrun : ((System.steps? (System.guarded? (fun w l => w.heeds "r" l = true)
      (World.step? "r")) .start
      [.call .create, .act 0 .ok, .act 0 .ok, .report .running, .call .hibernate, .act 2 .ok,
        .converge, .call (.get false), .act 3 .ok, .act 3 .ok, .act 3 .ok]).map
      fun w => (w.acquired, w.container)) = some (true, some ⟨.running, some .hibernated⟩) := by
    decide +kernel
  obtain ⟨w, hw, hproj⟩ := Option.map_eq_some_iff.mp hrun
  obtain ⟨tr, htr, -, hg⟩ := System.exec_guarded? .start hw
  obtain ⟨hacq, hcont⟩ := Prod.mk.inj hproj
  exact ⟨tr, w, htr, acquired_kept htr hg, hacq, by rw [hcont]; rfl⟩

/-- A hibernate is recorded, the container is still up, and an acquisition takes that for an
answer: once the worker has acted, the container it promised is hibernated. -/
theorem hibernate_outlives_get : ¬∀ (runtimeId : String) (tr : List (World × Label × World))
    (w : World), (velos runtimeId).Exec .start tr w → w.Kept := by
  intro h
  have hrun : ((System.steps? (World.step? "r") .start
      [.call .create, .act 0 .ok, .act 0 .ok, .report .running, .call .hibernate, .act 2 .ok,
        .call (.get false), .act 3 .ok, .act 3 .ok, .converge]).map
      fun w => (w.acquired, w.container)) = some (true, some ⟨.hibernated, some .hibernated⟩) := by
    decide +kernel
  obtain ⟨w, hw, hproj⟩ := Option.map_eq_some_iff.mp hrun
  obtain ⟨tr, htr, -⟩ := System.exec_steps? .start hw
  obtain ⟨hacq, hcont⟩ := Prod.mk.inj hproj
  exact absurd (h "r" tr w htr hacq _ hcont).1 (by decide)

end Horsie.Runtime.Velos
