import Horsie.Session.Teardown

/-!
# Whether a deleted session is gone

Once a delete is acknowledged and nothing is in flight, no agent of the session is left to start a
turn. Its runtimes and its rows are gone as long as everything that goes on beside the delete comes
in time (`World.Timely`): no call of a create is made after the delete went past what it makes, no
notice and no write of an earlier load after the rows were forgotten.
-/

namespace Horsie.Session

open Lib
open Horsie.Runtime (Kind)

/-! ## Records of runtimes -/

namespace SessionState

variable {s : SessionState} {runtime vendor : String} {event : SessionDomainEvent}

theorem envOf_setProvisioning {r : String} {f : ProvisioningState → ProvisioningState} :
    (s.setProvisioning r f).envOf runtime = s.envOf runtime := by
  unfold envOf setProvisioning
  rw [Map.lookup_adjust]
  split_ifs
  · rw [Option.map_map]
    rfl
  · rfl

theorem envOf_applyEvent (h : s.envOf runtime = some vendor)
    (hnew : ∀ r owner env, event = .runtimeRequested r owner env → r ≠ runtime) :
    (s.applyEvent event).envOf runtime = some vendor := by
  cases event with
  | specRecorded session spec =>
    cases spec.kind <;> exact h
  | runtimeRequested r owner env =>
    unfold envOf at h ⊢
    rw [applyEvent, Map.lookup_insert_eq, if_neg (hnew r owner env rfl).symm]
    exact h
  | provisioningStarted | provisioningSucceeded => exact envOf_setProvisioning.trans h
  | provisioningFailed r error terminal =>
    have he := envOf_setProvisioning (s := s) (r := r) (f := fun p => .failed (p.atMs.getD 0) error)
      |>.trans h
    unfold applyEvent
    cases terminal <;> exact he
  | _ => exact h

theorem envOf_applyEvent_of_not_isLifecycle (h : s.envOf runtime = some vendor)
    (hevent : event.isLifecycle = false) : (s.applyEvent event).envOf runtime = some vendor :=
  envOf_applyEvent h fun _ _ _ he => by simp [he, SessionDomainEvent.isLifecycle] at hevent

theorem mem_doomed {o : Teardown.Object} (h : s.envOf o.runtime = some o.vendor) :
    o ∈ s.doomed := by
  obtain ⟨r, hr, hv⟩ := Option.map_eq_some_iff.mp h
  refine List.mem_flatMap.mpr ⟨(o.runtime, r), Map.mem_toPairs.mpr hr, ?_⟩
  obtain ⟨vendor, runtime, kind⟩ := o
  subst hv
  cases kind with
  | machine => exact List.mem_cons_self
  | volume => exact List.mem_cons_of_mem _ List.mem_cons_self

/-- A `Provision` builds a new runtime, or one whose vendor is on record. -/
theorem of_provisions {session owner fresh : String} {env : Option String} {requested : Bool}
    (h : s.provisions session owner env fresh = some (runtime, vendor, requested)) :
    (requested = true ∧ runtime = fresh) ∨
      (requested = false ∧ s.envOf runtime = some vendor) := by
  unfold provisions at h
  by_cases hfatal : s.fatal.isSome = true
  · rw [if_pos hfatal] at h
    cases h
  rw [if_neg hfatal] at h
  split at h
  · rename_i r record hfind
    split at h
    · cases h
    all_goals
      obtain ⟨rfl, rfl, rfl⟩ := by simpa using h
      have hmem := List.mem_of_find?_eq_some hfind
      exact .inr ⟨rfl, by rw [envOf, Map.mem_toPairs.mp hmem]; rfl⟩
  · obtain ⟨rfl, rfl, rfl⟩ := by simpa using h
    exact .inl ⟨rfl, rfl⟩
  · split_ifs at h
    obtain ⟨v, -, hv⟩ := Option.map_eq_some_iff.mp h
    obtain ⟨rfl, rfl, rfl⟩ := by simpa using hv
    exact .inl ⟨rfl, rfl⟩

/-- A started create has its runtime recorded, and leaves the other records as they are. -/
theorem envOf_started {session owner fresh : String} {env : Option String} {requested : Bool}
    {atMs : ℕ} (h : s.provisions session owner env fresh = some (runtime, vendor, requested))
    (hfresh : s.runtimes.lookup fresh = none) :
    (s.applyAll (started runtime owner vendor requested atMs)).envOf runtime = some vendor ∧
      ∀ r v, s.envOf r = some v →
        (s.applyAll (started runtime owner vendor requested atMs)).envOf r = some v := by
  let begun : ProvisioningState → ProvisioningState := fun _ => .inFlight atMs
  rcases of_provisions h with ⟨rfl, rfl⟩ | ⟨rfl, hv⟩
  · let s' := s.applyEvent (.runtimeRequested runtime owner vendor)
    show (s'.setProvisioning runtime begun).envOf runtime = some vendor ∧
      ∀ r v, s.envOf r = some v → (s'.setProvisioning runtime begun).envOf r = some v
    constructor
    · refine envOf_setProvisioning.trans ?_
      show ((s.runtimes.insert runtime ⟨vendor, owner, .never⟩).lookup runtime).map (·.env) = _
      rw [AList.lookup_insert]
      rfl
    · intro r v hr
      refine envOf_setProvisioning.trans (envOf_applyEvent hr ?_)
      rintro r' owner' env' he rfl
      cases he
      rw [envOf, hfresh] at hr
      cases hr
  · show (s.setProvisioning runtime begun).envOf runtime = some vendor ∧
      ∀ r v, s.envOf r = some v → (s.setProvisioning runtime begun).envOf r = some v
    exact ⟨envOf_setProvisioning.trans hv, fun r v hr => envOf_setProvisioning.trans hr⟩

end SessionState

namespace Teardown

/-! ## How far a delete is -/

def Stage.passed (o : Object) : Stage → Bool
  | .serving | .cancelling => false
  | .walking left => !left.contains o
  | .forgettingRuns | .forgettingInbox => true

def Stage.reaches : Stage → Bool
  | .serving | .cancelling => true
  | .walking _ | .forgettingRuns | .forgettingInbox => false

theorem Stage.passed_of_reaches {stage : Stage} (h : stage.reaches = true) (o : Object) :
    stage.passed o = false := by
  cases stage with
  | serving | cancelling => rfl
  | walking | forgettingRuns | forgettingInbox => cases h

/-- An agent that is reached no more was told to stop. -/
def Agent.Accounted (reaches : Bool) (a : Agent) : Prop :=
  (a.resident = true ∧ reaches = true) ∨ .shutdown ∈ a.mailbox

theorem Agent.Accounted.push {a : Agent} {reaches : Bool} {c : AgentCommand}
    (h : a.Accounted reaches) : (a.push c).Accounted reaches := by
  rcases h with h | h
  · exact .inl h
  · exact .inr (List.mem_append_left _ h)

theorem Agent.Accounted.retire {a : Agent} {reaches : Bool} {left : ℕ} (h : a.Accounted reaches) :
    .shutdown ∈ (a.retire left).mailbox := by
  unfold Agent.retire
  split_ifs with hr
  · exact List.mem_append_right _ (by simp)
  · exact h.resolve_left fun h => hr h.1

theorem Agent.Accounted.stop {a : Agent} {reaches : Bool} (h : a.Accounted reaches) :
    .shutdown ∈ a.stop.mailbox := by
  unfold Agent.stop
  split_ifs with hr
  · exact List.mem_append_right _ (by simp)
  · exact h.resolve_left fun h => hr h.1

namespace World

def passed (w : World) (o : Object) : Bool := w.deleted || w.session.any (·.stage.passed o)

def runsForgotten (w : World) : Bool := w.deleted || w.session.any (·.stage = .forgettingInbox)

def reaches (w : World) : Bool := w.session.any (·.stage.reaches)

/-- What goes on beside the delete comes in time. -/
def Timely (w : World) : Label → Prop
  | .create task none =>
    ∀ c ∈ w.creates[task]?, ∀ kind ∈ c.calls.head?, w.passed (c.object kind) = false
  | .drift load =>
    ∀ writes ∈ w.adrift[load]?, ∀ next ∈ writes.head?,
      (w.runsForgotten = true → next.toRuns [] = []) ∧ (w.deleted = true → next.toInbox [] = [])
  | .notify _ => w.deleted = false
  | .forward _ _ | .request _ _ | .acknowledge | .send _ | .serve _ _ _ | .advance | .index
  | .create _ (some _) | .agent _ _ | .tell _ _ | .finish _ => True

/-- The delete is acknowledged and nothing is in flight. -/
structure Finished (w : World) : Prop where
  deleted : w.deleted = true
  acknowledged : w.listed = false
  creates : w.creates = []
  running : w.running = []
  adrift : ∀ writes ∈ w.adrift, writes = []
  agents : ∀ a ∈ w.agents, a.mailbox = []

/-! ## What holds in every run -/

/-- The requests the session has still to answer. -/
def asked (w : World) : ℕ :=
  w.session.elim 0 fun s =>
    s.mailbox.countP (·.isRequest) + if s.stage = .serving then 0 else 1

structure Sound (w : World) : Prop where
  made : ∀ o ∈ w.substrate, w.state.envOf o.runtime = some o.vendor
  making : ∀ c ∈ w.creates, w.state.envOf c.runtime = some c.vendor
  accounted : ∀ a ∈ w.agents, a.Accounted w.reaches
  /-- The supervisor waits for the answer to its request, of which there is one at most. -/
  asks : w.asked ≤ w.waiting.toNat
  drained : ∀ s ∈ w.session, s.stage = .forgettingInbox → s.indexing = []
  gone : w.deleted = true → w.session = none ∧ (w.listed = true → w.waiting = true)

/-- Nothing the delete went past is left. -/
structure Tidy (w : World) : Prop where
  substrate : ∀ o ∈ w.substrate, w.passed o = false
  runs : w.runsForgotten = true → w.runs = []
  inbox : w.deleted = true → w.inbox = []

variable {w t : World} {s : Loaded}

/-! ### Commands -/

theorem asked_push {c : Command} :
    (w.push c).asked ≤ w.asked + c.isRequest.toNat := by
  unfold push asked mapSession
  cases w.session with
  | none => exact Nat.zero_le _
  | some s =>
    simp only [Option.map_some, Option.elim_some, List.countP_append, List.countP_singleton]
    cases c.isRequest with
    | true => simp; omega
    | false => simp

theorem Sound.push {c : Command} (h : w.Sound) (hc : c.isRequest = false) : (w.push c).Sound where
  made := h.made
  making := h.making
  accounted a ha := by
    have hr : (w.push c).reaches = w.reaches := by
      unfold World.push mapSession reaches
      cases w.session <;> rfl
    rw [hr]
    exact h.accounted a ha
  asks := by
    have hle := asked_push (w := w) (c := c)
    rw [hc] at hle
    exact hle.trans h.asks
  drained := by
    intro s hs
    obtain ⟨s', hs', rfl⟩ := Option.map_eq_some_iff.mp hs
    exact h.drained s' hs'
  gone hd := ⟨by rw [World.push, mapSession, (h.gone hd).1]; rfl, (h.gone hd).2⟩

theorem reaches_of_session (h : w.session = some s) : w.reaches = s.stage.reaches := by
  unfold reaches
  rw [h]
  rfl

theorem Sound.loaded (h : w.Sound) (hs : w.session = some s) : w.deleted = false := by
  by_contra hd
  rw [Bool.not_eq_false] at hd
  rw [(h.gone hd).1] at hs
  cases hs

theorem Sound.listed (h : w.Sound) (hl : w.listed = true) (hw : w.waiting = false) :
    w.deleted = false := by
  by_contra hd
  rw [Bool.not_eq_false] at hd
  exact Bool.false_ne_true (hw.symm.trans ((h.gone hd).2 hl))

theorem repair_not_isRequest {s : SessionState} {c : Command} (h : c ∈ s.repair.toList) :
    c.isRequest = false := by
  unfold SessionState.repair at h
  split_ifs at h
  · cases h
  · obtain ⟨r, -, rfl⟩ := Option.map_eq_some_iff.mp (Option.mem_toList.mp h)
    rfl

theorem Sound.deliver {c : Command} {rows : List String} {waiting : Bool} (h : w.Sound)
    (hl : w.listed = true) (hw : w.waiting = false) (hc : c.isRequest = true → waiting = true) :
    World.Sound { w.deliver c rows with waiting } := by
  have hd := h.listed hl hw
  have hasked : w.asked = 0 := by
    have hasks := h.asks
    rw [hw] at hasks
    exact Nat.le_zero.mp hasks
  have hle : c.isRequest.toNat ≤ waiting.toNat := by
    cases hr : c.isRequest with
    | true => rw [hc hr]
    | false => exact Nat.zero_le _
  unfold World.deliver
  cases hs : w.session with
  | some s =>
    have hpush := asked_push (w := w) (c := c)
    rw [hasked, Nat.zero_add] at hpush
    refine ⟨h.made, h.making, fun a ha => ?_, hpush.trans hle, ?_, fun hd' => ?_⟩
    · have hr : (w.push c).reaches = w.reaches := by
        unfold World.push mapSession reaches
        rw [hs]
        rfl
      exact hr ▸ h.accounted a ha
    · rintro s' hs'
      obtain ⟨s'', hs'', rfl⟩ := Option.map_eq_some_iff.mp hs'
      exact h.drained s'' hs''
    · exact absurd (hd.symm.trans hd') Bool.false_ne_true
  | none =>
    refine ⟨h.made, h.making, fun a ha => ?_, ?_, ?_, fun hd' => ?_⟩
    · rcases List.mem_append.mp ha with ha | ha
      · refine .inr ((h.accounted a ha).resolve_left fun hr => ?_)
        rw [reaches, hs] at hr
        exact Bool.false_ne_true hr.2
      · left
        split at ha
        · obtain rfl := List.mem_singleton.mp ha
          exact ⟨rfl, rfl⟩
        · cases ha
        · cases ha
    · have hrepair : w.state.repair.toList.countP (·.isRequest) = 0 :=
        List.countP_eq_zero.mpr fun d hd' => by simp [repair_not_isRequest hd']
      show (c :: w.state.repair.toList).countP (·.isRequest) + 0 ≤ waiting.toNat
      rw [List.countP_cons, hrepair]
      cases hr : c.isRequest with
      | true => simp [hc hr]
      | false => simp
    · rintro s' hs' hstage
      cases hs'
      cases hstage
    · exact absurd (hd.symm.trans hd') Bool.false_ne_true

/-! ### The handlers of the session -/

/-- What a handler does besides changes nothing of the delete. -/
structure Keeps (w t : World) : Prop where
  stage : t.session.map (·.stage) = w.session.map (·.stage)
  deleted : t.deleted = w.deleted
  substrate : t.substrate = w.substrate
  runs : t.runs = w.runs
  inbox : t.inbox = w.inbox

theorem Keeps.trans {u : World} (h : w.Keeps t) (h' : t.Keeps u) : w.Keeps u :=
  ⟨h'.stage.trans h.stage, h'.deleted.trans h.deleted, h'.substrate.trans h.substrate,
    h'.runs.trans h.runs, h'.inbox.trans h.inbox⟩

theorem any_stage (p : Stage → Bool) :
    w.session.any (fun s => p s.stage) = (w.session.map (·.stage)).any p := by
  cases w.session <;> rfl

theorem Keeps.reaches (h : w.Keeps t) : t.reaches = w.reaches := by
  unfold World.reaches
  rw [any_stage, any_stage, h.stage]

theorem Keeps.tidy (h : w.Keeps t) (hw : w.Tidy) : t.Tidy where
  substrate o ho := by
    rw [h.substrate] at ho
    rw [passed, any_stage (·.passed o), h.stage, h.deleted, ← any_stage (·.passed o)]
    exact hw.substrate o ho
  runs hr := by
    rw [runsForgotten, any_stage (· = .forgettingInbox), h.stage, h.deleted,
      ← any_stage (· = .forgettingInbox)] at hr
    exact h.runs.trans (hw.runs hr)
  inbox hd := h.inbox.trans (hw.inbox (h.deleted.symm.trans hd))

theorem keeps_perform (act : Act) : w.Keeps (w.perform act) := by
  cases act with
  | index write =>
    refine ⟨?_, rfl, rfl, rfl, rfl⟩
    unfold perform mapSession
    cases w.session <;> rfl
  | emit | spawn | tell | retire => exact ⟨rfl, rfl, rfl, rfl, rfl⟩

theorem keeps_acts (acts : List Act) : w.Keeps (acts.foldl perform w) := by
  induction acts generalizing w with
  | nil => exact ⟨rfl, rfl, rfl, rfl, rfl⟩
  | cons act acts ih => exact (keeps_perform act).trans ih

theorem Sound.perform (h : w.Sound) (hr : w.reaches = true) (act : Act) :
    (w.perform act).Sound := by
  cases act with
  | emit event hevent =>
    exact ⟨fun o ho => SessionState.envOf_applyEvent_of_not_isLifecycle (h.made o ho) hevent,
      fun c hc => SessionState.envOf_applyEvent_of_not_isLifecycle (h.making c hc) hevent,
      h.accounted, h.asks, h.drained, h.gone⟩
  | spawn agent =>
    refine ⟨h.made, h.making, fun a ha => ?_, h.asks, h.drained, h.gone⟩
    rcases List.mem_append.mp ha with ha | ha
    · exact h.accounted a ha
    · obtain rfl := List.mem_singleton.mp ha
      exact .inl ⟨rfl, hr⟩
  | tell agent =>
    refine ⟨h.made, h.making, fun a ha => ?_, h.asks, h.drained, h.gone⟩
    obtain ⟨a, ha', rfl⟩ := List.mem_map.mp ha
    split_ifs
    · exact (h.accounted a ha').push
    · exact h.accounted a ha'
  | retire agent left =>
    refine ⟨h.made, h.making, fun a ha => ?_, h.asks, h.drained, h.gone⟩
    obtain ⟨a, ha', rfl⟩ := List.mem_map.mp ha
    split_ifs
    · exact .inr (h.accounted a ha').retire
    · exact h.accounted a ha'
  | index write =>
    have hkeeps := keeps_perform (w := w) (.index write)
    refine ⟨h.made, h.making, fun a ha => hkeeps.reaches ▸ h.accounted a ha, ?_, ?_, ?_⟩
    · have hasked : (w.perform (.index write)).asked = w.asked := by
        unfold World.perform mapSession asked
        cases w.session <;> rfl
      exact hasked.trans_le h.asks
    · intro s hs hstage
      obtain ⟨s, hs', rfl⟩ := Option.map_eq_some_iff.mp hs
      rw [reaches_of_session hs'] at hr
      rw [hstage] at hr
      cases hr
    · intro hd
      exact ⟨by rw [World.perform, mapSession, (h.gone hd).1]; rfl, (h.gone hd).2⟩

theorem Sound.acts (h : w.Sound) (hr : w.reaches = true) (acts : List Act) :
    (acts.foldl World.perform w).Sound := by
  induction acts generalizing w with
  | nil => exact h
  | cons act acts ih => exact ih (h.perform hr act) ((keeps_perform act).reaches.trans hr)

variable {c : Command} {rest : List Command} {indexing : List Write} {home : ℕ}

theorem Sound.take (h : w.Sound) (hs : w.session = some ⟨home, c :: rest, indexing, .serving⟩)
    (waiting : Bool) (hc : c.isRequest = true ∨ waiting = w.waiting) :
    World.Sound { w with session := some ⟨home, rest, indexing, .serving⟩, waiting } := by
  have hd := h.loaded hs
  have hasks : w.asked = (c :: rest).countP (·.isRequest) := by
    unfold asked
    rw [hs]
    rfl
  have hle := h.asks
  rw [hasks, List.countP_cons] at hle
  have hwaiting := Bool.toNat_le w.waiting
  refine ⟨h.made, h.making, fun a ha => ?_, ?_, ?_, fun hd' => ?_⟩
  · have hacc := h.accounted a ha
    rwa [reaches_of_session hs] at hacc
  · show rest.countP (·.isRequest) + 0 ≤ waiting.toNat
    rcases hc with hc | rfl
    · rw [if_pos hc] at hle
      omega
    · omega
  · rintro s hs' hstage
    cases hs'
    cases hstage
  · exact absurd (hd.symm.trans hd') Bool.false_ne_true

theorem Sound.serve {fresh : String} {atMs : ℕ} {acts : List Act} (h : w.Sound)
    (hs : w.session = some ⟨home, c :: rest, indexing, .serving⟩)
    (hfresh : w.state.runtimes.lookup fresh = none) :
    (World.serve { w with session := some ⟨home, rest, indexing, .serving⟩ }
      ⟨home, rest, indexing, .serving⟩ c fresh atMs acts).Sound := by
  cases c with
  | provision owner env =>
    have htake := h.take hs w.waiting (.inr rfl)
    unfold World.serve
    dsimp only
    split
    · exact htake
    · rename_i runtime vendor requested hp
      obtain ⟨hnew, hold⟩ := SessionState.envOf_started hp hfresh
      refine Sound.acts ?_ rfl acts
      refine ⟨fun o ho => hold _ _ (h.made o ho), fun d hd => ?_, htake.accounted, htake.asks,
        htake.drained, htake.gone⟩
      rcases List.mem_append.mp hd with hd | hd
      · exact hold _ _ (h.making d hd)
      · obtain rfl := List.mem_singleton.mp hd
        exact hnew
  | finishProvisioning runtime error =>
    have htake := h.take hs w.waiting (.inr rfl)
    show (acts.foldl World.perform _).Sound
    refine Sound.acts ?_ rfl acts
    refine ⟨fun o ho => ?_, fun d hd => ?_, htake.accounted, htake.asks, htake.drained,
      htake.gone⟩
    · cases error <;> exact SessionState.envOf_applyEvent (h.made o ho) (by simp)
    · cases error <;> exact SessionState.envOf_applyEvent (h.making d hd) (by simp)
  | other => exact (h.take hs w.waiting (.inr rfl)).acts rfl acts
  | prepareOffload =>
    have htake := h.take hs false (.inl rfl)
    unfold World.serve
    dsimp only
    split_ifs
    · exact htake
    · refine ⟨h.made, h.making, fun a ha => ?_, Nat.zero_le _, by simp, fun hd => ?_⟩
      · obtain ⟨a, ha', rfl⟩ := List.mem_map.mp ha
        exact .inr (h.accounted a ha').stop
      · exact absurd ((h.loaded hs).symm.trans hd) Bool.false_ne_true
  | delete =>
    have htake := h.take hs w.waiting (.inl rfl)
    refine ⟨h.made, h.making, fun a ha => ?_, ?_, ?_, fun hd => ?_⟩
    · obtain ⟨a, ha', rfl⟩ := List.mem_map.mp ha
      have hacc := htake.accounted a ha'
      split_ifs
      · exact hacc.push
      · exact hacc
    · have hasks := h.asks
      have hasked : w.asked = (Command.delete :: rest).countP (·.isRequest) := by
        unfold asked
        rw [hs]
        rfl
      rw [hasked, List.countP_cons] at hasks
      exact hasks
    · rintro s hs' hstage
      cases hs'
      cases hstage
    · exact absurd ((h.loaded hs).symm.trans hd) Bool.false_ne_true

/-! ### The handler of a delete -/

theorem enter_session (stage : Stage) (hs : w.session = some s) :
    (w.enter stage).session = some { s with stage } := by
  rw [enter, mapSession, hs]
  rfl

theorem asked_of_session (hs : w.session = some s) (hstage : s.stage ≠ .serving) :
    w.asked = s.mailbox.countP (·.isRequest) + 1 := by
  unfold asked
  rw [hs, Option.elim_some, if_neg hstage]

theorem Sound.stopped (h : w.Sound) (hr : w.reaches = false) :
    ∀ a ∈ w.agents, .shutdown ∈ a.mailbox := by
  intro a ha
  refine (h.accounted a ha).resolve_left fun hreached => ?_
  exact Bool.false_ne_true (hr.symm.trans hreached.2)

theorem Sound.enter {stage : Stage} (hs : w.session = some s) (hw : w.asked ≤ w.waiting.toNat)
    (hserving : s.stage ≠ .serving) (hstage : stage ≠ .serving) (hd : w.deleted = false)
    (made : ∀ o ∈ w.substrate, w.state.envOf o.runtime = some o.vendor)
    (making : ∀ c ∈ w.creates, w.state.envOf c.runtime = some c.vendor)
    (stopped : ∀ a ∈ w.agents, .shutdown ∈ a.mailbox)
    (drained : stage = .forgettingInbox → s.indexing = []) : (w.enter stage).Sound := by
  have hs' := enter_session stage hs
  refine ⟨made, making, fun a ha => .inr (stopped a ha), ?_, ?_, fun hd' => ?_⟩
  · rw [asked_of_session hs' hstage]
    rw [asked_of_session hs hserving] at hw
    exact hw
  · rintro s' hsome heq
    rw [hs'] at hsome
    cases hsome
    exact drained heq
  · exact absurd (hd.symm.trans hd') Bool.false_ne_true

theorem Sound.advance (h : w.Sound) (hs : w.session = some s) (ht : w.advance s = some t) :
    t.Sound := by
  have hd := h.loaded hs
  have hreaches := reaches_of_session hs
  unfold World.advance at ht
  split at ht
  · cases ht
  · rename_i hstage
    cases ht
    refine Sound.enter (s := s) hs h.asks (by simp [hstage]) (by simp) hd h.made h.making
      (fun a ha => ?_) (by simp)
    obtain ⟨a, ha', rfl⟩ := List.mem_map.mp ha
    exact (h.accounted a ha').stop
  · rename_i o left hstage
    cases ht
    rw [hstage] at hreaches
    exact Sound.enter (s := s) hs h.asks (by simp [hstage]) (by simp) hd
      (fun o ho => h.made o (List.mem_of_mem_filter ho)) h.making
      (h.stopped hreaches) (by simp)
  · rename_i hstage
    cases ht
    rw [hstage] at hreaches
    exact Sound.enter (s := s) hs h.asks (by simp [hstage]) (by simp) hd h.made h.making
      (h.stopped hreaches) (by simp)
  · rename_i hstage
    split_ifs at ht with hempty
    cases ht
    rw [hstage] at hreaches
    exact Sound.enter (s := s) hs h.asks (by simp [hstage]) (by simp) hd h.made h.making
      (h.stopped hreaches) (fun _ => List.isEmpty_iff.mp hempty)
  · rename_i hstage
    cases ht
    rw [hstage] at hreaches
    refine ⟨h.made, h.making, fun a ha => .inr (h.stopped hreaches a ha), Nat.zero_le _, by simp,
      fun _ => ⟨rfl, fun _ => ?_⟩⟩
    · have hasks := h.asks
      rw [asked_of_session hs (by simp [hstage])] at hasks
      show w.waiting = true
      cases hw : w.waiting with
      | true => rfl
      | false =>
        rw [hw] at hasks
        cases hasks

/-! ### Tasks -/

theorem Sound.report {c : Create} {error : Option (String × Bool)} (h : w.Sound) :
    (w.report c error).Sound := by
  unfold World.report
  split_ifs
  · exact h.push rfl
  · exact h

theorem Sound.create {task : ℕ} {c : Create} {error : Option (String × Bool)} (h : w.Sound)
    (hc : w.creates[task]? = some c) : (w.create task c error).Sound := by
  have hmem := List.mem_of_getElem? hc
  have hend : World.Sound { w with creates := w.creates.eraseIdx task } :=
    ⟨h.made, fun d hd => h.making d (List.mem_of_mem_eraseIdx hd), h.accounted, h.asks, h.drained,
      h.gone⟩
  unfold World.create
  split
  · refine ⟨fun o ho => ?_, fun d hd => ?_, h.accounted, h.asks, h.drained, h.gone⟩
    · rcases List.mem_append.mp ho with ho | ho
      · exact h.made o ho
      · obtain rfl := List.mem_singleton.mp ho
        exact h.making c hmem
    · rcases List.mem_or_eq_of_mem_set hd with hd | rfl
      · exact h.making d hd
      · exact h.making c hmem
  · exact hend.report
  · exact hend.report

theorem Sound.setAgent {i : ℕ} {a : Agent} (h : w.Sound) (ha : a.Accounted w.reaches) :
    World.Sound { w with agents := w.agents.set i a } := by
  refine ⟨h.made, h.making, fun b hb => ?_, h.asks, h.drained, h.gone⟩
  rcases List.mem_or_eq_of_mem_set hb with hb | rfl
  · exact h.accounted b hb
  · exact ha

theorem Sound.agent {i : ℕ} {id : String} {resident starts : Bool} {c : AgentCommand}
    {rest : List AgentCommand} (h : w.Sound)
    (ha : w.agents[i]? = some ⟨id, resident, c :: rest⟩) :
    (w.agent i ⟨id, resident, c :: rest⟩ c rest starts).Sound := by
  have hacc := h.accounted _ (List.mem_of_getElem? ha)
  have hrest : c ≠ .shutdown → Agent.Accounted w.reaches ⟨id, resident, rest⟩ := by
    intro hc
    exact hacc.imp_right fun hm => (List.mem_cons.mp hm).resolve_left hc.symm
  cases c with
  | shutdown =>
    exact ⟨h.made, h.making, fun b hb => h.accounted b (List.mem_of_mem_eraseIdx hb), h.asks,
      h.drained, h.gone⟩
  | message | cancel =>
    have hset := h.setAgent (i := i) (hrest (by simp))
    exact ⟨hset.made, hset.making, hset.accounted, hset.asks, hset.drained, hset.gone⟩

/-! ### Steps -/

variable {id : String} {mounts : String → Bool} {spec : SessionSpec} {l : Label}

theorem sound_init : (World.init id mounts spec).Sound :=
  ⟨by simp [World.init], by simp [World.init], by simp [World.init], Nat.zero_le _,
    by simp [World.init], by simp [World.init]⟩

theorem deliver_waiting {c : Command} {rows : List String} :
    { w.deliver c rows with waiting := w.waiting } = w.deliver c rows := by
  unfold World.deliver
  cases w.session <;> rfl

theorem sound_step (h : w.Sound) (ht : w.step? l = some t) : t.Sound := by
  cases l with
  | forward c rows =>
    simp only [step?] at ht
    split_ifs at ht with hc
    cases ht
    simp only [Bool.or_eq_true, Bool.not_eq_true', not_or, Bool.not_eq_true, Bool.not_eq_false]
      at hc
    rw [← deliver_waiting]
    exact h.deliver hc.2 hc.1.2 fun hr => absurd (hc.1.1.symm.trans hr) Bool.false_ne_true
  | request c rows =>
    simp only [step?] at ht
    split_ifs at ht with hc
    cases ht
    simp only [Bool.or_eq_true, Bool.not_eq_true', not_or, Bool.not_eq_true, Bool.not_eq_false]
      at hc
    exact h.deliver hc.1.2 hc.1.1.2 fun _ => rfl
  | acknowledge =>
    simp only [step?] at ht
    split_ifs at ht with hc
    cases ht
    have hnone := (h.gone (Bool.and_eq_true_iff.mp hc).1).1
    refine ⟨h.made, h.making, h.accounted, ?_, h.drained, fun _ => ⟨hnone, by simp⟩⟩
    show w.session.elim 0 _ ≤ _
    rw [hnone]
    exact Nat.zero_le _
  | send c =>
    simp only [step?] at ht
    split_ifs at ht with hc
    cases ht
    simp only [Bool.or_eq_true, not_or, Bool.not_eq_true] at hc
    exact h.push hc.1
  | serve fresh atMs acts =>
    simp only [step?] at ht
    split at ht
    · rename_i home c rest indexing hs
      split_ifs at ht with hfresh
      cases ht
      exact h.serve hs (by simpa using hfresh)
    · cases ht
  | advance =>
    obtain ⟨s, hs, ht⟩ := Option.bind_eq_some_iff.mp ht
    exact h.advance hs ht
  | index =>
    simp only [step?] at ht
    split at ht
    · rename_i home mailbox next rest stage hs
      cases ht
      have hreaches := reaches_of_session hs
      have hasks := h.asks
      unfold asked at hasks
      rw [hs] at hasks
      refine ⟨h.made, h.making, fun a ha => ?_, hasks, ?_, fun hd => ?_⟩
      · have hacc := h.accounted a ha
        rwa [hreaches] at hacc
      · rintro s' hs' hstage
        cases hs'
        exact absurd (h.drained _ hs hstage) (by simp)
      · exact absurd ((h.loaded hs).symm.trans hd) Bool.false_ne_true
    · cases ht
  | drift load =>
    simp only [step?] at ht
    split at ht
    · cases ht
      exact ⟨h.made, h.making, h.accounted, h.asks, h.drained, h.gone⟩
    · cases ht
  | create task error =>
    obtain ⟨c, hc, rfl⟩ := Option.map_eq_some_iff.mp ht
    exact h.create hc
  | agent i starts =>
    simp only [step?] at ht
    split at ht
    · rename_i id resident c rest ha
      cases ht
      exact h.agent ha
    · cases ht
  | tell run i =>
    simp only [step?] at ht
    split at ht
    · rename_i id a hrun ha
      split_ifs at ht
      cases ht
      exact h.setAgent (h.accounted a (List.mem_of_getElem? ha)).push
    · cases ht
  | notify run =>
    obtain ⟨id, -, rfl⟩ := Option.map_eq_some_iff.mp ht
    exact ⟨h.made, h.making, h.accounted, h.asks, h.drained, h.gone⟩
  | finish run =>
    simp only [step?] at ht
    split_ifs at ht
    cases ht
    exact ⟨h.made, h.making, h.accounted, h.asks, h.drained, h.gone⟩

theorem sound_of_reachable (h : (hosting id mounts spec).Reachable w) : w.Sound := by
  refine h.invariant (I := Sound) ?_ fun w l t _ hw hstep => sound_step hw hstep
  rintro w rfl
  exact sound_init

/-! ## What holds in a run where all comes in time -/

theorem Tidy.early (hd : w.deleted = false) (hs : ∀ s ∈ w.session, s.stage.reaches = true) :
    w.Tidy := by
  refine ⟨fun o _ => ?_, fun hr => ?_, fun hd' => ?_⟩
  · rw [passed, hd, Bool.false_or]
    cases hsession : w.session with
    | none => rfl
    | some s => exact Stage.passed_of_reaches (hs s hsession) o
  · rw [runsForgotten, hd, Bool.false_or, Option.any_eq_true] at hr
    obtain ⟨s, hsession, hstage⟩ := hr
    have hreaches := hs s hsession
    rw [of_decide_eq_true hstage] at hreaches
    cases hreaches
  · exact absurd (hd.symm.trans hd') Bool.false_ne_true

theorem keeps_push {c : Command} : w.Keeps (w.push c) := by
  refine ⟨?_, rfl, rfl, rfl, rfl⟩
  unfold push mapSession
  cases w.session <;> rfl

theorem keeps_report {c : Create} {error : Option (String × Bool)} :
    w.Keeps (w.report c error) := by
  unfold report
  split_ifs
  · exact keeps_push
  · exact ⟨rfl, rfl, rfl, rfl, rfl⟩

theorem Tidy.deliver (c : Command) (rows : List String) (h : w.Tidy) (hd : w.deleted = false) :
    (w.deliver c rows).Tidy := by
  unfold World.deliver
  cases hs : w.session with
  | some s => exact keeps_push.tidy h
  | none =>
    refine Tidy.early hd ?_
    rintro s hs'
    cases hs'
    rfl

theorem early_serve {c : Command} {fresh : String} {atMs : ℕ} {acts : List Act}
    (hs : w.session = some s) (hstage : s.stage = .serving) (hd : w.deleted = false) :
    (w.serve s c fresh atMs acts).Tidy := by
  have hw : w.Tidy := by
    refine Tidy.early hd fun s' hs' => ?_
    rw [hs] at hs'
    cases hs'
    rw [hstage]
    rfl
  cases c with
  | provision owner env =>
    unfold serve
    dsimp only
    split
    · exact hw
    · refine (keeps_acts acts).tidy ?_
      exact ⟨hw.substrate, hw.runs, hw.inbox⟩
  | finishProvisioning runtime error =>
    refine (keeps_acts acts).tidy ?_
    exact ⟨hw.substrate, hw.runs, hw.inbox⟩
  | other => exact (keeps_acts acts).tidy hw
  | prepareOffload =>
    unfold serve
    dsimp only
    split_ifs
    · exact ⟨hw.substrate, hw.runs, hw.inbox⟩
    · exact Tidy.early hd (by simp)
  | delete =>
    refine Tidy.early hd fun s' hs' => ?_
    obtain ⟨s'', -, rfl⟩ := Option.map_eq_some_iff.mp hs'
    rfl

theorem passed_of_session (hs : w.session = some s) (hd : w.deleted = false) (o : Object) :
    w.passed o = s.stage.passed o := by
  rw [passed, hd, hs]
  rfl

theorem Tidy.enter {stage : Stage} (hs : w.session = some s) (hd : w.deleted = false)
    (hsub : ∀ o ∈ w.substrate, stage.passed o = false)
    (hruns : stage = .forgettingInbox → w.runs = []) : (w.enter stage).Tidy := by
  have hs' := enter_session stage hs
  refine ⟨fun o ho => ?_, fun hr => ?_, fun hd' => ?_⟩
  · rw [passed_of_session hs' hd]
    exact hsub o ho
  · rw [runsForgotten, hs'] at hr
    have hdeleted : (w.enter stage).deleted = false := hd
    rw [hdeleted] at hr
    exact hruns (by simpa using hr)
  · exact absurd (hd.symm.trans hd') Bool.false_ne_true

theorem Tidy.advance (h : w.Tidy) (hw : w.Sound) (hs : w.session = some s)
    (ht : w.advance s = some t) : t.Tidy := by
  have hd := hw.loaded hs
  have hpassed := passed_of_session hs hd
  unfold World.advance at ht
  split at ht
  · cases ht
  · cases ht
    refine Tidy.enter (s := s) hs hd (fun o ho => ?_) (by simp)
    simp [Stage.passed, SessionState.mem_doomed (hw.made o ho)]
  · rename_i o left hstage
    cases ht
    refine Tidy.enter (s := s) hs hd (fun o' ho' => ?_) (by simp)
    obtain ⟨ho', hne⟩ := List.mem_filter.mp ho'
    have hleft := h.substrate o' ho'
    rw [hpassed, hstage] at hleft
    simp only [Stage.passed, Bool.not_eq_false', List.contains_iff_mem, List.mem_cons] at hleft ⊢
    exact hleft.resolve_left (by simpa using hne)
  · rename_i hstage
    cases ht
    refine Tidy.enter hs hd (fun o ho => ?_) (by simp)
    have hleft := h.substrate o ho
    rw [hpassed, hstage] at hleft
    exact absurd hleft (by simp [Stage.passed])
  · rename_i hstage
    split_ifs at ht
    cases ht
    refine Tidy.enter (s := s) hs hd (fun o ho => ?_) (fun _ => rfl)
    have hleft := h.substrate o ho
    rw [hpassed, hstage] at hleft
    exact hleft
  · rename_i hstage
    cases ht
    refine ⟨fun o ho => ?_, fun _ => h.runs ?_, fun _ => rfl⟩
    · have hleft := h.substrate o ho
      rw [hpassed, hstage] at hleft
      exact absurd hleft (by simp [Stage.passed])
    · rw [runsForgotten, hs]
      simp [hstage]

theorem Tidy.create {task : ℕ} {c : Create} {error : Option (String × Bool)} (h : w.Tidy)
    (hc : w.creates[task]? = some c) (hl : w.Timely (.create task error)) :
    (w.create task c error).Tidy := by
  have hend : World.Tidy { w with creates := w.creates.eraseIdx task } :=
    ⟨h.substrate, h.runs, h.inbox⟩
  unfold World.create
  split
  · rename_i kind calls hcalls
    refine ⟨fun o ho => ?_, h.runs, h.inbox⟩
    rcases List.mem_append.mp ho with ho | ho
    · exact h.substrate o ho
    · obtain rfl := List.mem_singleton.mp ho
      exact hl c hc kind (by rw [hcalls]; rfl)
  · exact keeps_report.tidy hend
  · exact keeps_report.tidy hend

theorem tidy_step (h : w.Tidy) (hw : w.Sound) (hl : w.Timely l) (ht : w.step? l = some t) :
    t.Tidy := by
  cases l with
  | forward c rows =>
    simp only [step?] at ht
    split_ifs at ht with hc
    cases ht
    simp only [Bool.or_eq_true, Bool.not_eq_true', not_or, Bool.not_eq_true, Bool.not_eq_false]
      at hc
    exact h.deliver c rows (hw.listed hc.2 hc.1.2)
  | request c rows =>
    simp only [step?] at ht
    split_ifs at ht with hc
    cases ht
    simp only [Bool.or_eq_true, Bool.not_eq_true', not_or, Bool.not_eq_true, Bool.not_eq_false]
      at hc
    have hd := h.deliver c rows (hw.listed hc.1.2 hc.1.1.2)
    exact ⟨hd.substrate, hd.runs, hd.inbox⟩
  | acknowledge =>
    simp only [step?] at ht
    split_ifs at ht
    cases ht
    exact ⟨h.substrate, h.runs, h.inbox⟩
  | send c =>
    simp only [step?] at ht
    split_ifs at ht
    cases ht
    exact keeps_push.tidy h
  | serve fresh atMs acts =>
    simp only [step?] at ht
    split at ht
    · rename_i home c rest indexing hs
      split_ifs at ht
      cases ht
      exact early_serve rfl rfl (hw.loaded hs)
    · cases ht
  | advance =>
    obtain ⟨s, hs, ht⟩ := Option.bind_eq_some_iff.mp ht
    exact h.advance hw hs ht
  | index =>
    simp only [step?] at ht
    split at ht
    · rename_i home mailbox next rest stage hs
      cases ht
      have hd := hw.loaded hs
      refine ⟨fun o ho => ?_, fun hr => ?_, fun hd' => ?_⟩
      · have hpassed := h.substrate o ho
        rw [passed, hs] at hpassed
        exact hpassed
      · -- the rows are forgotten only once the chain is through
        have hstage : stage = .forgettingInbox := by
          rw [runsForgotten] at hr
          simpa [write, hd] using hr
        exact absurd (hw.drained _ hs hstage) (by simp)
      · exact absurd (hd.symm.trans hd') Bool.false_ne_true
    · cases ht
  | drift load =>
    simp only [step?] at ht
    split at ht
    · rename_i next rest hload
      cases ht
      obtain ⟨hruns, hinbox⟩ := hl _ hload next rfl
      refine ⟨h.substrate, fun hr => ?_, fun hd => ?_⟩
      · show next.toRuns w.runs = []
        rw [h.runs hr]
        exact hruns hr
      · show next.toInbox w.inbox = []
        rw [h.inbox hd]
        exact hinbox hd
    · cases ht
  | create task error =>
    obtain ⟨c, hc, rfl⟩ := Option.map_eq_some_iff.mp ht
    exact h.create hc hl
  | agent i starts =>
    simp only [step?] at ht
    split at ht
    · rename_i id resident c rest ha
      cases ht
      cases c <;> exact ⟨h.substrate, h.runs, h.inbox⟩
    · cases ht
  | tell run i =>
    simp only [step?] at ht
    split at ht
    · split_ifs at ht
      cases ht
      exact ⟨h.substrate, h.runs, h.inbox⟩
    · cases ht
  | notify run =>
    obtain ⟨id, -, rfl⟩ := Option.map_eq_some_iff.mp ht
    exact ⟨h.substrate, h.runs, fun hd => absurd (hl.symm.trans hd) Bool.false_ne_true⟩
  | finish run =>
    simp only [step?] at ht
    split_ifs at ht
    cases ht
    exact ⟨h.substrate, h.runs, h.inbox⟩

/-! ## After the delete -/

/-- Nobody is left who could start a turn, and nobody who could have one spawned. -/
structure Over (w : World) : Prop where
  listed : w.listed = false
  session : w.session = none
  agents : w.agents = []

theorem Finished.gone (h : w.Finished) (hw : w.Sound) : w.Over where
  listed := h.acknowledged
  session := (hw.gone h.deleted).1
  agents := by
    refine List.eq_nil_iff_forall_not_mem.mpr fun a ha => ?_
    have hreaches : w.reaches = false := by
      rw [reaches, (hw.gone h.deleted).1]
      rfl
    have hshut := hw.stopped hreaches a ha
    rw [h.agents a ha] at hshut
    cases hshut

theorem Over.step (h : w.Over) (ht : w.step? l = some t) : t.Over ∧ ∀ i, l ≠ .agent i true := by
  have hpush : ∀ c, (w.push c).session = none := fun c => by
    rw [push, mapSession, h.session]
    rfl
  cases l with
  | forward | request | acknowledge => exact absurd ht (by simp [step?, h.listed])
  | send | serve | advance | index => exact absurd ht (by simp [step?, h.session])
  | agent | tell => exact absurd ht (by simp [step?, h.agents])
  | drift load =>
    simp only [step?] at ht
    split at ht
    · cases ht
      exact ⟨⟨h.listed, h.session, h.agents⟩, by simp⟩
    · cases ht
  | create task error =>
    obtain ⟨c, -, rfl⟩ := Option.map_eq_some_iff.mp ht
    refine ⟨?_, by simp⟩
    have hreport : ∀ e, { w with creates := w.creates.eraseIdx task }.report c e =
        { w with creates := w.creates.eraseIdx task } := fun e => by
      unfold report
      rw [h.session]
      rfl
    unfold create
    split
    · exact ⟨h.listed, h.session, h.agents⟩
    · rw [hreport]
      exact ⟨h.listed, h.session, h.agents⟩
    · rw [hreport]
      exact ⟨h.listed, h.session, h.agents⟩
  | notify run =>
    obtain ⟨id, -, rfl⟩ := Option.map_eq_some_iff.mp ht
    exact ⟨⟨h.listed, h.session, h.agents⟩, by simp⟩
  | finish run =>
    simp only [step?] at ht
    split_ifs at ht
    cases ht
    exact ⟨⟨h.listed, h.session, h.agents⟩, by simp⟩

theorem Over.exec {tr : List (World × Label × World)} (h : w.Over)
    (hexec : (hosting id mounts spec).Exec w tr t) : t.Over := by
  induction hexec with
  | nil => exact h
  | snoc _ hs ih => exact (ih.step hs).1

end World

/-- Once a delete is acknowledged and everything in flight has finished, no agent of the session
starts a turn in any run from there, and if everything came in time, no runtime of it is at its
vendor and no row names it. -/
theorem delete_final (id : String) (mounts : String → Bool) (spec : SessionSpec) {w : World}
    {tr : List (World × Label × World)}
    (h : (hosting id mounts spec).Exec (.init id mounts spec) tr w)
    (hl : ∀ x ∈ tr, x.1.Timely x.2.1) (hw : w.Finished) :
    w.substrate = [] ∧ w.runs = [] ∧ w.inbox = [] ∧
      ∀ tr' t, (hosting id mounts spec).Exec w tr' t → ∀ x ∈ tr', ∀ i, x.2.1 ≠ .agent i true := by
  have hinit : (hosting id mounts spec).Reachable (.init id mounts spec) := .init rfl
  have htidy : w.Tidy := by
    refine System.Exec.guarded (I := World.Tidy) (G := World.Timely) ?_ h hinit
      (World.Tidy.early rfl (by simp [World.init])) hl
    exact fun s l t hs hi hg ht => World.tidy_step hi (World.sound_of_reachable hs) hg ht
  have hover := hw.gone (World.sound_of_reachable (h.reachable hinit))
  refine ⟨?_, htidy.runs ?_, htidy.inbox hw.deleted, fun tr' t hexec x hx => ?_⟩
  · refine List.eq_nil_iff_forall_not_mem.mpr fun o ho => ?_
    have hpassed := htidy.substrate o ho
    rw [World.passed, hw.deleted, Bool.true_or] at hpassed
    exact Bool.false_ne_true hpassed.symm
  · rw [World.runsForgotten, hw.deleted, Bool.true_or]
  · obtain ⟨pre, hpre, -, hstep⟩ := hexec.before hx
    exact ((hover.exec hpre).step hstep).2

instance (w : World) : (l : Label) → Decidable (w.Timely l)
  | .create task none => inferInstanceAs <| Decidable
    (∀ c ∈ w.creates[task]?, ∀ kind ∈ c.calls.head?, w.passed (c.object kind) = false)
  | .drift load => inferInstanceAs <| Decidable
    (∀ writes ∈ w.adrift[load]?, ∀ next ∈ writes.head?,
      (w.runsForgotten = true → next.toRuns [] = []) ∧ (w.deleted = true → next.toInbox [] = []))
  | .notify _ => inferInstanceAs (Decidable (w.deleted = false))
  | .forward _ _ | .request _ _ | .acknowledge | .send _ | .serve _ _ _ | .advance | .index
  | .create _ (some _) | .agent _ _ | .tell _ _ | .finish _ => .isTrue trivial

def asking : List Label := [.forward (.provision "s" none) [], .serve "r" 1 [], .index, .index]

/-- A delete is handled to its end, with the main agent. -/
def deleting : List Label :=
  [.request .delete [], .serve "x" 3 [], .advance, .advance, .advance, .advance, .advance, .advance,
    .acknowledge, .agent 0 false, .agent 0 false, .agent 0 false]

/-- A session whose runtime is built before it is deleted is gone. -/
theorem delete_final_built : ∃ w, w.Finished ∧ w.state.envOf "r" = some "fly" ∧
    w.substrate = [] ∧ w.runs = [] ∧ w.inbox = [] ∧
    ∀ tr' t, (hosting "s" (fun _ => true) ⟨.agent, some "fly"⟩).Exec w tr' t →
      ∀ x ∈ tr', ∀ i, x.2.1 ≠ .agent i true := by
  let built : List Label := [.create 0 none, .create 0 none, .create 0 none,
    .serve "x" 2 [.index (.record ["main"]), .tell "s"], .index, .agent 0 true, .notify 0,
    .finish 0]
  let w := (System.steps? (System.guarded? World.Timely World.step?)
    (.init "s" (fun _ => true) ⟨.agent, some "fly"⟩) (asking ++ built ++ deleting)).get
    (by decide +kernel)
  have hw : w.Finished := ⟨by decide +kernel, by decide +kernel, by decide +kernel,
    by decide +kernel, by decide +kernel, by decide +kernel⟩
  obtain ⟨tr, h, -, hl⟩ := System.exec_guarded? (G := World.Timely)
    (World.init "s" (fun _ => true) ⟨.agent, some "fly"⟩) (t := w) (Option.some_get _).symm
  exact ⟨w, hw, by decide +kernel, delete_final "s" _ _ h hl hw⟩

/-- A create that calls its vendor after the delete leaves a machine nobody owns. -/
theorem created_after_delete : ∃ w,
    (hosting "s" (fun _ => false) ⟨.agent, some "fly"⟩).Reachable w ∧ w.Finished ∧
      w.substrate = [⟨"fly", "r", .machine⟩] := by
  let w := (System.steps? World.step? (.init "s" (fun _ => false) ⟨.agent, some "fly"⟩)
    (asking ++ deleting ++ [Label.create 0 none, .create 0 none])).get (by decide +kernel)
  obtain ⟨tr, h, -⟩ := System.exec_steps?
    (World.init "s" (fun _ => false) ⟨.agent, some "fly"⟩) (t := w)
    (Option.some_get _).symm
  refine ⟨w, h.reachable (.init rfl), ⟨?_, ?_, ?_, ?_, ?_, ?_⟩, ?_⟩
  all_goals decide +kernel

end Teardown

end Horsie.Session
