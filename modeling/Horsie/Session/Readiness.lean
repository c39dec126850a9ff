import Horsie.Session.Host

/-!
# Readiness is kept twice

Whether an agent may start a turn is decided by the state of its runtime, which the session folds,
and by a flag of the agent, which follows the records routed to it. The two agree
(`World.Agrees`) exactly as long as every batch is consistent (`World.Consistent`): provisioning
facts go to one agent whatever runtime they are about, so it must be a fact about the runtime this
agent runs on, and no other resident agent may run on a runtime whose readiness it changes.
-/

namespace Horsie.Session

open Lib
open Agent (LifecycleEvent runtimeReadiness)

/-! ## What a batch tells -/

/-- The readiness of the runtime a provisioning fact is about. -/
def SessionDomainEvent.provisioned : SessionDomainEvent → Option Bool
  | .provisioningStarted _ _ | .provisioningProgress _ _ | .provisioningFailed _ _ _ => some false
  | .provisioningSucceeded _ => some true
  | .specRecorded _ _ | .renamed _ | .runtimeRequested _ _ _ | .turnBegan _ | .askRecorded _
  | .turnEnded _ | .turnFailed _ _ | .turnStopped _ | .turnInterrupted _ | .sessionFailed _
  | .agentDeleted _ | .usageRecorded _ | .subAgentSpawned _ _ _ _ _ | .subAgentRunning _
  | .subAgentCompleted _ _ | .subAgentFailed _ _ | .subAgentNotified _ | .runCreated _ _ _
  | .stepStarted _ _ _ _ _ _ _ _ | .stepConcluded _ _ _ | .stepFailed _ _ _ | .stepCancelled _ _
  | .runFinished _ _ | .runFailed _ _ | .runNotified _ | .subSessionCreated _ _ _ _ _ _ _
  | .subSessionSeeded _ | .subSessionStatusChanged _ _ | .subSessionTurnEnded _ _ => none

def SessionDomainEvent.isSessionFailed : SessionDomainEvent → Bool
  | .sessionFailed _ => true
  | .specRecorded _ _ | .renamed _ | .runtimeRequested _ _ _ | .provisioningStarted _ _
  | .provisioningProgress _ _ | .provisioningSucceeded _ | .provisioningFailed _ _ _
  | .turnBegan _ | .askRecorded _ | .turnEnded _ | .turnFailed _ _ | .turnStopped _
  | .turnInterrupted _ | .agentDeleted _ | .usageRecorded _ | .subAgentSpawned _ _ _ _ _
  | .subAgentRunning _ | .subAgentCompleted _ _ | .subAgentFailed _ _ | .subAgentNotified _
  | .runCreated _ _ _ | .stepStarted _ _ _ _ _ _ _ _ | .stepConcluded _ _ _ | .stepFailed _ _ _
  | .stepCancelled _ _ | .runFinished _ _ | .runFailed _ _ | .runNotified _
  | .subSessionCreated _ _ _ _ _ _ _ | .subSessionSeeded _ | .subSessionStatusChanged _ _
  | .subSessionTurnEnded _ _ => false

namespace SessionState

/-- The agent of the session `main` that is told of provisioning. -/
def spokesman (s : SessionState) (main : String) : Option String :=
  s.sessionWide.map (·.agentId main)

/-- The agents of the session `main` that are told of its failure. -/
def Mourns (s : SessionState) (main agent : String) : Prop :=
  s.spokesman main = some agent ∨ (s.forest.sub agent).isSome ∨ (s.forest.subSession agent).isSome

instance (s : SessionState) (main agent : String) : Decidable (s.Mourns main agent) :=
  inferInstanceAs (Decidable (_ ∨ _ ∨ _))

def tells (s : SessionState) (main agent : String) (event : SessionDomainEvent) : Option Bool :=
  if event.isSessionFailed then
    if s.Mourns main agent then some false else none
  else if s.spokesman main = some agent then event.provisioned
  else none

/-- The readiness a batch tells an agent of last. -/
def told (s : SessionState) (main agent : String) (events : List SessionDomainEvent) :
    Option Bool := newest (s.tells main agent) events

end SessionState

namespace World

/-- Every resident agent, once it has handled what it was told, is ready exactly if its runtime
is. -/
def Agrees (w : World) : Prop := ∀ r ∈ w.residents, r.settled = w.state.ready r.id

/-- What a handler did is right for the agent `r`: if the batch tells it of a readiness, of that of
its own runtime; otherwise its runtime is as ready as it was before, or as the agent was when the
handler spawned it. -/
structure Suits (w u : World) (events : List SessionDomainEvent) (r : Resident) : Prop where
  told : ∀ b ∈ u.state.told u.id r.id events, u.state.ready r.id = b
  untold : u.state.told u.id r.id events = none → r ∈ w.residents →
    u.state.ready r.id = w.state.ready r.id
  spawned : u.state.told u.id r.id events = none → r ∉ w.residents → u.state.ready r.id = r.ready

/-- What the session does suits every agent that is then resident. -/
def Consistent (w : World) : Label → Prop
  | .handle acts => ∀ r ∈ (w.perform acts).residents, w.Suits (w.perform acts) (batch acts) r
  | .record _ | .seed _ _ | .unload => True

instance (w u : World) (events : List SessionDomainEvent) (r : Resident) :
    Decidable (w.Suits u events r) :=
  decidable_of_iff
    ((∀ b ∈ u.state.told u.id r.id events, u.state.ready r.id = b) ∧
      (u.state.told u.id r.id events = none → r ∈ w.residents →
        u.state.ready r.id = w.state.ready r.id) ∧
      (u.state.told u.id r.id events = none → r ∉ w.residents → u.state.ready r.id = r.ready))
    ⟨fun ⟨h1, h2, h3⟩ => ⟨h1, h2, h3⟩, fun ⟨h1, h2, h3⟩ => ⟨h1, h2, h3⟩⟩

instance (w : World) : ∀ l, Decidable (w.Consistent l)
  | .handle acts => inferInstanceAs (Decidable (∀ r ∈ (w.perform acts).residents,
      w.Suits (w.perform acts) (batch acts) r))
  | .record _ | .seed _ _ | .unload => .isTrue trivial

end World

/-! ## What is routed -/

section

variable {s : SessionState} {main agent : String}

theorem reaching_map (keys : List AgentKey) (event : LifecycleEvent) :
    reaching main agent (keys.map (·, event)) =
      (keys.filter (·.agentId main = agent)).map fun _ => event := by
  unfold reaching
  induction keys with
  | nil => rfl
  | cons key keys ih =>
    by_cases h : key.agentId main = agent <;> simp_all

variable {status : String}

theorem childEntry_silent {parent id title : String} :
    ∀ x ∈ s.childEntry parent id title status, runtimeReadiness x.2 = none := by
  intro x hx
  obtain ⟨key, -, rfl⟩ := List.mem_map.mp hx
  rfl

variable {run : String}

theorem stepEntry_silent {index : ℕ} :
    ∀ x ∈ s.stepEntry run index status, runtimeReadiness x.2 = none := by
  intro x hx
  unfold SessionState.stepEntry at hx
  split at hx
  · cases hx
  · obtain rfl := List.mem_singleton.mp hx
    rfl

theorem lastStepEntry_silent :
    ∀ x ∈ s.lastStepEntry run status, runtimeReadiness x.2 = none := by
  intro x hx
  unfold SessionState.lastStepEntry at hx
  split at hx
  · cases hx
  · split at hx
    · cases hx
    · exact stepEntry_silent x hx

theorem runReportEntry_silent :
    ∀ x ∈ s.runReportEntry run status, runtimeReadiness x.2 = none := by
  intro x hx
  unfold SessionState.runReportEntry at hx
  split at hx
  · exact childEntry_silent x hx
  · cases hx
  · cases hx

theorem terminalSubagent_silent {id : String} {error : Option String} :
    ∀ x ∈ s.terminalSubagent id error, runtimeReadiness x.2 = none := by
  intro x hx
  unfold SessionState.terminalSubagent at hx
  split at hx
  · cases hx
  · rcases List.mem_append.mp hx with hx | hx
    · obtain ⟨parent, -, hx⟩ := List.mem_flatMap.mp hx
      exact childEntry_silent x hx
    · obtain rfl := List.mem_singleton.mp hx
      rfl

theorem route_silent {event : SessionDomainEvent} (hp : event.provisioned = none)
    (hf : event.isSessionFailed = false) :
    ∀ x ∈ route event s, runtimeReadiness x.2 = none := by
  intro x hx
  cases event with
  | provisioningStarted | provisioningProgress | provisioningSucceeded | provisioningFailed =>
    cases hp
  | sessionFailed => cases hf
  | turnEnded | turnFailed | turnStopped | turnInterrupted | subSessionCreated =>
    obtain ⟨key, -, rfl⟩ := List.mem_map.mp hx
    rfl
  | stepStarted | subSessionTurnEnded =>
    obtain rfl := List.mem_singleton.mp hx
    rfl
  | subAgentSpawned | runCreated => exact childEntry_silent x hx
  | subAgentCompleted | subAgentFailed => exact terminalSubagent_silent x hx
  | stepConcluded | stepFailed | stepCancelled => exact stepEntry_silent x hx
  | runFinished | runFailed =>
    rcases List.mem_append.mp hx with hx | hx
    · exact lastStepEntry_silent x hx
    · exact runReportEntry_silent x hx
  | _ => cases hx

theorem said_routedTo_of_silent {event : SessionDomainEvent}
    (h : ∀ x ∈ route event s, runtimeReadiness x.2 = none) :
    said (routedTo main agent s event) = none := by
  apply newest_eq_none
  intro e he
  obtain ⟨x, hx, rfl⟩ := mem_reaching he
  exact h x hx

theorem said_onSession {record : LifecycleEvent} {b : Bool}
    (h : runtimeReadiness record = some b) :
    said (reaching main agent (s.onSession record)) =
      if s.spokesman main = some agent then some b else none := by
  rw [SessionState.onSession, reaching_map, SessionState.spokesman]
  cases s.sessionWide with
  | none => rfl
  | some key =>
    by_cases hk : key.agentId main = agent
    · simp [hk, said, h]
    · simp [hk, said]

/-- The failure of a session tells its spokesman, its subagents and its sub sessions. -/
theorem mem_everyKey : (∃ key ∈ s.everyKey, key.agentId main = agent) ↔ s.Mourns main agent := by
  simp only [SessionState.everyKey, SessionState.Mourns, SessionState.spokesman, List.mem_append,
    List.mem_map, or_and_right, exists_or, or_assoc, ← RunForest.mem_subIds,
    ← RunForest.mem_subSessionIds, Option.map_eq_some_iff, Option.mem_toList]
  refine or_congr_right (or_congr ?_ ?_)
  · constructor
    · rintro ⟨key, ⟨id, hid, rfl⟩, rfl⟩
      exact hid
    · exact fun h => ⟨_, ⟨agent, h, rfl⟩, rfl⟩
  · constructor
    · rintro ⟨key, ⟨id, hid, rfl⟩, rfl⟩
      exact hid
    · exact fun h => ⟨_, ⟨agent, h, rfl⟩, rfl⟩

theorem said_everyAgent {record : LifecycleEvent} {b : Bool}
    (h : runtimeReadiness record = some b) :
    said (reaching main agent (s.everyAgent record)) =
      if s.Mourns main agent then some b else none := by
  rw [SessionState.everyAgent, reaching_map]
  split_ifs with hm
  · obtain ⟨key, hkey, hid⟩ := mem_everyKey.mpr hm
    apply newest_eq_some
    · intro e he
      obtain ⟨-, -, rfl⟩ := List.mem_map.mp he
      exact h
    · refine List.ne_nil_of_mem (a := record) ?_
      exact List.mem_map.mpr ⟨key, List.mem_filter.mpr ⟨hkey, decide_eq_true hid⟩, rfl⟩
  · rw [List.filter_eq_nil_iff.mpr]
    · rfl
    · intro key hkey hid
      exact hm (mem_everyKey.mp ⟨key, hkey, of_decide_eq_true hid⟩)

theorem said_routedTo (event : SessionDomainEvent) :
    said (routedTo main agent s event) = s.tells main agent event := by
  cases event with
  | provisioningStarted | provisioningProgress | provisioningSucceeded | provisioningFailed =>
    exact said_onSession rfl
  | sessionFailed => exact said_everyAgent rfl
  | _ => exact (said_routedTo_of_silent (route_silent rfl rfl)).trans (ite_self _).symm

end

namespace World

theorem said_records (w : World) (events : List SessionDomainEvent) (agent : String) :
    said (w.records events agent) = w.state.told w.id agent events := by
  rw [records, said, newest_flatMap]
  exact newest_congr fun e _ => said_routedTo e

/-! ## What one step does -/

theorem mem_perform {w : World} {acts : List Act} {r : Resident}
    (h : r ∈ (w.perform acts).residents) : r ∈ w.residents ∨ r.mailbox = [] := by
  induction acts generalizing w with
  | nil => exact .inl h
  | cons act acts ih =>
    rcases ih h with h | h
    · cases act with
      | emit event => exact .inl h
      | spawn id via =>
        unfold World.act at h
        dsimp only at h
        split_ifs at h
        · exact .inl h
        · rcases List.mem_append.mp h with h | h
          · exact .inl h
          · obtain rfl := List.mem_singleton.mp h
            exact .inr rfl
      | retire id => exact .inl (List.mem_of_mem_filter h)
    · exact .inr h

end World

/-- An agent told of a readiness has it, once it has handled what it was told. -/
theorem Resident.settled_append (r : Resident) (records : List LifecycleEvent) :
    ({ r with mailbox := r.mailbox ++ records } : Resident).settled =
      (said records).getD r.settled := by
  unfold Resident.settled
  rw [said, newest_append]
  unfold said
  cases newest runtimeReadiness records <;> rfl

theorem Resident.settled_cons (id : String) (ready : Bool) (event : LifecycleEvent)
    (rest : List LifecycleEvent) :
    (Resident.mk id ((runtimeReadiness event).getD ready) rest).settled =
      (Resident.mk id ready (event :: rest)).settled := by
  unfold Resident.settled
  unfold said
  rw [newest_cons]
  cases newest runtimeReadiness rest with
  | some b => rfl
  | none => cases runtimeReadiness event <;> rfl

namespace World

/-- What the session does keeps the two in agreement exactly if it suits every agent. -/
theorem handle_agrees {w : World} (h : w.Agrees) (acts : List Act) :
    (w.handle acts).Agrees ↔ w.Consistent (.handle acts) := by
  unfold Agrees handle recordLifecycle Consistent
  rw [List.forall_mem_map]
  refine forall₂_congr fun r hr => ?_
  rw [Resident.settled_append, said_records]
  rcases htold : (w.perform acts).state.told (w.perform acts).id r.id (batch acts) with _ | b
  · by_cases hw : r ∈ w.residents
    · rw [Option.getD_none, h r hw]
      constructor
      · exact fun heq => ⟨by simp [htold], fun _ _ => heq.symm, fun _ hn => absurd hw hn⟩
      · exact fun hs => (hs.untold htold hw).symm
    · have hsettled : r.settled = r.ready := by
        rw [Resident.settled, (mem_perform hr).resolve_left hw]
        rfl
      rw [Option.getD_none, hsettled]
      constructor
      · exact fun heq => ⟨by simp [htold], fun _ hm => absurd hm hw, fun _ _ => heq.symm⟩
      · exact fun hs => (hs.spawned htold hw).symm
  · rw [Option.getD_some]
    constructor
    · exact fun heq => ⟨by simp [htold, ← heq], by simp [htold], by simp [htold]⟩
    · exact fun hs => (hs.told b htold).symm

theorem step_agrees {w t : World} {l : Label} (h : w.Agrees) (hs : w.step? l = some t) :
    t.Agrees ↔ w.Consistent l := by
  cases l with
  | handle acts =>
    cases hs
    exact handle_agrees h acts
  | record agent =>
    refine iff_of_true ?_ trivial
    simp only [step?] at hs
    split at hs
    · rename_i id ready event rest hr
      cases hs
      obtain ⟨hmem, hid⟩ := of_resident? hr
      intro r hr'
      obtain ⟨r', hr'', rfl⟩ := List.mem_map.mp hr'
      split_ifs
      · rw [Resident.settled_cons]
        exact hid ▸ h _ hmem
      · exact h r' hr''
    · cases hs
    · cases hs
  | seed agent cut =>
    refine iff_of_true ?_ trivial
    simp only [step?] at hs
    split at hs
    · split_ifs at hs
      cases hs
      exact h
    · cases hs
    · cases hs
  | unload =>
    cases hs
    exact iff_of_true (fun r hr => absurd hr List.not_mem_nil) trivial

end World

/-- A session is told what it is and its runtime `r` is built. -/
def provisioning (r : String) : List Label :=
  [.handle [.emit (.specRecorded "s" ⟨.agent, some "fly"⟩), .spawn "s" none],
    .handle [.emit (.runtimeRequested r "s" "fly"), .emit (.provisioningStarted 1 r)],
    .record "s", .handle [.emit (.provisioningSucceeded r)], .record "s"]

/-- A sub session asks for a runtime of its own, and the create begins. -/
def branching : List Label :=
  [.handle [.emit (.subSessionCreated "b" "s" 5 .fresh "go" "branch" .pending)], .record "s",
    .handle [.spawn "b" none],
    .handle [.emit (.runtimeRequested "q" "b" "fly"), .emit (.provisioningStarted 2 "q")],
    .record "s"]

end Horsie.Session
