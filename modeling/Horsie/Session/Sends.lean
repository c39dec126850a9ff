import Horsie.Session.Runs

/-!
# What is sent with what is journaled

Three of the things a handler sends have their counterpart in what it journals: a create, the input
of an execution, and the report of a child. Whatever is handled, the creates it begins are those it
records begun, the inputs it hands over are those of the executions it records, and the children it
reports are those it records to be reported (`matched_handleCommand`).
-/

namespace Horsie.Session

open Lib

/-! ## What begins -/

/-- Whether an id is that of the first message of an execution. -/
def isStepId (id : String) : Bool := "step:".toList.isPrefixOf id.toList

def itemInput? : Agent.Incoming → Option String
  | .user id text _ => if isStepId id then some text else none
  | .subAgent _ _ | .timer _ _ | .continue_ _ _ | .compact _ _ | .subSession _ _ => none

/-- The input of an execution, if this is what an agent is told. Such a message is queued without
asking for an acknowledgement. -/
def commandInput? : Agent.AgentCommand → Option String
  | .queue (.enqueue item false) => itemInput? item
  | _ => none

/-- The runtime a create builds, and the incarnation it gives it. -/
def Sent.create? : Sent → Option (String × ℕ)
  | .create runtime _ incarnation => some (runtime, incarnation)
  | _ => none

/-- The agent an execution starts on, and its input. -/
def Sent.stepInput? : Sent → Option (String × String)
  | .tell agent cmd => (commandInput? cmd).map (agent, ·)
  | _ => none

/-- The child that is reported to an agent. -/
def Sent.delivered? : Sent → Option String
  | .tell _ (.queue (.enqueue (.subAgent child _) _)) => some child
  | _ => none

namespace SessionDomainEvent

def create? : SessionDomainEvent → Option (String × ℕ)
  | .provisioningStarted atMs runtime => some (runtime, atMs)
  | _ => none

/-- The agent of the execution that was started, and its input. -/
def stepInput? : SessionDomainEvent → Option (String × String)
  | .stepStarted _ _ _ agent _ _ _ input => some (agent, input)
  | _ => none

end SessionDomainEvent

namespace Effect

def creates (e : Effect) : List (String × ℕ) := e.sent.filterMap Sent.create?

def inputs (e : Effect) : List (String × String) := e.sent.filterMap Sent.stepInput?

def reports (e : Effect) : List String := e.sent.filterMap Sent.delivered?

/-- What is begun and reported is what is recorded to be. -/
structure Matched (e : Effect) : Prop where
  creates : e.creates = e.events.filterMap SessionDomainEvent.create?
  inputs : e.inputs = e.events.filterMap SessionDomainEvent.stepInput?
  reports : e.reports = e.events.filterMap SessionDomainEvent.notified?

theorem Matched.andThen {e f : Effect} (he : e.Matched) (hf : f.Matched) :
    (e.andThen f).Matched where
  creates := by
    show (e.sent ++ f.sent).filterMap _ = (e.events ++ f.events).filterMap _
    rw [List.filterMap_append, List.filterMap_append]
    exact congrArg₂ _ he.creates hf.creates
  inputs := by
    show (e.sent ++ f.sent).filterMap _ = (e.events ++ f.events).filterMap _
    rw [List.filterMap_append, List.filterMap_append]
    exact congrArg₂ _ he.inputs hf.inputs
  reports := by
    show (e.sent ++ f.sent).filterMap _ = (e.events ++ f.events).filterMap _
    rw [List.filterMap_append, List.filterMap_append]
    exact congrArg₂ _ he.reports hf.reports

def beginsNothing (x : Sent) : Prop :=
  x.create? = none ∧ x.stepInput? = none ∧ x.delivered? = none

/-- Whether something journaled is neither a beginning nor a report. -/
def recordsNothing (x : SessionDomainEvent) : Prop :=
  x.create? = none ∧ x.stepInput? = none ∧ x.notified? = none

theorem Matched.of_nothing {e : Effect} (hs : ∀ x ∈ e.sent, beginsNothing x)
    (he : ∀ x ∈ e.events, recordsNothing x) : e.Matched where
  creates := by
    unfold Effect.creates
    rw [List.filterMap_eq_nil_iff.mpr fun x hx => (hs x hx).1,
      List.filterMap_eq_nil_iff.mpr fun x hx => (he x hx).1]
  inputs := by
    unfold Effect.inputs
    rw [List.filterMap_eq_nil_iff.mpr fun x hx => (hs x hx).2.1,
      List.filterMap_eq_nil_iff.mpr fun x hx => (he x hx).2.1]
  reports := by
    unfold Effect.reports
    rw [List.filterMap_eq_nil_iff.mpr fun x hx => (hs x hx).2.2,
      List.filterMap_eq_nil_iff.mpr fun x hx => (he x hx).2.2]

theorem Matched.send {sent : List Sent} (hs : ∀ x ∈ sent, beginsNothing x) :
    (send sent).Matched := .of_nothing hs fun _ hx => absurd hx List.not_mem_nil

theorem Matched.persist {events : List SessionDomainEvent}
    (he : ∀ x ∈ events, recordsNothing x) : (persist events).Matched :=
  .of_nothing (fun _ hx => absurd hx List.not_mem_nil) he

theorem Matched.of_eq {e f : Effect} (h : e.Matched) (hs : f.sent = e.sent)
    (he : f.events = e.events) : f.Matched := by
  obtain ⟨hcreates, hinputs, hreports⟩ := h
  unfold Effect.creates Effect.inputs Effect.reports at *
  constructor
  · unfold Effect.creates
    rw [hs, he]
    exact hcreates
  · unfold Effect.inputs
    rw [hs, he]
    exact hinputs
  · unfold Effect.reports
    rw [hs, he]
    exact hreports

end Effect

open Effect

theorem isStepId_stepMessageId (index attempt : ℕ) :
    isStepId (SessionState.stepMessageId index attempt) = true := by
  unfold isStepId SessionState.stepMessageId
  rw [List.isPrefixOf_iff_prefix, String.append_assoc, String.append_assoc, String.toList_append]
  exact List.prefix_append _ _

theorem isStepId_task (id : String) : isStepId ("task:" ++ id) = false := by
  unfold isStepId
  rw [String.toList_append]
  rfl

/-! ## Every handler -/

namespace SessionState

variable {s : SessionState} {env : Env}

theorem stepInput?_start (st : StepStart) : Sent.stepInput? (.tell st.agent
    (.queue (.enqueue (.user (stepMessageId st.index st.attempt) st.input []) false))) =
      some (st.agent, st.input) := by
  show (if isStepId _ then some st.input else none).map _ = _
  rw [if_pos (isStepId_stepMessageId ..)]
  rfl

theorem matched_perform (a : AgentAction) : (s.perform env a).Matched := by
  cases a with
  | deliver d =>
    show (s.deliver env d).Matched
    unfold deliver
    dsimp only
    split_ifs
    · split <;> exact ⟨rfl, rfl, rfl⟩
    · exact ⟨rfl, rfl, rfl⟩
  | startStep st =>
    show (s.startStep env st).Matched
    unfold startStep
    split
    · split_ifs
      · refine ⟨rfl, ?_, rfl⟩
        show List.filterMap Sent.stepInput? [_, _] = [(st.agent, st.input)]
        rw [List.filterMap_cons_none rfl, List.filterMap_cons_some (stepInput?_start st)]
        rfl
      · exact ⟨rfl, rfl, rfl⟩
    · exact ⟨rfl, rfl, rfl⟩
    · exact ⟨rfl, rfl, rfl⟩
  | finish | fail => exact ⟨rfl, rfl, rfl⟩

theorem matched_performAll (as : List AgentAction) : (performAll env s as).Matched := by
  induction as generalizing s with
  | nil => exact ⟨rfl, rfl, rfl⟩
  | cons a as ih => exact (matched_perform a).andThen ih

theorem matched_flushThenDrain : (s.flushThenDrain env).Matched := by
  have hrounds : ∀ rounds (s : SessionState), (flushRounds env rounds s).Matched := by
    intro rounds
    induction rounds with
    | zero => exact fun _ => ⟨rfl, rfl, rfl⟩
    | succ rounds ih =>
      intro s
      unfold flushRounds
      dsimp only
      split_ifs
      · exact matched_performAll _
      · exact (matched_performAll _).andThen (ih _)
  exact hrounds 8 s

theorem matched_persistAndAdvance {events : List SessionDomainEvent}
    (he : ∀ x ∈ events, recordsNothing x) : (s.persistAndAdvance env events).Matched :=
  (Matched.persist he).andThen matched_flushThenDrain

theorem matched_advance {event : SessionDomainEvent} (he : recordsNothing event) :
    (s.persistAndAdvance env [event]).Matched :=
  matched_persistAndAdvance fun _ hx => List.mem_singleton.mp hx ▸ he

theorem matched_cancelDescendants (agent : String) : (s.cancelDescendants agent).Matched := by
  have hentry : ∀ id, (cancelDescendants.cancelEntry s id).Matched := by
    intro id
    unfold cancelDescendants.cancelEntry
    split
    · split_ifs <;> exact ⟨rfl, rfl, rfl⟩
    · split_ifs
      · exact ⟨rfl, rfl, rfl⟩
      · rename_i w _ _
        refine .of_nothing (fun x hx => ?_) fun x hx => ?_
        · obtain ⟨agent, -, rfl⟩ := List.mem_map.mp hx
          exact ⟨rfl, rfl, rfl⟩
        · rcases List.mem_append.mp hx with hx | hx
          · obtain ⟨index, -, rfl⟩ := List.mem_map.mp hx
            exact ⟨rfl, rfl, rfl⟩
          · obtain rfl := List.mem_singleton.mp hx
            exact ⟨rfl, rfl, rfl⟩
    all_goals exact ⟨rfl, rfl, rfl⟩
  have hfold : ∀ (ids : List String) (e : Effect), e.Matched →
      (ids.foldl (fun e id => e.andThen (cancelDescendants.cancelEntry s id)) e).Matched := by
    intro ids
    induction ids with
    | nil => exact fun _ he => he
    | cons id ids ih => exact fun e he => ih _ (he.andThen (hentry id))
  exact hfold _ _ ⟨rfl, rfl, rfl⟩

theorem matched_onTurnEnd (agent : String) (turn : TurnEnd) :
    (s.onTurnEnd env agent turn).Matched := by
  unfold onTurnEnd
  split
  · cases turn with
    | interrupted =>
      unfold onMainOutcome
      split_ifs
      · exact matched_advance ⟨rfl, rfl, rfl⟩
      · exact ⟨rfl, rfl, rfl⟩
    | failed error terminal =>
      refine matched_advance ?_
      cases terminal <;> exact ⟨rfl, rfl, rfl⟩
    | concluded | asked | parked => exact matched_advance ⟨rfl, rfl, rfl⟩
  · split
    · cases turn with
      | concluded | failed => exact matched_advance ⟨rfl, rfl, rfl⟩
      | asked | parked | interrupted => exact ⟨rfl, rfl, rfl⟩
    · exact ⟨rfl, rfl, rfl⟩
  · cases turn with
    | interrupted =>
      unfold onSubSessionOutcome
      split_ifs
      · exact matched_advance ⟨rfl, rfl, rfl⟩
      · exact ⟨rfl, rfl, rfl⟩
    | failed error terminal =>
      refine matched_advance ?_
      cases terminal <;> exact ⟨rfl, rfl, rfl⟩
    | concluded | asked | parked => exact matched_advance ⟨rfl, rfl, rfl⟩
  · unfold onSubAgentOutcome
    split_ifs
    · exact ⟨rfl, rfl, rfl⟩
    · cases turn with
      | concluded | asked | failed => exact matched_advance ⟨rfl, rfl, rfl⟩
      | parked => exact matched_persistAndAdvance fun _ hx => absurd hx List.not_mem_nil
      | interrupted => exact ⟨rfl, rfl, rfl⟩
  · exact ⟨rfl, rfl, rfl⟩

theorem matched_onAgentStarted (agent : String) : (s.onAgentStarted agent).Matched := by
  unfold onAgentStarted
  split <;> exact ⟨rfl, rfl, rfl⟩

theorem matched_onStop (agent : String) : (s.onStop env agent).Matched := by
  unfold onStop
  split
  · exact ⟨rfl, rfl, rfl⟩
  · split
    · exact ⟨rfl, rfl, rfl⟩
    · rename_i key _ _ stopped hstopped
      have hnothing : recordsNothing stopped := by
        have hcut := stopBoundary_cut (by assumption : s.stopBoundary key = some stopped)
        cases stopped <;> first | exact ⟨rfl, rfl, rfl⟩ | exact absurd hcut Bool.false_ne_true
      have hbelow : ∀ below : Effect, below.Matched →
          ({ s.persistAndAdvance env (below.events ++ [stopped]) with
            sent := [.cancel (key.agentId env.id)] ++ below.sent ++
              (s.persistAndAdvance env (below.events ++ [stopped])).sent
            reply := some .done } : Effect).Matched := by
        intro below hb
        have hcancel : (Effect.send [.cancel (key.agentId env.id)]).Matched := ⟨rfl, rfl, rfl⟩
        have hflush := @matched_flushThenDrain (s.applyAll (below.events ++ [stopped])) env
        have hstop : (Effect.persist [stopped]).Matched :=
          .persist fun x hx => List.mem_singleton.mp hx ▸ hnothing
        have hall := ((hcancel.andThen hb).andThen hstop).andThen hflush
        refine hall.of_eq ?_ rfl
        simp [Effect.andThen, Effect.send, Effect.persist, persistAndAdvance]
      cases key with
      | sub id | step id => exact hbelow _ (matched_cancelDescendants id)
      | main | subSession => exact hbelow {} ⟨rfl, rfl, rfl⟩

theorem matched_onRetryStep (index : ℕ) : (s.onRetryStep env index).Matched := by
  unfold onRetryStep
  split
  · split
    · exact ⟨rfl, rfl, rfl⟩
    · dsimp only
      refine (Matched.andThen ?_ (matched_perform (.startStep _))).of_eq rfl rfl
      split
      · exact ⟨rfl, rfl, rfl⟩
      · refine Matched.andThen ?_ ⟨rfl, rfl, rfl⟩
        split
        · exact Matched.andThen ⟨rfl, rfl, rfl⟩ (matched_cancelDescendants _)
        · exact ⟨rfl, rfl, rfl⟩
  · exact ⟨rfl, rfl, rfl⟩
  · exact ⟨rfl, rfl, rfl⟩

theorem seedWith_nothing (id : String) (seed : Seed) :
    ∀ x ∈ s.seedWith env id seed, beginsNothing x := by
  intro x hx
  unfold seedWith at hx
  split at hx
  · split_ifs at hx
    · simp only [List.mem_cons, List.not_mem_nil, or_false] at hx
      rcases hx with rfl | rfl <;> exact ⟨rfl, rfl, rfl⟩
    · cases hx
  · cases hx
  · cases hx

theorem startSeeding_nothing (id : String) : ∀ x ∈ s.startSeeding env id, beginsNothing x := by
  intro x hx
  unfold startSeeding at hx
  split at hx
  · split at hx
    · exact seedWith_nothing _ _ x hx
    · exact seedWith_nothing _ _ x hx
    · split_ifs at hx
      · simp only [List.mem_cons, List.not_mem_nil, or_false] at hx
        rcases hx with rfl | rfl <;> exact ⟨rfl, rfl, rfl⟩
      · cases hx
  · cases hx
  · cases hx

theorem matched_handleSubSession (c : SubSessionCommand) :
    (s.handleSubSession env c).Matched := by
  cases c with
  | create =>
    unfold handleSubSession
    dsimp only
    split <;> exact ⟨rfl, rfl, rfl⟩
  | finishCreate id choice persisted =>
    unfold handleSubSession
    dsimp only
    split_ifs
    · exact ⟨rfl, rfl, rfl⟩
    · exact ⟨rfl, rfl, rfl⟩
    · refine .of_nothing (fun x hx => ?_) fun x hx => absurd hx List.not_mem_nil
      rcases List.mem_append.mp hx with hx | hx
      · rcases List.mem_append.mp hx with hx | hx
        · exact List.mem_singleton.mp hx ▸ ⟨rfl, rfl, rfl⟩
        · cases choice with
          | own => exact List.mem_singleton.mp hx ▸ ⟨rfl, rfl, rfl⟩
          | without | inherit => cases hx
      · exact startSeeding_nothing id x hx
  | summarised subSessions result =>
    refine .send fun x hx => ?_
    obtain ⟨id, -, hx⟩ := List.mem_flatMap.mp hx
    cases result with
    | ok summary => exact seedWith_nothing _ _ x hx
    | error => exact List.mem_singleton.mp hx ▸ ⟨rfl, rfl, rfl⟩
  | seeded id =>
    unfold handleSubSession
    dsimp only
    split_ifs
    · exact ⟨rfl, rfl, rfl⟩
    · exact matched_advance ⟨rfl, rfl, rfl⟩
  | seedFailed id =>
    unfold handleSubSession
    dsimp only
    split_ifs <;> exact ⟨rfl, rfl, rfl⟩
  | reseedInterrupted =>
    refine .send fun x hx => ?_
    obtain ⟨id, -, hx⟩ := List.mem_flatMap.mp hx
    rcases List.mem_cons.mp hx with rfl | hx
    · exact ⟨rfl, rfl, rfl⟩
    · exact startSeeding_nothing id x hx

theorem titleFrom_nothing (text : String) : ∀ x ∈ s.titleFrom env text, recordsNothing x := by
  intro x hx
  unfold titleFrom at hx
  split_ifs at hx
  · cases hx
  · obtain ⟨title, -, rfl⟩ := Option.map_eq_some_iff.mp (Option.mem_toList.mp hx)
    exact ⟨rfl, rfl, rfl⟩

theorem matched_onUserMessage (agent : Option String) (text : String)
    (artifacts : List Agent.ArtifactRef) :
    (s.onUserMessage env agent text artifacts).Matched := by
  unfold onUserMessage
  split
  · exact ⟨rfl, rfl, rfl⟩
  · split_ifs
    · exact ⟨rfl, rfl, rfl⟩
    · split
      · exact ⟨rfl, rfl, rfl⟩
      · dsimp only
        split
        · exact ⟨rfl, rfl, rfl⟩
        · refine Matched.andThen (.send fun x hx => ?_)
            (matched_persistAndAdvance (titleFrom_nothing text))
          rcases List.mem_append.mp hx with hx | hx
          · simp only [List.mem_cons, List.not_mem_nil, or_false] at hx
            rcases hx with rfl | rfl
            · exact ⟨rfl, rfl, rfl⟩
            · refine ⟨rfl, rfl, ?_⟩
              unfold queuedMessage
              split_ifs <;> rfl
          · split at hx
            · exact List.mem_singleton.mp hx ▸ ⟨rfl, rfl, rfl⟩
            all_goals exact absurd hx List.not_mem_nil

theorem matched_handleTurn (c : TurnCommand) : (s.handleTurn env c).Matched := by
  cases c with
  | userMessage agent text artifacts => exact matched_onUserMessage ..
  | stop agent => exact matched_onStop agent
  | answer agent answers =>
    show (s.onAnswer env agent answers).Matched
    unfold onAnswer
    split <;> exact ⟨rfl, rfl, rfl⟩

theorem matched_handleRun (c : RunCommand) : (s.handleRun env c).Matched := by
  cases c with
  | create parent graph =>
    unfold handleRun
    dsimp only
    split
    · exact ⟨rfl, rfl, rfl⟩
    · split_ifs <;> exact ⟨rfl, rfl, rfl⟩
  | finishCreate id persisted =>
    unfold handleRun
    dsimp only
    split_ifs
    · exact matched_flushThenDrain.of_eq rfl rfl
    · exact ⟨rfl, rfl, rfl⟩
  | advance => exact matched_flushThenDrain
  | retryStep index => exact matched_onRetryStep index
  | reconcileInterrupted =>
    refine .persist fun x hx => ?_
    obtain ⟨y, -, rfl⟩ := List.mem_map.mp hx
    exact ⟨rfl, rfl, rfl⟩

theorem matched_handleSubAgent (c : SubAgentCommand) : (s.handleSubAgent env c).Matched := by
  cases c with
  | spawn =>
    unfold handleSubAgent
    dsimp only
    split
    · exact ⟨rfl, rfl, rfl⟩
    · split_ifs
      · exact ⟨rfl, rfl, rfl⟩
      · split
        · exact ⟨rfl, rfl, rfl⟩
        · split_ifs <;> exact ⟨rfl, rfl, rfl⟩
  | finishSpawn id task =>
    unfold handleSubAgent
    dsimp only
    split_ifs
    · exact ⟨rfl, rfl, rfl⟩
    · exact ⟨rfl, rfl, rfl⟩
    · refine .of_nothing (fun x hx => ?_) fun x hx => absurd hx List.not_mem_nil
      simp only [List.mem_cons, List.not_mem_nil, or_false] at hx
      rcases hx with rfl | rfl
      · exact ⟨rfl, rfl, rfl⟩
      · refine ⟨rfl, ?_, rfl⟩
        show (if isStepId _ then some task else none).map _ = none
        rw [isStepId_task]
        rfl
  | reconcile =>
    refine .persist fun x hx => ?_
    obtain ⟨y, -, rfl⟩ := List.mem_map.mp hx
    exact ⟨rfl, rfl, rfl⟩

theorem matched_handleLifecycle (c : LifecycleCommand) : (s.handleLifecycle env c).Matched := by
  cases c with
  | provision owner vendor =>
    unfold handleLifecycle
    dsimp only
    split
    · exact ⟨rfl, rfl, rfl⟩
    · rename_i runtime built requested _
      cases requested <;> exact ⟨rfl, rfl, rfl⟩
  | narrateProvisioning =>
    unfold handleLifecycle
    dsimp only
    split_ifs <;> exact ⟨rfl, rfl, rfl⟩
  | finishProvisioning runtime error terminal =>
    refine matched_advance ?_
    cases error <;> exact ⟨rfl, rfl, rfl⟩
  | prepareOffload =>
    unfold handleLifecycle
    dsimp only
    split_ifs <;> exact ⟨rfl, rfl, rfl⟩
  | delete => exact ⟨rfl, rfl, rfl⟩

theorem matched_handleHooks (c : HookCommand) : (s.handleHooks env c).Matched := by
  cases c with
  | ran | continueAfterStop => exact ⟨rfl, rfl, rfl⟩
  | halt key reason =>
    unfold handleHooks
    dsimp only
    split_ifs
    · exact Matched.andThen ⟨rfl, rfl, rfl⟩ (matched_onTurnEnd ..)
    · exact ⟨rfl, rfl, rfl⟩

theorem adopt_nothing : ∀ x ∈ s.adopt env, beginsNothing x := by
  intro x hx
  unfold adopt at hx
  rcases List.mem_append.mp hx with hx | hx
  · split_ifs at hx
    · cases hx
    · exact List.mem_singleton.mp hx ▸ ⟨rfl, rfl, rfl⟩
  · obtain ⟨c, -, rfl⟩ := List.mem_map.mp hx
    exact ⟨rfl, rfl, rfl⟩

theorem matched_handleCore (c : CoreCommand) : (s.handleCore env c).Matched := by
  cases c with
  | deleteAgent id =>
    unfold handleCore
    dsimp only
    split_ifs
    · refine .of_nothing (fun x hx => ?_) fun x hx => List.mem_singleton.mp hx ▸ ⟨rfl, rfl, rfl⟩
      rcases List.mem_append.mp hx with hx | hx
      · obtain ⟨agent, -, rfl⟩ := List.mem_map.mp hx
        exact ⟨rfl, rfl, rfl⟩
      · exact List.mem_singleton.mp hx ▸ ⟨rfl, rfl, rfl⟩
    all_goals exact ⟨rfl, rfl, rfl⟩
  | setTitle title =>
    unfold handleCore
    dsimp only
    split
    · split_ifs <;> exact ⟨rfl, rfl, rfl⟩
    · exact ⟨rfl, rfl, rfl⟩
  | titleSet | progress => exact ⟨rfl, rfl, rfl⟩
  | create spec name message =>
    have hmessage : ∀ {f : String × List Agent.ArtifactRef → Sent}, (∀ m, beginsNothing (f m)) →
        ∀ x ∈ (message.map f).toList, beginsNothing x := by
      intro f hf x hx
      obtain ⟨m, -, rfl⟩ := Option.map_eq_some_iff.mp (Option.mem_toList.mp hx)
      exact hf m
    unfold handleCore
    dsimp only
    split_ifs
    · refine .of_nothing (fun x hx => ?_) fun x hx => ?_
      · rcases List.mem_append.mp hx with hx | hx
        · rcases List.mem_append.mp hx with hx | hx
          · exact List.mem_singleton.mp hx ▸ ⟨rfl, rfl, rfl⟩
          · exact hmessage (fun _ => ⟨rfl, rfl, rfl⟩) x hx
        · exact adopt_nothing x hx
      · rcases List.mem_cons.mp hx with rfl | hx
        · exact ⟨rfl, rfl, rfl⟩
        · obtain ⟨title, -, rfl⟩ := Option.map_eq_some_iff.mp (Option.mem_toList.mp hx)
          exact ⟨rfl, rfl, rfl⟩
    · exact .send (hmessage fun _ => ⟨rfl, rfl, rfl⟩)

theorem matched_handleCommand {c : SessionCommand} : (s.handleCommand env c).Matched := by
  cases hspec : s.spec with
  | none =>
    unfold handleCommand
    rw [hspec]
    split
    · exact matched_handleCore _
    · unfold refuseUntilTold
      split <;> exact ⟨rfl, rfl, rfl⟩
    · contradiction
  | some spec =>
    rw [handleCommand_of_told (hspec ▸ rfl)]
    cases c with
    | lifecycle c => exact matched_handleLifecycle c
    | turn c => exact matched_handleTurn c
    | run c => exact matched_handleRun c
    | subAgent c => exact matched_handleSubAgent c
    | subSession c => exact matched_handleSubSession c
    | hooks c => exact matched_handleHooks c
    | core c => exact matched_handleCore c
    | read => exact ⟨rfl, rfl, rfl⟩
    | agentOutcome agent outcome =>
      show (s.onAgentOutcome env agent outcome).Matched
      cases outcome with
      | usageRecorded => exact ⟨rfl, rfl, rfl⟩
      | started => exact matched_onAgentStarted agent
      | seedSummary subSessions result =>
        exact matched_handleSubSession (.summarised subSessions result)
      | concluded | asked | parked | interrupted | failed => exact matched_onTurnEnd ..

end SessionState

end Horsie.Session
