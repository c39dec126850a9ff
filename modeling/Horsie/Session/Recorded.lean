import Horsie.Session.Boundary

/-!
# What a command journals

Handling a command journals what the command is about (`Recorded`), and then perhaps what a boundary
carries out. `handleCommand_journals` says so of every command; facts about a session that every
command keeps are proved by the cases of `Recorded`.
-/

namespace Horsie.Session

open Lib
open Agent (Value AgentOutcome)

/-! ## What is journaled before the boundary -/

namespace SessionDomainEvent

/-- Whether an event is about no run, and neither inserts nor removes entries. -/
def isQuiet (e : SessionDomainEvent) : Bool :=
  match e with
  | .askRecorded _ => false
  | e => !e.isStructural && e.onRun.isNone

/-- The child that was reported. -/
def notified? : SessionDomainEvent → Option String
  | .subAgentNotified child | .runNotified child => some child
  | _ => none

/-- Whether it is, besides, about no runtime, and records no report. -/
def isCalm (e : SessionDomainEvent) : Bool := e.isQuiet && (!e.isLifecycle && e.notified?.isNone)

variable {e : SessionDomainEvent}

theorem isQuiet_of_isCalm (h : e.isCalm = true) : e.isQuiet = true := (Bool.and_eq_true_iff.mp h).1

theorem not_isLifecycle_of_isCalm (h : e.isCalm = true) : e.isLifecycle = false :=
  (Bool.not_eq_true' _).mp (Bool.and_eq_true_iff.mp (Bool.and_eq_true_iff.mp h).2).1

theorem notified?_of_isCalm (h : e.isCalm = true) : e.notified? = none :=
  Option.isNone_iff_eq_none.mp (Bool.and_eq_true_iff.mp (Bool.and_eq_true_iff.mp h).2).2

theorem isQuiet_of_started {runtime owner vendor : String} {requested : Bool} {atMs : ℕ}
    (h : e ∈ SessionState.started runtime owner vendor requested atMs) : e.isQuiet = true := by
  unfold SessionState.started at h
  cases requested with
  | true =>
    rcases List.mem_append.mp h with h | h <;> obtain rfl := List.mem_singleton.mp h <;> rfl
  | false =>
    obtain rfl := List.mem_singleton.mp h
    rfl

/-- What the end of a create is journaled as. -/
def finishing (runtime : String) (error : Option String) (terminal : Bool) : SessionDomainEvent :=
  match error with
  | none => .provisioningSucceeded runtime
  | some error => .provisioningFailed runtime error terminal

theorem isQuiet_finishing (runtime : String) (error : Option String) (terminal : Bool) :
    (finishing runtime error terminal).isQuiet = true := by
  cases error <;> rfl

theorem not_structural_of_isQuiet (h : e.isQuiet = true) : e.isStructural = false := by
  cases e <;> first | rfl | exact absurd h Bool.false_ne_true

theorem onRun_of_isQuiet (h : e.isQuiet = true) : e.onRun = none := by
  cases e <;> first | rfl | exact absurd h Bool.false_ne_true

end SessionDomainEvent

def stepReport (run : String) (index : ℕ) (agent : String) : TurnEnd → List SessionDomainEvent
  | .concluded output => [.stepConcluded run index output]
  | .asked => [.askRecorded agent]
  | .failed error _ => [.stepFailed run index error]
  | .parked | .interrupted => []

def WorkflowRunState.reportAt (w : WorkflowRunState) (index : ℕ) : TurnEnd → WorkflowRunState
  | .concluded output => w.applyConcluded index output
  | .asked => w.applyAwaiting
  | .failed error _ => (w.applyStepFailed index error).applyFailed error
  | .parked | .interrupted => w

namespace SessionState

variable (s : SessionState) (env : Env)

/-- The end of a turn a command reports, and the agent whose turn it was. A hook that halts an agent
reports it as failed. -/
def reportOf : SessionCommand → Option (String × TurnEnd)
  | .agentOutcome agent outcome => (TurnEnd.split outcome).map (agent, ·)
  | .hooks (.halt key reason) =>
    if env.resident (key.agentId env.id) && s.isWorking key then
      some (key.agentId env.id, .failed reason false)
    else none
  | _ => none

def stopCuts : AgentKey → Option String
  | .sub id | .step id => some id
  | .main | .subSession _ => none

/-- Whether a command cancels everything below `agent`. -/
inductive Cancels : SessionCommand → String → Prop
  | stop {name agent : String} {key : AgentKey} {stopped : SessionDomainEvent}
      (hk : s.stopTarget name = some key) (hs : s.stopBoundary key = some stopped)
      (hcut : stopCuts key = some agent) : Cancels (.turn (.stop name)) agent
  | retry {index current : ℕ} {w : WorkflowRun} {step : StepRun}
      (hw : s.forest.rootWorkflow = some w) (hcur : w.run.current = some current)
      (hstep : w.run.steps[current]? = some step) : Cancels (.run (.retryStep index)) step.agent

def stopBelow (key : AgentKey) : List SessionDomainEvent :=
  match stopCuts key with
  | some id => (s.cancelDescendants id).events
  | none => []

def executionsOf (run : String) : ℕ := ((s.forest.workflow run).map (·.run.steps.length)).getD 0

def attemptsIn (run step : String) : ℕ :=
  ((s.forest.workflow run).map (·.run.attemptsOf step)).getD 0

/-- The execution `target` is started anew, behind the others, or its run fails. -/
inductive Restarted (run : String) (target : StepRun) : List SessionDomainEvent → Prop
  | started (h : (s.forest.workflow run).isSome) :
      Restarted run target [.stepStarted run (s.executionsOf run) target.step
        (WorkflowRunSpec.stepAgentId env.newV5 run (s.executionsOf run))
        (s.attemptsIn run target.step + 1) target.origin target.via target.input]
  | failed (error : String) : Restarted run target [.runFailed run error]

/-- What handling `c` journals before its boundary. -/
inductive Recorded (c : SessionCommand) : List SessionDomainEvent → Prop
  | calm {events : List SessionDomainEvent} (h : ∀ e ∈ events, e.isCalm = true) :
      Recorded c events
  | provisioned {owner runtime built : String} {vendor : Option String} {requested : Bool}
      (hc : c = .lifecycle (.provision owner vendor))
      (hp : s.provisions env.id owner vendor env.fresh = some (runtime, built, requested)) :
      Recorded c (started runtime owner built requested env.now)
  | finished {runtime : String} {error : Option String} {terminal : Bool}
      (hc : c = .lifecycle (.finishProvisioning runtime error terminal)) :
      Recorded c [SessionDomainEvent.finishing runtime error terminal]
  | specified (spec : SessionSpec) (name : Option String) (h : s.spec = none) :
      Recorded c (.specRecorded env.id spec :: (name.map .renamed).toList)
  | created (parent : String) (graph : WorkflowRunSpec)
      (h : (s.forest.depthOfAgent parent).isSome) :
      Recorded c [.runCreated env.fresh parent graph]
  | spawned (parent title task : String) (agentType : Option String)
      (h : (s.forest.depthOfAgent parent).isSome) :
      Recorded c [.subAgentSpawned env.fresh parent title task agentType]
  | branched (parent : String) (sourceSeq : ℕ) (seed : SeedMode) (message title : String)
      (choice : RequestedRuntime) (h : s.branchable env.id parent message = none)
      (hc : c = .subSession (.create parent seed message title choice)) :
      Recorded c [.subSessionCreated env.fresh parent sourceSeq seed message title
        (requestedChoice choice)]
  | deleted (id : String) (h : (s.forest.sub id).isSome ∨ (s.forest.subSession id).isSome)
      (hc : c = .core (.deleteAgent id)) :
      Recorded c [.agentDeleted id]
  | asked {agent : String} (h : s.agentKeyOf agent = some .main) : Recorded c [.askRecorded env.id]
  | reported {agent run : String} {turn : TurnEnd} {index : ℕ}
      (hr : s.reportOf env c = some (agent, turn))
      (hx : s.forest.executionOfAgent agent = some (run, index)) :
      Recorded c (stepReport run index agent turn)
  | stopped {agent : String} {key : AgentKey} {stopped : SessionDomainEvent}
      (hc : c = .turn (.stop agent)) (hk : s.stopTarget agent = some key)
      (hs : s.stopBoundary key = some stopped) : Recorded c (s.stopBelow key ++ [stopped])
  | reconciled (hc : c = .run .reconcileInterrupted) : Recorded c s.reconciledSteps
  | retried {index : ℕ} {run : String} {w : WorkflowRun} {target : StepRun}
      {started : List SessionDomainEvent}
      (hc : c = .run (.retryStep index)) (hroot : s.forest.root = some run)
      (hw : s.forest.rootWorkflow = some w) (ht : w.run.steps[index]? = some target)
      (hcur : w.run.current = none) (h : s.Restarted env run target started) :
      Recorded c started
  | superseded {index current : ℕ} {run : String} {w : WorkflowRun} {target step : StepRun}
      {started : List SessionDomainEvent}
      (hc : c = .run (.retryStep index)) (hroot : s.forest.root = some run)
      (hw : s.forest.rootWorkflow = some w) (ht : w.run.steps[index]? = some target)
      (hcur : w.run.current = some current) (hstep : w.run.steps[current]? = some step)
      (h : (s.applyAll ((s.cancelDescendants step.agent).events ++
        [.stepCancelled run current])).Restarted env run target started) :
      Recorded c ((s.cancelDescendants step.agent).events ++ [.stepCancelled run current] ++
        started)

/-- What handling `c` journals: what is recorded, and then perhaps a boundary. -/
def Journals (c : SessionCommand) (events : List SessionDomainEvent) : Prop :=
  ∃ recorded, s.Recorded env c recorded ∧
    (events = recorded ∨
      events = recorded ++ ((s.applyAll recorded).flushThenDrain env).events)

section

variable {s env} {c : SessionCommand} {events : List SessionDomainEvent}

theorem persistAndAdvance_events : (s.persistAndAdvance env events).events =
    events ++ ((s.applyAll events).flushThenDrain env).events := rfl

theorem Journals.recorded (h : s.Recorded env c events) : s.Journals env c events :=
  ⟨events, h, .inl rfl⟩

theorem Journals.calm (h : ∀ e ∈ events, e.isCalm = true) : s.Journals env c events :=
  .recorded (.calm h)

theorem Journals.nothing : s.Journals env c [] := .calm fun _ he => absurd he List.not_mem_nil

theorem Journals.one {e : SessionDomainEvent} (h : e.isCalm = true) : s.Journals env c [e] :=
  .calm fun _ he => List.mem_singleton.mp he ▸ h

theorem Journals.advanced (h : s.Recorded env c events) :
    s.Journals env c (s.persistAndAdvance env events).events :=
  ⟨events, h, .inr persistAndAdvance_events⟩

theorem Journals.advance_calm (h : ∀ e ∈ events, e.isCalm = true) :
    s.Journals env c (s.persistAndAdvance env events).events :=
  .advanced (.calm h)

theorem Journals.advance_one {e : SessionDomainEvent} (h : e.isCalm = true) :
    s.Journals env c (s.persistAndAdvance env [e]).events :=
  .advance_calm fun _ he => List.mem_singleton.mp he ▸ h

theorem Journals.flush : s.Journals env c (s.flushThenDrain env).events :=
  .advance_calm fun _ he => absurd he List.not_mem_nil

variable {agent : String} {turn : TurnEnd}

theorem onMainOutcome_journals
    (h : s.agentKeyOf agent = some .main) :
    s.Journals env c (s.onMainOutcome env turn).events := by
  cases turn with
  | concluded | parked => exact .advance_one rfl
  | asked => exact .advanced (.asked h)
  | interrupted =>
    unfold onMainOutcome
    split_ifs
    · exact .advance_one rfl
    · exact .nothing
  | failed error terminal => cases terminal <;> exact .advance_one rfl

variable {index : ℕ} {run : String}

theorem onStepOutcome_journals
    (hr : s.reportOf env c = some (agent, turn))
    (hx : s.forest.executionOfAgent agent = some (run, index)) :
    s.Journals env c (s.onStepOutcome env run index agent turn).events := by
  have h := Recorded.reported hr hx
  cases turn with
  | concluded | failed => exact .advanced h
  | asked => exact .recorded h
  | parked | interrupted => exact .nothing

theorem onSubSessionOutcome_journals {id : String} :
    s.Journals env c (s.onSubSessionOutcome env id turn).events := by
  cases turn with
  | concluded | asked | parked => exact .advance_one rfl
  | interrupted =>
    unfold onSubSessionOutcome
    split_ifs
    · exact .advance_one rfl
    · exact .nothing
  | failed error terminal => cases terminal <;> exact .advance_one rfl

theorem onSubAgentOutcome_journals {id : String} :
    s.Journals env c (s.onSubAgentOutcome env id turn).events := by
  unfold onSubAgentOutcome
  split_ifs
  · exact .nothing
  · cases turn with
    | concluded | failed | asked => exact .advance_one rfl
    | parked => exact .flush
    | interrupted => exact .nothing

theorem onTurnEnd_journals
    (hr : s.reportOf env c = some (agent, turn)) :
    s.Journals env c (s.onTurnEnd env agent turn).events := by
  unfold onTurnEnd
  split
  · exact onMainOutcome_journals (by assumption)
  · split
    · exact onStepOutcome_journals hr (by assumption)
    · exact .nothing
  · exact onSubSessionOutcome_journals
  · exact onSubAgentOutcome_journals
  · exact .nothing

theorem onAgentOutcome_journals {outcome : AgentOutcome}
    (hc : c = .agentOutcome agent outcome) :
    s.Journals env c (s.onAgentOutcome env agent outcome).events := by
  subst hc
  cases outcome with
  | usageRecorded => exact .one rfl
  | started =>
    show s.Journals env _ (s.onAgentStarted agent).events
    unfold onAgentStarted
    split
    · exact .one rfl
    · exact .one rfl
    · exact .one rfl
    all_goals exact .nothing
  | seedSummary => exact .nothing
  | concluded | asked | parked | interrupted | failed => exact onTurnEnd_journals rfl

theorem onStop_journals (hc : c = .turn (.stop agent)) :
    s.Journals env c (s.onStop env agent).events := by
  unfold onStop
  split
  · exact .nothing
  · rename_i key hk
    split
    · exact .nothing
    · rename_i stopped hs
      have hbelow : Recorded s env c (s.stopBelow key ++ [stopped]) := .stopped hc hk hs
      have hadv : s.Journals env c
          (s.persistAndAdvance env (s.stopBelow key ++ [stopped])).events := .advanced hbelow
      cases key <;> exact hadv

theorem getElem?_current {w : WorkflowRunState} {i : ℕ} (h : w.current = some i) :
    ∃ step, w.steps[i]? = some step ∧ step.status = .running := by
  obtain ⟨hlt, hp, -⟩ := List.findIdx?_eq_some_iff_getElem.mp h
  exact ⟨w.steps[i], List.getElem?_eq_getElem hlt, of_decide_eq_true hp⟩

theorem startStep_restarted {target : StepRun} {attempt : ℕ}
    (hindex : index = s.executionsOf run) (ha : attempt = s.attemptsIn run target.step + 1) :
    s.Restarted env run target (s.startStep env ⟨run, index, target.step,
      WorkflowRunSpec.stepAgentId env.newV5 run index, attempt, target.origin, target.via,
      target.input⟩).events := by
  subst hindex ha
  rcases @startStep_events s env ⟨run, s.executionsOf run, target.step,
    WorkflowRunSpec.stepAgentId env.newV5 run (s.executionsOf run),
    s.attemptsIn run target.step + 1, target.origin, target.via, target.input⟩ with
    ⟨hrun, h⟩ | ⟨error, h⟩
  · rw [h]
    exact .started hrun
  · rw [h]
    exact .failed error

theorem retried_place {step : String} : (match s.forest.workflow run with
    | some w => (w.run.steps.length, w.run.attemptsOf step + 1)
    | none => (0, 1)) = (s.executionsOf run, s.attemptsIn run step + 1) := by
  unfold executionsOf attemptsIn
  cases s.forest.workflow run <;> rfl

theorem onRetryStep_journals (hc : c = .run (.retryStep index)) :
    s.Journals env c (s.onRetryStep env index).events := by
  unfold onRetryStep
  split
  · rename_i run w hroot hw
    split
    · exact .nothing
    · rename_i target ht
      cases hcur : w.run.current with
      | none =>
        refine .recorded (.retried hc hroot hw ht hcur ?_)
        exact startStep_restarted (congrArg Prod.fst (retried_place (s := s)))
          (congrArg Prod.snd (retried_place (s := s)))
      | some current =>
        obtain ⟨step, hstep, -⟩ := getElem?_current hcur
        simp only [hstep]
        refine .recorded (.superseded hc hroot hw ht hcur hstep ?_)
        exact startStep_restarted (congrArg Prod.fst retried_place)
          (congrArg Prod.snd retried_place)
  all_goals exact .nothing

theorem handleTurn_journals {turn : TurnCommand} (hc : c = .turn turn) :
    s.Journals env c (s.handleTurn env turn).events := by
  cases turn with
  | stop agent => exact onStop_journals hc
  | answer agent answers =>
    show s.Journals env c (s.onAnswer env agent answers).events
    unfold onAnswer
    split <;> exact .nothing
  | userMessage agent text artifacts =>
    show s.Journals env c (s.onUserMessage env agent text artifacts).events
    unfold onUserMessage
    split
    · exact .nothing
    split_ifs
    · exact .nothing
    split
    · exact .nothing
    split
    · exact .nothing
    refine .advance_calm ?_
    intro e he
    unfold titleFrom at he
    split_ifs at he
    · cases he
    · obtain ⟨name, -, rfl⟩ := Option.map_eq_some_iff.mp (Option.mem_toList.mp he)
      rfl

theorem handleRun_journals {run : RunCommand} (hc : c = .run run) :
    s.Journals env c (s.handleRun env run).events := by
  cases run with
  | create parent graph =>
    unfold handleRun
    dsimp only
    split
    · exact .nothing
    rename_i depth hdepth
    split_ifs
    · exact .nothing
    · exact .nothing
    · exact .recorded (.created parent graph (hdepth ▸ rfl))
  | finishCreate id persisted =>
    cases persisted with
    | true => exact .flush
    | false => exact .nothing
  | advance => exact .flush
  | retryStep index => exact onRetryStep_journals hc
  | reconcileInterrupted => exact .recorded (.reconciled hc)

theorem handleSubAgent_journals {sub : SubAgentCommand} :
    s.Journals env c (s.handleSubAgent env sub).events := by
  cases sub with
  | spawn caller title task agentType =>
    unfold handleSubAgent
    dsimp only
    split
    · exact .nothing
    rename_i depth cap hdepth
    split_ifs
    · exact .nothing
    split
    · exact .nothing
    split_ifs
    · exact .nothing
    · exact .recorded (.spawned caller title task agentType (hdepth ▸ rfl))
  | finishSpawn id task agentType persisted =>
    unfold handleSubAgent
    dsimp only
    split_ifs <;> exact .nothing
  | reconcile =>
    refine .calm ?_
    intro e he
    obtain ⟨id, -, rfl⟩ := List.mem_map.mp he
    rfl

theorem handleLifecycle_journals {lifecycle : LifecycleCommand} (hc : c = .lifecycle lifecycle) :
    s.Journals env c (s.handleLifecycle env lifecycle).events := by
  cases lifecycle with
  | provision owner vendor =>
    unfold handleLifecycle
    dsimp only
    split
    · exact .nothing
    · exact .recorded (.provisioned hc (by assumption))
  | narrateProvisioning runtime detail =>
    unfold handleLifecycle
    dsimp only
    split_ifs
    · exact .one rfl
    · exact .nothing
  | finishProvisioning runtime error terminal =>
    have h : s.Recorded env c [.finishing runtime error terminal] := .finished hc
    cases error <;> exact .advanced h
  | prepareOffload =>
    unfold handleLifecycle
    dsimp only
    split_ifs <;> exact .nothing
  | delete => exact .nothing

theorem handleSubSession_journals {sub : SubSessionCommand} (hc : c = .subSession sub) :
    s.Journals env c (s.handleSubSession env sub).events := by
  cases sub with
  | create parent seed message title choice =>
    unfold handleSubSession
    dsimp only
    split
    · exact .nothing
    · exact .nothing
    · rename_i sourceSeq hbranch hhead
      exact .recorded (.branched _ _ _ _ _ _ hbranch hc)
  | finishCreate id choice persisted =>
    unfold handleSubSession
    dsimp only
    split_ifs <;> exact .nothing
  | summarised | reseedInterrupted => exact .nothing
  | seeded id =>
    unfold handleSubSession
    dsimp only
    split_ifs
    · exact .nothing
    · exact .advance_one rfl
  | seedFailed id error =>
    unfold handleSubSession
    dsimp only
    split_ifs
    · exact .nothing
    · exact .one rfl

theorem handleHooks_journals {hook : HookCommand} (hc : c = .hooks hook) :
    s.Journals env c (s.handleHooks env hook).events := by
  cases hook with
  | ran | continueAfterStop => exact .nothing
  | halt key reason =>
    unfold handleHooks
    dsimp only
    split_ifs with h
    · refine onTurnEnd_journals ?_
      subst hc
      exact if_pos h
    · exact .nothing

theorem handleCore_journals {core : CoreCommand} (hc : c = .core core) :
    s.Journals env c (s.handleCore env core).events := by
  cases core with
  | deleteAgent id =>
    unfold handleCore
    dsimp only
    split_ifs with h
    · exact .recorded (.deleted id (by rwa [Bool.or_eq_true] at h) hc)
    · exact .nothing
    · exact .nothing
  | setTitle title =>
    unfold handleCore
    dsimp only
    split
    · split_ifs
      · exact .one rfl
      · exact .nothing
    · exact .nothing
  | titleSet => exact .one rfl
  | create spec name message =>
    unfold handleCore
    cases hs : s.spec with
    | none => exact .recorded (.specified spec name hs)
    | some => exact .nothing
  | progress => exact .nothing

theorem refuseUntilTold_journals {told : SessionCommand} :
    s.Journals env c (refuseUntilTold told).events := by
  cases told with
  | turn turn => cases turn <;> exact .nothing
  | lifecycle | run | subAgent | subSession | hooks | core | read | agentOutcome => exact .nothing

theorem handle_journals : s.Journals env c (s.handle env c).events := by
  cases c with
  | lifecycle => exact handleLifecycle_journals rfl
  | turn => exact handleTurn_journals rfl
  | run => exact handleRun_journals rfl
  | subAgent => exact handleSubAgent_journals
  | subSession => exact handleSubSession_journals rfl
  | hooks => exact handleHooks_journals rfl
  | core => exact handleCore_journals rfl
  | read => exact .nothing
  | agentOutcome => exact onAgentOutcome_journals rfl

theorem handleCommand_journals : s.Journals env c (s.handleCommand env c).events := by
  unfold handleCommand
  split
  · exact handleCore_journals rfl
  · exact refuseUntilTold_journals
  · exact handle_journals

end

end SessionState

end Horsie.Session
