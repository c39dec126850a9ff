import Horsie.Session.State

/-!
# Which session event reaches which agent's log

The session decides, journals and folds its events; `route` says which logs each of them belongs
in, and as what. A fact about the session as a whole belongs in the log a person reads, which is the
main agent's, or that of the step in flight of a workflow session.
-/

namespace Horsie.Session

open Agent (LifecycleEvent RuntimeStatus TurnOutcome runtimeReadiness)

inductive AgentKey
  | main
  | sub (id : String)
  | step (id : String)
  | subSession (id : String)
deriving DecidableEq

/-- The id an agent is registered under, in the session `main`. -/
def AgentKey.agentId (main : String) : AgentKey → String
  | .main => main
  | .sub id | .step id | .subSession id => id

namespace SessionState

/-- Whose log a fact about the whole session belongs in. -/
def sessionWide (s : SessionState) : Option AgentKey :=
  if s.forest.rootIsWorkflow then s.forest.currentRootStepAgent.map .step else some .main

def onSession (s : SessionState) (event : LifecycleEvent) : List (AgentKey × LifecycleEvent) :=
  s.sessionWide.toList.map (·, event)

def everyKey (s : SessionState) : List AgentKey :=
  s.sessionWide.toList ++ s.forest.subIds.map .sub ++ s.forest.subSessionIds.map .subSession

def everyAgent (s : SessionState) (event : LifecycleEvent) : List (AgentKey × LifecycleEvent) :=
  s.everyKey.map (·, event)

/-- Whose log the news of a child belongs in: the agent it runs under, if the forest knows it. -/
def parentKey (s : SessionState) (parent : String) : Option AgentKey :=
  (s.forest.ownerOfAgent parent).map fun (_, entry) =>
    match entry.state with
    | .main _ => .main
    | .sub _ => .sub parent
    | .workflow _ => .step parent
    | .subSession _ => .subSession parent

/-- News of the child `id` on the agent `parent`. -/
def childEntry (s : SessionState) (parent id title status : String) :
    List (AgentKey × LifecycleEvent) :=
  (s.parentKey parent).toList.map (·, .subAgent id title status)

/-- A finished subagent, on its parent and on itself. -/
def terminalSubagent (s : SessionState) (id : String) (error : Option String) :
    List (AgentKey × LifecycleEvent) :=
  match s.forest.sub id with
  | none => []
  | some record =>
    let outcome := match error with
      | some error => TurnOutcome.failed error
      | none => .ended
    let status := if error.isSome then "failed" else "completed"
    let parent := (s.forest.ownerOfAgent id).bind (·.2.parent)
    parent.toList.flatMap (s.childEntry · id record.title status) ++
      [(.sub id, .turnEnded outcome)]

def stepEntry (s : SessionState) (run : String) (index : ℕ) (status : String) :
    List (AgentKey × LifecycleEvent) :=
  match (s.forest.workflow run).bind (·.run.steps[index]?) with
  | none => []
  | some step => [(.step step.agent, .step index step.step status)]

def lastStepEntry (s : SessionState) (run status : String) : List (AgentKey × LifecycleEvent) :=
  match s.forest.workflow run with
  | none => []
  | some w =>
    match w.run.steps.length with
    | 0 => []
    | last + 1 => s.stepEntry run last status

def runReportEntry (s : SessionState) (run status : String) : List (AgentKey × LifecycleEvent) :=
  match s.forest.entry run with
  | some ⟨some parent, .workflow w⟩ => s.childEntry parent run ("workflow " ++ w.workflow) status
  | some ⟨_, _⟩ | none => []

end SessionState

/-- Every log this event belongs in, and what it becomes in each. The state is the one after the
event. -/
def route (event : SessionDomainEvent) (s : SessionState) : List (AgentKey × LifecycleEvent) :=
  match event with
  | .provisioningStarted _ _ => s.onSession (.runtime .acquiring none)
  | .provisioningProgress _ detail => s.onSession (.runtime .acquiring (some detail))
  | .provisioningSucceeded _ => s.onSession (.runtime .ready none)
  | .provisioningFailed _ error _ => s.onSession (.runtime .failed (some error))
  | .turnEnded _ => s.onSession (.turnEnded .ended)
  | .turnFailed _ error => s.onSession (.turnEnded (.failed error))
  | .turnStopped _ => s.onSession (.turnEnded .stopped)
  | .turnInterrupted _ => s.onSession (.turnEnded .interrupted)
  | .sessionFailed reason => s.everyAgent (.sessionFailed reason)
  | .subAgentSpawned id parent title _ _ => s.childEntry parent id title "running"
  | .subAgentCompleted id _ => s.terminalSubagent id none
  | .subAgentFailed id error => s.terminalSubagent id (some error)
  | .stepStarted _ index step agent _ _ _ _ => [(.step agent, .step index step "started")]
  | .stepConcluded run index _ => s.stepEntry run index "concluded"
  | .stepFailed run index _ => s.stepEntry run index "failed"
  | .stepCancelled run index => s.stepEntry run index "cancelled"
  | .runFinished run _ => s.lastStepEntry run "run_finished" ++ s.runReportEntry run "completed"
  | .runFailed run _ => s.lastStepEntry run "run_failed" ++ s.runReportEntry run "failed"
  | .runCreated id parent graph => s.childEntry parent id ("workflow " ++ graph.workflow) "running"
  | .subSessionCreated id parent _ seed _ title _ =>
    (s.parentKey parent).toList.map (·, .subSession id (some title) seed.asStr)
  | .subSessionTurnEnded id outcome => [(.subSession id, .turnEnded outcome)]
  -- Asking for a runtime reaches no log, what a reader waits on is the create it starts. The rest
  -- is the session's own bookkeeping, or in the agent's log already.
  | .runtimeRequested _ _ _ | .specRecorded _ _ | .renamed _ | .usageRecorded _
  | .subAgentRunning _ | .subAgentNotified _ | .runNotified _ | .subSessionSeeded _
  | .subSessionStatusChanged _ _ | .agentDeleted _ | .turnBegan _ | .askRecorded _ => []

/-- What of these entries belongs in the log of the agent `agent` of the session `main`. -/
def reaching (main agent : String) (entries : List (AgentKey × LifecycleEvent)) :
    List LifecycleEvent :=
  entries.filterMap fun (key, record) => if key.agentId main = agent then some record else none

theorem reaching_append {main agent : String} (xs ys : List (AgentKey × LifecycleEvent)) :
    reaching main agent (xs ++ ys) = reaching main agent xs ++ reaching main agent ys :=
  List.filterMap_append

theorem mem_reaching {main agent : String} {entries : List (AgentKey × LifecycleEvent)}
    {record : LifecycleEvent} (h : record ∈ reaching main agent entries) :
    ∃ x ∈ entries, x.2 = record := by
  obtain ⟨x, hx, h⟩ := List.mem_filterMap.mp h
  obtain ⟨-, h⟩ := Option.ite_none_right_eq_some.mp h
  exact ⟨x, hx, Option.some.inj h⟩

/-- What `route` puts in the log of an agent. -/
def routedTo (main agent : String) (s : SessionState) (event : SessionDomainEvent) :
    List LifecycleEvent := reaching main agent (route event s)

end Horsie.Session
