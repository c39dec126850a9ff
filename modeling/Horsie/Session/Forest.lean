import Horsie.Agent.Message
import Horsie.Lib.Map

/-!
# The run forest

Every unit of work a session hosts: its own agent or workflow run, subagents, invoked workflow
runs, sub sessions. An entry names the agent it runs under, which is the whole nesting model: where
an agent runs is resolved by walking these links up to the nearest entry that chose a runtime.

Entries are keyed by the id of their agent (the main agent's is the session's), workflow runs by an
id of their own.
-/

namespace Horsie.Session

open Lib
open Agent (Value)

/-! ## Workflow runs -/

inductive OutcomeFilter
  | isIn (values : List String)
  | notIn (values : List String)
deriving DecidableEq

/-- A directed edge out of a step, without a filter one for every outcome. -/
structure TransitionSpec where
  target : String
  filter : Option OutcomeFilter
deriving DecidableEq

structure WorkflowStepSpec where
  name : String
  prompt : String
  transitions : List TransitionSpec
deriving DecidableEq

structure WorkflowRunSpec where
  workflow : String
  start : String
  steps : List WorkflowStepSpec
  input : String
  maxSteps : ℕ
deriving DecidableEq

inductive WorkflowRunStatus
  | pending
  | running
  | suspended
  | awaitingInput
  | finished
  | failed
deriving DecidableEq

def WorkflowRunStatus.isTerminal : WorkflowRunStatus → Bool
  | .finished | .failed => true
  | .pending | .running | .suspended | .awaitingInput => false

inductive StepStatus
  | running
  | concluded
  | failed
  | cancelled
deriving DecidableEq

structure StepRun where
  step : String
  agent : String
  attempt : ℕ
  origin : Option ℕ
  via : Option String
  status : StepStatus
  input : String
  output : Option Value
  error : Option String
deriving DecidableEq

structure WorkflowRunState where
  status : WorkflowRunStatus
  steps : List StepRun
  output : Option Value
  error : Option String
deriving DecidableEq

namespace WorkflowRunState

def default : WorkflowRunState := ⟨.pending, [], none, none⟩

/-- The execution in flight, if any. -/
def current (w : WorkflowRunState) : Option ℕ := w.steps.findIdx? (·.status = .running)

def currentAgent (w : WorkflowRunState) : Option String :=
  (w.current.bind (w.steps[·]?)).map (·.agent)

def modifyStep (w : WorkflowRunState) (index : ℕ) (f : StepRun → StepRun) : WorkflowRunState :=
  { w with steps := w.steps.modify index f }

def applyStarted (w : WorkflowRunState) (step agent : String) (attempt : ℕ) (origin : Option ℕ)
    (via : Option String) (input : String) : WorkflowRunState :=
  { w with
    steps := w.steps ++ [⟨step, agent, attempt, origin, via, .running, input, none, none⟩]
    status := .running }

def applyConcluded (w : WorkflowRunState) (index : ℕ) (output : Value) : WorkflowRunState :=
  { w.modifyStep index fun s => { s with status := .concluded, output := some output } with
    status := .running }

def applyStepFailed (w : WorkflowRunState) (index : ℕ) (error : String) : WorkflowRunState :=
  w.modifyStep index fun s => { s with status := .failed, error := some error }

def applyCancelled (w : WorkflowRunState) (index : ℕ) : WorkflowRunState :=
  { w.modifyStep index fun s => { s with status := .cancelled } with status := .suspended }

def applyAwaiting (w : WorkflowRunState) : WorkflowRunState := { w with status := .awaitingInput }

def applyFinished (w : WorkflowRunState) (output : Value) : WorkflowRunState :=
  { w with status := .finished, output := some output }

def applyFailed (w : WorkflowRunState) (error : String) : WorkflowRunState :=
  { w with status := .failed, error := some error }

end WorkflowRunState

/-! ## Entries -/

/-- Where the main session's turn stands. -/
inductive TurnPhase
  | idle
  | running
  | awaitingInput
  | failed (error : String)
deriving DecidableEq

/-- Where a session or sub session runs. -/
inductive RuntimeChoice
  /-- A runtime was asked for and its record is not journaled yet. -/
  | pending
  | on (runtime : String)
  | without
  | inherit
deriving DecidableEq

structure MainRun where
  turn : TurnPhase
  title : Option String
  runtime : RuntimeChoice
deriving DecidableEq

inductive SubAgentStatus
  | running
  | completed
  | failed
deriving DecidableEq

/-- One delegated task. -/
structure SubAgentRun where
  title : String
  task : String
  agentType : Option String
  status : SubAgentStatus
  output : Option String
  error : Option String
  /-- Whether the parent was sent the latest result. -/
  notified : Bool
deriving DecidableEq

/-- One workflow run: the session's own, or one an agent invoked. -/
structure WorkflowRun where
  workflow : String
  graph : WorkflowRunSpec
  run : WorkflowRunState
  notified : Bool
  runtime : RuntimeChoice
deriving DecidableEq

/-- How a sub session's history was seeded. -/
inductive SeedMode
  | copy
  | summary
  | fresh
deriving DecidableEq

def SeedMode.asStr : SeedMode → String
  | .copy => "copy"
  | .summary => "summary"
  | .fresh => "fresh"

inductive AgentStatus
  | provisioning
  | running
  | idle
  | awaitingInput
  | completed
  | failed
  | cancelled
deriving DecidableEq

structure SubSessionRun where
  sourceSeq : ℕ
  seed : SeedMode
  message : String
  title : String
  status : AgentStatus
  runtime : RuntimeChoice
deriving DecidableEq

inductive RunState
  | main (run : MainRun)
  | sub (run : SubAgentRun)
  | workflow (run : WorkflowRun)
  | subSession (run : SubSessionRun)
deriving DecidableEq

structure RunEntry where
  /-- The agent this work runs under, of the root none. -/
  parent : Option String
  state : RunState
deriving DecidableEq

namespace RunState

def main? : RunState → Option MainRun
  | .main r => some r
  | .sub _ | .workflow _ | .subSession _ => none

def sub? : RunState → Option SubAgentRun
  | .sub r => some r
  | .main _ | .workflow _ | .subSession _ => none

def workflow? : RunState → Option WorkflowRun
  | .workflow r => some r
  | .main _ | .sub _ | .subSession _ => none

def subSession? : RunState → Option SubSessionRun
  | .subSession r => some r
  | .main _ | .sub _ | .workflow _ => none

def mapMain (f : MainRun → MainRun) : RunState → RunState
  | .main r => .main (f r)
  | .sub r => .sub r
  | .workflow r => .workflow r
  | .subSession r => .subSession r

def mapSub (f : SubAgentRun → SubAgentRun) : RunState → RunState
  | .main r => .main r
  | .sub r => .sub (f r)
  | .workflow r => .workflow r
  | .subSession r => .subSession r

def mapWorkflow (f : WorkflowRun → WorkflowRun) : RunState → RunState
  | .main r => .main r
  | .sub r => .sub r
  | .workflow r => .workflow (f r)
  | .subSession r => .subSession r

def mapSubSession (f : SubSessionRun → SubSessionRun) : RunState → RunState
  | .main r => .main r
  | .sub r => .sub r
  | .workflow r => .workflow r
  | .subSession r => .subSession (f r)

/-- The runtime an entry decides on. A subagent never chooses, and a main agent has nobody to
inherit from. -/
def decides : RunState → Option RuntimeChoice
  | .main r => if r.runtime = .inherit then some .pending else some r.runtime
  | .subSession r => if r.runtime = .inherit then none else some r.runtime
  | .workflow r => if r.runtime = .inherit then none else some r.runtime
  | .sub _ => none

def stepAgents : RunState → List String
  | .workflow w => w.run.steps.map (·.agent)
  | .main _ | .sub _ | .subSession _ => []

/-- Whether this is work somebody delegated, which goes with whoever did. -/
def isDelegated : RunState → Bool
  | .sub _ | .workflow _ => true
  | .main _ | .subSession _ => false

end RunState

/-! ## The forest -/

structure RunForest where
  root : Option String
  entries : Map String RunEntry
  agents : Map String String

namespace RunForest

def empty : RunForest := ⟨none, ∅, ∅⟩

/-! ### Lookups -/

def entry (f : RunForest) (id : String) : Option RunEntry := f.entries.lookup id

def rootEntry (f : RunForest) : Option RunEntry := f.root.bind f.entry

def rootWorkflow (f : RunForest) : Option WorkflowRun := f.rootEntry.bind (·.state.workflow?)

def rootIsWorkflow (f : RunForest) : Bool := f.rootWorkflow.isSome

def mainTitle (f : RunForest) : Option String :=
  (f.rootEntry.bind (·.state.main?)).bind (·.title)

def mainTurn (f : RunForest) : Option TurnPhase :=
  (f.rootEntry.bind (·.state.main?)).map (·.turn)

def hasStepInFlight (f : RunForest) : Bool :=
  f.entries.toPairs.any fun e => e.2.state.workflow?.any (·.run.current.isSome)

def hasActiveSubs (f : RunForest) : Bool :=
  f.entries.toPairs.any fun e => e.2.state.sub?.any (·.status = .running)

def hasSeedingSubSessions (f : RunForest) : Bool :=
  f.entries.toPairs.any fun e => e.2.state.subSession?.any (·.status = .provisioning)

def currentRootStepAgent (f : RunForest) : Option String :=
  f.rootWorkflow.bind (·.run.currentAgent)

/-- The entry that hosts `agent`. -/
def ownerOfAgent (f : RunForest) (agent : String) : Option (String × RunEntry) :=
  (f.agents.lookup agent).bind fun id => (f.entry id).map (id, ·)

def isKnownAgent (f : RunForest) (agent : String) : Bool := (f.agents.lookup agent).isSome

def sub (f : RunForest) (id : String) : Option SubAgentRun := (f.entry id).bind (·.state.sub?)

def workflow (f : RunForest) (id : String) : Option WorkflowRun :=
  (f.entry id).bind (·.state.workflow?)

def subSession (f : RunForest) (id : String) : Option SubSessionRun :=
  (f.entry id).bind (·.state.subSession?)

/-- The run hosting `agent` as one of its step executions, with the execution. -/
def stepOfAgent (f : RunForest) (agent : String) : Option (WorkflowRun × StepRun) :=
  (f.ownerOfAgent agent).bind fun (_, entry) =>
    entry.state.workflow?.bind fun w => (w.run.steps.find? (·.agent = agent)).map (w, ·)

def subIds (f : RunForest) : List String := f.entries.keysOf (·.state.sub?.isSome)

def subSessionIds (f : RunForest) : List String := f.entries.keysOf (·.state.subSession?.isSome)

theorem mem_subIds {f : RunForest} {id : String} : id ∈ f.subIds ↔ (f.sub id).isSome := by
  rw [subIds, Map.mem_keysOf, sub, entry]
  cases f.entries.lookup id <;> simp

theorem mem_subSessionIds {f : RunForest} {id : String} :
    id ∈ f.subSessionIds ↔ (f.subSession id).isSome := by
  rw [subSessionIds, Map.mem_keysOf, subSession, entry]
  cases f.entries.lookup id <;> simp

/-- The runtime of `entry`, looked for at most `hops` entries further up. -/
def runtimeFrom (f : RunForest) : ℕ → RunEntry → RuntimeChoice
  | hops, entry =>
    match entry.state.decides with
    | some decided => decided
    | none =>
      match hops with
      | 0 => .pending
      | hops + 1 =>
        match entry.parent.bind f.ownerOfAgent with
        | some (_, next) => f.runtimeFrom hops next
        | none => .pending

/-- The runtime `agent` runs on, resolved by walking up to the nearest entry that chose one. -/
def runtimeOfAgent (f : RunForest) (agent : String) : RuntimeChoice :=
  match f.ownerOfAgent agent with
  | some (_, entry) => f.runtimeFrom f.entries.entries.length entry
  | none => .pending

def runtimeOfRun (f : RunForest) (run : String) : RuntimeChoice :=
  match f.entry run with
  | some entry => f.runtimeFrom f.entries.entries.length entry
  | none => .pending

/-! ### The fold -/

def insertEntry (f : RunForest) (id : String) (parent : Option String) (state : RunState) :
    RunForest :=
  { f with entries := f.entries.insert id ⟨parent, state⟩ }

def insertAgent (f : RunForest) (agent host : String) : RunForest :=
  { f with agents := f.agents.insert agent host }

/-- The state of an entry changed by `g`, its place in the forest kept. -/
def modifyState (f : RunForest) (id : String) (g : RunState → RunState) : RunForest :=
  { f with entries := f.entries.adjust id fun e => { e with state := g e.state } }

def modifyMain (f : RunForest) (id : String) (g : MainRun → MainRun) : RunForest :=
  f.modifyState id (.mapMain g)

def modifySub (f : RunForest) (id : String) (g : SubAgentRun → SubAgentRun) : RunForest :=
  f.modifyState id (.mapSub g)

def modifyWorkflow (f : RunForest) (id : String) (g : WorkflowRun → WorkflowRun) : RunForest :=
  f.modifyState id (.mapWorkflow g)

def modifySubSession (f : RunForest) (id : String) (g : SubSessionRun → SubSessionRun) :
    RunForest :=
  f.modifyState id (.mapSubSession g)

def modifyRun (f : RunForest) (id : String) (g : WorkflowRunState → WorkflowRunState) :
    RunForest :=
  f.modifyWorkflow id fun w => { w with run := g w.run }

def applyRootAgent (f : RunForest) (session : String) (runtime : RuntimeChoice) : RunForest :=
  { (f.insertEntry session none (.main ⟨.idle, none, runtime⟩)).insertAgent session session with
    root := some session }

def applyRootWorkflow (f : RunForest) (session workflow : String) (graph : WorkflowRunSpec)
    (runtime : RuntimeChoice) : RunForest :=
  { f.insertEntry session none (.workflow ⟨workflow, graph, .default, false, runtime⟩) with
    root := some session }

def applyMainTitled (f : RunForest) (title : String) : RunForest :=
  match f.root with
  | some root => f.modifyMain root fun r => { r with title := some title }
  | none => f

def applySubSpawned (f : RunForest) (id parent title task : String) (agentType : Option String) :
    RunForest :=
  (f.insertEntry id (some parent)
    (.sub ⟨title, task, agentType, .running, none, none, false⟩)).insertAgent id id

/-- A terminal subagent started another cycle. -/
def applySubRunning (f : RunForest) (id : String) : RunForest :=
  f.modifySub id fun s => { s with status := .running }

def applySubCompleted (f : RunForest) (id output : String) : RunForest :=
  f.modifySub id fun s =>
    { s with status := .completed, output := some output, error := none, notified := false }

def applySubFailed (f : RunForest) (id error : String) : RunForest :=
  f.modifySub id fun s => { s with status := .failed, error := some error, notified := false }

def applySubNotified (f : RunForest) (id : String) : RunForest :=
  f.modifySub id fun s => { s with notified := true }

def applyTurnBegan (f : RunForest) (agent : String) : RunForest :=
  f.modifyMain agent fun r => { r with turn := .running }

def applyTurnIdle (f : RunForest) (agent : String) : RunForest :=
  f.modifyMain agent fun r => { r with turn := .idle }

def applyTurnFailed (f : RunForest) (agent error : String) : RunForest :=
  f.modifyMain agent fun r => { r with turn := .failed error }

/-- `agent` parked on questions: its turn does if it is the main agent, its run if it is a step. -/
def applyAsked (f : RunForest) (agent : String) : RunForest :=
  match f.agents.lookup agent with
  | none => f
  | some id =>
    f.modifyState id fun s =>
      match s with
      | .main r => .main { r with turn := .awaitingInput }
      | .workflow w => .workflow { w with run := w.run.applyAwaiting }
      | .sub r => .sub r
      | .subSession r => .subSession r

/-- `owner` asked for a runtime and got this one. -/
def pointAtRuntime (f : RunForest) (owner : String) (runtime : RuntimeChoice) : RunForest :=
  f.modifyState owner fun s =>
    match s with
    | .main r => .main { r with runtime }
    | .subSession r => .subSession { r with runtime }
    | .workflow r => .workflow { r with runtime }
    | .sub r => .sub r

def applyRunCreated (f : RunForest) (id parent workflow : String) (graph : WorkflowRunSpec) :
    RunForest :=
  f.insertEntry id (some parent) (.workflow ⟨workflow, graph, .default, false, .inherit⟩)

def applyStepStarted (f : RunForest) (run step agent : String) (attempt : ℕ) (origin : Option ℕ)
    (via : Option String) (input : String) : RunForest :=
  (f.modifyRun run (·.applyStarted step agent attempt origin via input)).insertAgent agent run

def applyStepConcluded (f : RunForest) (run : String) (index : ℕ) (output : Value) : RunForest :=
  f.modifyRun run (·.applyConcluded index output)

def applyStepFailed (f : RunForest) (run : String) (index : ℕ) (error : String) : RunForest :=
  f.modifyWorkflow run fun w =>
    { w with run := (w.run.applyStepFailed index error).applyFailed error, notified := false }

def applyStepCancelled (f : RunForest) (run : String) (index : ℕ) : RunForest :=
  f.modifyRun run (·.applyCancelled index)

def applyRunFinished (f : RunForest) (run : String) (output : Value) : RunForest :=
  f.modifyWorkflow run fun w => { w with run := w.run.applyFinished output, notified := false }

def applyRunFailed (f : RunForest) (run error : String) : RunForest :=
  f.modifyWorkflow run fun w => { w with run := w.run.applyFailed error, notified := false }

def applyRunNotified (f : RunForest) (run : String) : RunForest :=
  f.modifyWorkflow run fun w => { w with notified := true }

def applySubSessionCreated (f : RunForest) (id parent : String) (sourceSeq : ℕ) (seed : SeedMode)
    (message title : String) (runtime : RuntimeChoice) : RunForest :=
  (f.insertEntry id (some parent)
    (.subSession ⟨sourceSeq, seed, message, title, .provisioning, runtime⟩)).insertAgent id id

def applySubSessionSeeded (f : RunForest) (id : String) : RunForest :=
  f.modifySubSession id fun s => if s.status = .provisioning then { s with status := .idle } else s

def applySubSessionStatus (f : RunForest) (id : String) (status : AgentStatus) : RunForest :=
  f.modifySubSession id fun s => { s with status }

/-- The work delegated by these agents, at most `depth` delegations down. A forest whose links
form a circle has the walk of the source go on for ever. -/
def delegated (f : RunForest) : ℕ → List String → List String
  | 0, _ => []
  | depth + 1, frontier =>
    let found := f.entries.toPairs.filter fun e =>
      e.2.parent.any (frontier.contains ·) && e.2.state.isDelegated
    let next := found.flatMap fun e =>
      if e.2.state.sub?.isSome then [e.1] else e.2.state.stepAgents
    if found.isEmpty then [] else found.map (·.1) ++ f.delegated depth next

/-- A subagent or a sub session is removed with the work it delegated. Sub sessions below it
stay. -/
def applyAgentDeleted (f : RunForest) (id : String) : RunForest :=
  if ((f.sub id).isSome || (f.subSession id).isSome) then
    let doomed := f.delegated f.entries.entries.length [id]
    { f with
      entries := f.entries.retain fun run _ => !doomed.contains run && run ≠ id
      agents := f.agents.retain fun agent host =>
        !doomed.contains agent && !doomed.contains host && agent ≠ id }
  else f

end RunForest

end Horsie.Session
