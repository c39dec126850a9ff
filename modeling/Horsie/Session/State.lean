import Horsie.Agent.State
import Horsie.Session.Forest

/-!
# The state of a session

What a session journals, and the fold of it: what the session is, whether it failed for good, its
runtimes and the run forest. `SessionState.readyOn` is the gate of an agent's turns.
-/

namespace Horsie.Session

open Lib
open Agent (Value TurnOutcome)

/-! ## What is recorded -/

inductive SessionKind
  | agent
  | workflow (run : WorkflowRunSpec)
deriving DecidableEq

/-- What a session is. Its runtime is named by the vendor of the environment. -/
structure SessionSpec where
  kind : SessionKind
  runtime : Option String
deriving DecidableEq

/-- How a runtime is doing. What is made at `atMs` is the sandbox of that name. -/
inductive ProvisioningState
  | never
  | inFlight (atMs : ℕ)
  | ready (atMs : ℕ)
  | failed (atMs : ℕ) (reason : String)
deriving DecidableEq

def ProvisioningState.atMs : ProvisioningState → Option ℕ
  | .never => none
  | .inFlight t | .ready t | .failed t _ => some t

def ProvisioningState.isInFlight : ProvisioningState → Bool
  | .inFlight _ => true
  | .never | .ready _ | .failed _ _ => false

structure RuntimeRecord where
  env : String
  owner : String
  provisioning : ProvisioningState
deriving DecidableEq

inductive SessionDomainEvent
  | specRecorded (session : String) (spec : SessionSpec)
  | renamed (name : String)
  | runtimeRequested (runtime owner env : String)
  | provisioningStarted (atMs : ℕ) (runtime : String)
  | provisioningProgress (runtime detail : String)
  | provisioningSucceeded (runtime : String)
  | provisioningFailed (runtime error : String) (terminal : Bool)
  | turnBegan (agent : String)
  | askRecorded (agent : String)
  | turnEnded (agent : String)
  | turnFailed (agent error : String)
  | turnStopped (agent : String)
  | turnInterrupted (agent : String)
  | sessionFailed (reason : String)
  | agentDeleted (id : String)
  | usageRecorded (agentId : String)
  | subAgentSpawned (id parent title task : String) (agentType : Option String)
  | subAgentRunning (id : String)
  | subAgentCompleted (id output : String)
  | subAgentFailed (id error : String)
  | subAgentNotified (id : String)
  | runCreated (id parent : String) (graph : WorkflowRunSpec)
  | stepStarted (run : String) (index : ℕ) (step agent : String) (attempt : ℕ) (origin : Option ℕ)
      (via : Option String) (input : String)
  | stepConcluded (run : String) (index : ℕ) (output : Value)
  | stepFailed (run : String) (index : ℕ) (error : String)
  | stepCancelled (run : String) (index : ℕ)
  | runFinished (run : String) (output : Value)
  | runFailed (run error : String)
  | runNotified (run : String)
  | subSessionCreated (id parent : String) (sourceSeq : ℕ) (seed : SeedMode)
      (message title : String) (runtime : RuntimeChoice)
  | subSessionSeeded (id : String)
  | subSessionStatusChanged (id : String) (status : AgentStatus)
  | subSessionTurnEnded (id : String) (outcome : TurnOutcome)
deriving DecidableEq

def settledStatus : TurnOutcome → AgentStatus
  | .failed _ => .failed
  | .ended | .stopped | .interrupted => .idle

/-! ## The fold -/

structure SessionState where
  spec : Option SessionSpec
  fatal : Option String
  runtimes : Map String RuntimeRecord
  forest : RunForest

inductive AgentRuntime
  | on (runtime : String) (record : RuntimeRecord)
  | without
  | pending
deriving DecidableEq

namespace AgentRuntime

/-- Whether there is a runtime to run on, or none to wait for. -/
def readyOn : AgentRuntime → Bool
  | .on _ record =>
    match record.provisioning with
    | .inFlight _ | .failed _ _ => false
    | .never | .ready _ => true
  | .without => true
  | .pending => false

end AgentRuntime

namespace SessionState

def empty : SessionState := ⟨none, none, ∅, .empty⟩

def mapForest (s : SessionState) (f : RunForest → RunForest) : SessionState :=
  { s with forest := f s.forest }

def setProvisioning (s : SessionState) (runtime : String)
    (f : ProvisioningState → ProvisioningState) : SessionState :=
  { s with
    runtimes := s.runtimes.adjust runtime fun r => { r with provisioning := f r.provisioning } }

/-- Where a session of this spec runs: on what is not requested yet, or deliberately nowhere. -/
def rootChoice (spec : SessionSpec) : RuntimeChoice :=
  match spec.runtime with
  | some _ => .pending
  | none => .without

def applyEvent (s : SessionState) : SessionDomainEvent → SessionState
  | .specRecorded session spec =>
    let s := s.mapForest fun f =>
      match spec.kind with
      | .agent => f.applyRootAgent session (rootChoice spec)
      | .workflow run => f.applyRootWorkflow session run.workflow run (rootChoice spec)
    { s with spec := some spec }
  | .renamed name => s.mapForest (·.applyMainTitled name)
  | .runtimeRequested runtime owner env =>
    { s with
      runtimes := s.runtimes.insert runtime ⟨env, owner, .never⟩
      forest := s.forest.pointAtRuntime owner (.on runtime) }
  | .provisioningStarted atMs runtime => s.setProvisioning runtime fun _ => .inFlight atMs
  | .provisioningProgress _ _ => s
  | .provisioningSucceeded runtime => s.setProvisioning runtime fun p => .ready (p.atMs.getD 0)
  | .provisioningFailed runtime error terminal =>
    let s := s.setProvisioning runtime fun p => .failed (p.atMs.getD 0) error
    if terminal then { s with fatal := some error } else s
  | .turnBegan agent => s.mapForest (·.applyTurnBegan agent)
  | .askRecorded agent => s.mapForest (·.applyAsked agent)
  | .turnEnded agent | .turnStopped agent | .turnInterrupted agent =>
    s.mapForest (·.applyTurnIdle agent)
  | .turnFailed agent error => s.mapForest (·.applyTurnFailed agent error)
  | .sessionFailed reason => { s with fatal := some reason }
  | .agentDeleted id => s.mapForest (·.applyAgentDeleted id)
  | .usageRecorded _ => s
  | .subAgentSpawned id parent title task agentType =>
    s.mapForest (·.applySubSpawned id parent title task agentType)
  | .subAgentRunning id => s.mapForest (·.applySubRunning id)
  | .subAgentCompleted id output => s.mapForest (·.applySubCompleted id output)
  | .subAgentFailed id error => s.mapForest (·.applySubFailed id error)
  | .subAgentNotified id => s.mapForest (·.applySubNotified id)
  | .runCreated id parent graph => s.mapForest (·.applyRunCreated id parent graph.workflow graph)
  | .stepStarted run _ step agent attempt origin via input =>
    s.mapForest (·.applyStepStarted run step agent attempt origin via input)
  | .stepConcluded run index output => s.mapForest (·.applyStepConcluded run index output)
  | .stepFailed run index error => s.mapForest (·.applyStepFailed run index error)
  | .stepCancelled run index => s.mapForest (·.applyStepCancelled run index)
  | .runFinished run output => s.mapForest (·.applyRunFinished run output)
  | .runFailed run error => s.mapForest (·.applyRunFailed run error)
  | .runNotified run => s.mapForest (·.applyRunNotified run)
  | .subSessionCreated id parent sourceSeq seed message title runtime =>
    s.mapForest (·.applySubSessionCreated id parent sourceSeq seed message title runtime)
  | .subSessionSeeded id => s.mapForest (·.applySubSessionSeeded id)
  | .subSessionStatusChanged id status => s.mapForest (·.applySubSessionStatus id status)
  | .subSessionTurnEnded id outcome =>
    s.mapForest (·.applySubSessionStatus id (settledStatus outcome))

def applyAll (s : SessionState) (events : List SessionDomainEvent) : SessionState :=
  events.foldl applyEvent s

/-! ## Who runs where -/

/-- The record behind a choice the forest resolved. -/
def runtimeOfChoice (s : SessionState) : RuntimeChoice → AgentRuntime
  | .on id =>
    match s.runtimes.lookup id with
    | some record => .on id record
    | none => .pending
  | .without => .without
  | .pending | .inherit => .pending

/-- The runtime `agent` runs on. -/
def runtimeFor (s : SessionState) (agent : String) : AgentRuntime :=
  s.runtimeOfChoice (s.forest.runtimeOfAgent agent)

/-- Whether the runtime resolution finds a runtime `agent` is ready on. -/
def ready (s : SessionState) (agent : String) : Bool := (s.runtimeFor agent).readyOn

/-- Where an agent is spawned. A step the forest does not know yet runs where its run does. -/
def runtimeChoiceFor (s : SessionState) (agent : String) (via : Option String) : RuntimeChoice :=
  match via with
  | some run =>
    if s.forest.isKnownAgent agent then s.forest.runtimeOfAgent agent
    else s.forest.runtimeOfRun run
  | none => s.forest.runtimeOfAgent agent

def spawnReady (s : SessionState) (agent : String) (via : Option String) : Bool :=
  (s.runtimeOfChoice (s.runtimeChoiceFor agent via)).readyOn && s.fatal.isNone

/-! ## Work in flight -/

/-- Whether a component has work an unload would lose: a create, the main turn, a step, a subagent
or a sub session. -/
def busy (s : SessionState) : Bool :=
  (s.runtimes.toPairs.any fun r => r.2.provisioning.isInFlight) ||
    s.forest.mainTurn = some .running || s.forest.hasStepInFlight || s.forest.hasActiveSubs ||
    s.forest.hasSeedingSubSessions ||
    s.forest.entries.toPairs.any fun e => e.2.state.subSession?.any (·.status = .running)

end SessionState

end Horsie.Session
