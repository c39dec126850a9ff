import Horsie.Agent.Actor
import Horsie.Session.Teardown
import Horsie.Session.Workflow

/-!
# What a session is told, and what it reads

The commands of a session's mailbox, what a handler journals and sends, and the questions its
handlers put to the forest: who runs under whom and how deep, what is in flight, what is owed.
-/

namespace Horsie.Session

open Lib
open Agent (Value Incoming SubAgentResultPart AgentOutcome AskAnswer ArtifactRef HookRecord)

/-! ## Limits and texts -/

/-- The deepest a chain of delegations goes. -/
def maxDepth : ℕ := 4

def maxLiveRuns : ℕ := 8

def interruptedError : String := "interrupted by restart"

def stoppedError : String := "stopped before it finished"

def maxResultBytes : ℕ := 50000

/-- The characters of a text that fit into `bytes`. -/
def takeBytes : ℕ → List Char → List Char
  | _, [] => []
  | bytes, c :: cs => if c.utf8Size ≤ bytes then c :: takeBytes (bytes - c.utf8Size) cs else []

def truncateResult (text : String) : String :=
  if text.utf8ByteSize ≤ maxResultBytes then text
  else
    String.ofList (takeBytes maxResultBytes text.toList) ++ "…\n\n[truncated: " ++
      toString text.utf8ByteSize ++ " bytes total]"

/-! ## Commands -/

inductive LifecycleCommand
  | provision (owner : String) (env : Option String)
  | narrateProvisioning (runtime detail : String)
  | finishProvisioning (runtime : String) (error : Option String) (terminal : Bool)
  | prepareOffload
  | delete
deriving DecidableEq

inductive TurnCommand
  | userMessage (agent : Option String) (text : String) (artifacts : List ArtifactRef)
  | stop (agent : String)
  | answer (agent : Option String) (answers : List AskAnswer)

inductive RunCommand
  | create (parent : String) (graph : WorkflowRunSpec)
  | finishCreate (id : String) (persisted : Bool)
  | advance
  | retryStep (index : ℕ)
  | reconcileInterrupted

inductive SubAgentCommand
  | spawn (caller title task : String) (agentType : Option String)
  | finishSpawn (id task : String) (agentType : Option String) (persisted : Bool)
  | reconcile

/-- The runtime a sub session asks for. -/
inductive RequestedRuntime
  | own (env : String)
  | without
  | inherit
deriving DecidableEq

inductive SubSessionCommand
  | create (parent : String) (seed : SeedMode) (message title : String) (env : RequestedRuntime)
  | finishCreate (id : String) (env : RequestedRuntime) (persisted : Bool)
  | summarised (subSessions : List String) (result : Except String String)
  | seeded (id : String)
  | seedFailed (id error : String)
  | reseedInterrupted

inductive HookCommand
  | ran (key : AgentKey) (records : List HookRecord)
  | halt (key : AgentKey) (reason : String)
  | continueAfterStop (key : AgentKey) (reason : String)

inductive CoreCommand
  | deleteAgent (id : String)
  | setTitle (title : String)
  | titleSet (name : String)
  | create (spec : SessionSpec) (name : Option String)
      (message : Option (String × List ArtifactRef))
  | progress (key : AgentKey) (stage detail : String)

inductive SessionCommand
  | lifecycle (c : LifecycleCommand)
  | turn (c : TurnCommand)
  | run (c : RunCommand)
  | subAgent (c : SubAgentCommand)
  | subSession (c : SubSessionCommand)
  | hooks (c : HookCommand)
  | core (c : CoreCommand)
  | read
  | agentOutcome (agent : String) (outcome : AgentOutcome)

inductive TurnEnd
  | concluded (output : Value)
  | asked
  | failed (error : String) (terminal : Bool)
  | parked
  | interrupted
deriving DecidableEq

def TurnEnd.split : AgentOutcome → Option TurnEnd
  | .concluded output => some (.concluded output)
  | .asked _ => some .asked
  | .parked => some .parked
  | .interrupted => some .interrupted
  | .failed error _ terminal => some (.failed error terminal)
  | .started | .usageRecorded _ _ _ | .seedSummary _ _ => none

/-! ## What a handler does -/

/-- What the history of a sub session is built from. -/
inductive Seed
  | copy
  | summary (text : String)
  | fresh
deriving DecidableEq

/-- A task that seeds a sub session from its source, and tells the session how that went. -/
structure SeedTask where
  subSession : String
  source : String
  seed : Seed
  sourceSeq : ℕ
  message : Incoming
deriving DecidableEq

inductive Sent
  /-- An actor is started for the agent, unless it has one. A step's runs where its run does. -/
  | spawn (agent : String) (via : Option String)
  | tell (agent : String) (cmd : Agent.AgentCommand)
  | cancel (agent : String)
  | retire (agent : String)
  | self (cmd : SessionCommand)
  /-- A task tells the session, once the batch is durable if `written`. -/
  | later (cmd : SessionCommand) (written : Bool)
  | laterTell (agent : String) (cmd : Agent.AgentCommand)
  | create (runtime vendor : String) (incarnation : ℕ)
  | seed (task : SeedTask)

inductive Reply
  | done
  | id (id : String)
  | refused (why : String)
  | notFound
  | unrecoverable (why : String)
deriving DecidableEq

/-- What handling a command does. The events are persisted as one batch, at the end. -/
structure Effect where
  events : List SessionDomainEvent := []
  sent : List Sent := []
  reply : Option Reply := none
  stop : Bool := false

namespace Effect

/-- The effect `f`, decided after `e`. -/
def andThen (e f : Effect) : Effect where
  events := e.events ++ f.events
  sent := e.sent ++ f.sent
  reply := e.reply.or f.reply
  stop := e.stop || f.stop

def persist (events : List SessionDomainEvent) : Effect := { events := events }

def send (sent : List Sent) : Effect := { sent := sent }

def answer (reply : Reply) : Effect := { reply := some reply }

end Effect

/-- What a handler reads from outside. -/
structure Env where
  id : String
  now : ℕ
  fresh : String
  newV5 : String → String → String
  /-- Whether an actor can be started for an agent, and whether it can be told something. -/
  spawns : String → Bool
  tells : String → Bool
  resident : String → Bool
  maxSubagents : String → Option ℕ
  logHead : String → Option ℕ
  renames : Bool
  spawnedAtMs : String → ℕ
  endedAtMs : String → ℕ

/-! ## The forest -/

namespace RunForest

variable (f : RunForest)

def workflows : List (String × WorkflowRun) :=
  f.entries.toPairs.filterMap fun e => e.2.state.workflow?.map (e.1, ·)

def inFlightSteps : List (String × ℕ × String) :=
  f.workflows.filterMap fun (id, w) =>
    w.run.current.bind fun index => w.run.steps[index]?.map fun s => (id, index, s.agent)

/-- The run that hosts `agent` as one of its executions, and which. -/
def executionOfAgent (agent : String) : Option (String × ℕ) :=
  (f.ownerOfAgent agent).bind fun (id, entry) =>
    entry.state.workflow?.bind fun w => (w.run.indexOfAgent agent).map (id, ·)

def subs : List (String × SubAgentRun) :=
  f.entries.toPairs.filterMap fun e => e.2.state.sub?.map (e.1, ·)

/-- The subagents that are running: at recovery, the ones the process died under. -/
def interruptedSubs : List String :=
  (f.subs.filter (·.2.status = .running)).map (·.1)

def activeSubCount : ℕ := f.subs.countP (·.2.status = .running)

def liveRunCount : ℕ := f.workflows.countP fun w => !w.2.run.status.isTerminal

def subSessions : List (String × SubSessionRun) :=
  f.entries.toPairs.filterMap fun e => e.2.state.subSession?.map (e.1, ·)

def seedingSubSessions : List String :=
  (f.subSessions.filter (·.2.status = .provisioning)).map (·.1)

/-- Whether `agent` is `ancestor` or runs under it, at most `hops` links up. -/
def descendsWithin (ancestor : String) : ℕ → String → Bool
  | hops, agent =>
    if agent = ancestor then true
    else
      match hops, (f.ownerOfAgent agent).bind (·.2.parent) with
      | hops + 1, some parent => descendsWithin ancestor hops parent
      | 0, _ | _ + 1, none => false

def descendsFrom (descendant ancestor : String) : Bool :=
  f.descendsWithin ancestor (f.entries.entries.length + 1) descendant

/-- How many delegations lie above the agent `parent`, and `depth` below. -/
def depthFrom : ℕ → ℕ → Option String → ℕ
  | _, depth, none => depth
  | 0, _, some _ => 0
  | hops + 1, depth, some parent =>
    match f.ownerOfAgent parent with
    | some (_, entry) => depthFrom hops (depth + 1) entry.parent
    | none => depth + 1

def depthOfAgent (agent : String) : Option ℕ :=
  (f.ownerOfAgent agent).map fun (_, entry) =>
    f.depthFrom f.entries.entries.length 0 entry.parent

/-- Every entry that runs under `agent`, at any depth. -/
def descendantEntries (agent : String) : List String :=
  (f.entries.toPairs.filter fun e =>
    e.1 ≠ agent &&
      match e.2.state with
      | .sub _ | .subSession _ | .main _ => f.descendsFrom e.1 agent
      | .workflow _ => e.2.parent.any fun p => p = agent || f.descendsFrom p agent).map (·.1)

/-- Every agent below `agent`. -/
def descendantAgents (agent : String) : List String :=
  f.agents.keys.filter fun id => id ≠ agent && f.descendsFrom id agent

end RunForest

/-- What a parent is handed of a subagent that ended. -/
def subResultPart (env : Env) (id : String) (sub : SubAgentRun) : SubAgentResultPart where
  subagentId := id
  title := sub.title
  status := if sub.status = .failed then "failed" else "completed"
  text := truncateResult ((if sub.status = .failed then sub.error else sub.output).getD "")
  spawnedAtMs := env.spawnedAtMs id
  endedAtMs := env.endedAtMs id

def runResultPart (env : Env) (id : String) (w : WorkflowRun) : SubAgentResultPart :=
  let failed := w.run.status = .failed
  let body :=
    match w.run.error, w.run.output with
    | some error, output =>
      if failed then error else (output.map renderResult).getD error
    | none, some output => renderResult output
    | none, none => ""
  { subagentId := id
    title := "workflow " ++ w.workflow
    status := if failed then "failed" else "completed"
    text := truncateResult body
    spawnedAtMs := env.spawnedAtMs id
    endedAtMs := env.endedAtMs id }

/-- What a terminal child that was not reported yet owes the agent it runs under. -/
def owedPart (env : Env) (id : String) : RunState → Option SubAgentResultPart
  | .sub sub =>
    if sub.status = .running || sub.notified then none else some (subResultPart env id sub)
  | .workflow w =>
    if !w.run.status.isTerminal || w.notified then none else some (runResultPart env id w)
  | .main _ | .subSession _ => none

namespace SessionState

variable (s : SessionState)

/-- What kind of agent `id` names. -/
def agentKeyOf (id : String) : Option AgentKey :=
  (s.forest.ownerOfAgent id).map fun (_, entry) =>
    match entry.state with
    | .main _ => .main
    | .sub _ => .sub id
    | .workflow _ => .step id
    | .subSession _ => .subSession id

/-- Every result a child owes a parent that was not sent it. -/
def owedDeliveries (env : Env) : List AgentAction :=
  s.forest.entries.toPairs.filterMap fun e =>
    e.2.parent.bind fun parent =>
      (owedPart env e.1 e.2.state).bind fun part =>
        (s.agentKeyOf parent).map fun key => .deliver ⟨key, e.1, part⟩

def sessionRuntime (session : String) : AgentRuntime :=
  s.runtimeOfChoice (s.forest.runtimeOfRun session)

/-- What the drivers of the runs decide. -/
def workflowActions (env : Env) : List AgentAction :=
  s.forest.workflows.flatMap fun (id, w) =>
    WorkflowOrchestrator.stepActions env.newV5 ⟨id, w.graph⟩ w.run

/-- Everything to start at a turn boundary, once the session has its runtime. -/
def nextActions (env : Env) : List AgentAction :=
  if (s.sessionRuntime env.id).readyOn then s.owedDeliveries env ++ s.workflowActions env else []

end SessionState

end Horsie.Session
