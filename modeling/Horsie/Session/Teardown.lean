import Horsie.Lib.Transition
import Horsie.Runtime.Fly
import Horsie.Session.State

/-!
# A session and what it leaves around it

A session with its agents, the creates it spawned off its mailbox, its runtimes at their vendors,
and its rows in the agent-run index and the inbox. Creates, the runs of agents and the writes to
the stores are tasks of their own: they go on while the session handles its commands, and when it is
unloaded or deleted. A delete is one command, which waits in between, and only its supervisor sends
it.
-/

namespace Horsie.Session

open Lib
open Horsie.Runtime (Kind)

namespace Teardown

/-! ## Tasks, agents and rows -/

/-- A machine or a volume a create made at a vendor. A second machine of one name is refused, and
the volumes of one name are deleted together. -/
structure Object where
  vendor : String
  runtime : String
  kind : Kind
deriving DecidableEq

/-- A create off the mailbox, with the calls to its vendor it has still to make. -/
structure Create where
  home : ℕ
  vendor : String
  runtime : String
  calls : List Kind
deriving DecidableEq

def Create.object (c : Create) (kind : Kind) : Object := ⟨c.vendor, c.runtime, kind⟩

/-- A queued write. The rows of the index are named by their agents, those of the inbox by their
questions. -/
inductive Write
  | record (rows : List String)
  | reconcile (rows : List String)
  | recordAsks (rows : List String)
  | settleAsks
deriving DecidableEq

namespace Write

/-- The rows of the index once this is written. -/
def toRuns (runs : List String) : Write → List String
  | .record rows => runs ++ rows.filter (!runs.contains ·)
  | .reconcile rows => rows
  | .recordAsks _ | .settleAsks => runs

def toInbox (inbox : List String) : Write → List String
  | .recordAsks rows => inbox ++ rows.filter (!inbox.contains ·)
  | .record _ | .reconcile _ | .settleAsks => inbox

end Write

inductive AgentCommand
  /-- A message, a report of its run, anything that may have it start a turn. -/
  | message
  | cancel
  | shutdown
deriving DecidableEq

structure Agent where
  id : String
  resident : Bool
  mailbox : List AgentCommand
deriving DecidableEq

namespace Agent

def push (a : Agent) (c : AgentCommand) : Agent := { a with mailbox := a.mailbox ++ [c] }

/-- A resident agent is removed. How much of its mailbox it still handles is up to the actor. -/
def retire (left : ℕ) (a : Agent) : Agent :=
  if a.resident then ⟨a.id, false, a.mailbox.take left ++ [.shutdown]⟩ else a

/-- A resident agent is cancelled and shut down, and reached no more. -/
def stop (a : Agent) : Agent :=
  if a.resident then ⟨a.id, false, a.mailbox ++ [.cancel, .shutdown]⟩ else a

end Agent

/-! ## The session -/

inductive Command
  | provision (owner : String) (env : Option String)
  | finishProvisioning (runtime : String) (error : Option (String × Bool))
  | prepareOffload
  | delete
  | other
deriving DecidableEq

/-- The commands only the supervisor sends, and waits for. -/
def Command.isRequest : Command → Bool
  | .prepareOffload | .delete => true
  | .provision _ _ | .finishProvisioning _ _ | .other => false

/-- Where the handler of a delete waits. -/
inductive Stage
  | serving
  | cancelling
  | walking (left : List Object)
  | forgettingRuns
  | forgettingInbox
deriving DecidableEq

structure Loaded where
  home : ℕ
  mailbox : List Command
  indexing : List Write
  stage : Stage
deriving DecidableEq

end Teardown

namespace SessionState

open Teardown

def envOf (s : SessionState) (runtime : String) : Option String :=
  (s.runtimes.lookup runtime).map (·.env)

/-- The runtime a `Provision` builds and its vendor, and whether its record is new. -/
def provisions (s : SessionState) (session owner : String) (env : Option String)
    (fresh : String) : Option (String × String × Bool) :=
  if s.fatal.isSome then none
  else
    match s.runtimes.toPairs.find? (·.2.owner = owner), env with
    | some (runtime, r), _ =>
      match r.provisioning with
      | .ready _ => none
      | .never | .inFlight _ | .failed _ _ => some (runtime, r.env, false)
    | none, some vendor => some (fresh, vendor, true)
    | none, none =>
      if owner = session then (s.spec.bind (·.runtime)).map (fresh, ·, true) else none

/-- What a `Provision` journals. -/
def started (runtime owner vendor : String) (requested : Bool) (atMs : ℕ) :
    List SessionDomainEvent :=
  (if requested then [.runtimeRequested runtime owner vendor] else []) ++
    [.provisioningStarted atMs runtime]

/-- The create a load attempts again. -/
def repair (s : SessionState) : Option Command :=
  if s.fatal.isSome then none
  else
    (s.runtimes.toPairs.find? fun r =>
      match r.2.provisioning with
      | .inFlight _ | .failed _ _ => true
      | .never | .ready _ => false).map fun r => .provision r.2.owner none

/-- What the vendors of a session's runtimes are told to delete: each machine, then its volumes. -/
def doomed (s : SessionState) : List Object :=
  s.runtimes.toPairs.flatMap fun (runtime, r) =>
    [⟨r.env, runtime, .machine⟩, ⟨r.env, runtime, .volume⟩]

/-- The agents whose turns a delete cancels. -/
def cancelled (s : SessionState) (session : String) : List String :=
  let steps := s.forest.entries.toPairs.filterMap fun e =>
    e.2.state.workflow?.bind (·.run.currentAgent)
  if steps.isEmpty then [session] else steps

end SessionState

/-- Whether an event is journaled by the handlers of the runtime lifecycle and of a create alone. -/
def SessionDomainEvent.isLifecycle : SessionDomainEvent → Bool
  | .specRecorded _ _ | .runtimeRequested _ _ _ | .provisioningStarted _ _
  | .provisioningSucceeded _ | .provisioningFailed _ _ _ => true
  | .renamed _ | .provisioningProgress _ _ | .turnBegan _ | .askRecorded _ | .turnEnded _
  | .turnFailed _ _ | .turnStopped _ | .turnInterrupted _ | .sessionFailed _ | .agentDeleted _
  | .usageRecorded _ | .subAgentSpawned _ _ _ _ _ | .subAgentRunning _ | .subAgentCompleted _ _
  | .subAgentFailed _ _ | .subAgentNotified _ | .runCreated _ _ _
  | .stepStarted _ _ _ _ _ _ _ _ | .stepConcluded _ _ _ | .stepFailed _ _ _ | .stepCancelled _ _
  | .runFinished _ _ | .runFailed _ _ | .runNotified _ | .subSessionCreated _ _ _ _ _ _ _
  | .subSessionSeeded _ | .subSessionStatusChanged _ _ | .subSessionTurnEnded _ _ => false

namespace Teardown

/-! ## The world -/

/-- What a handler of the session does besides. -/
inductive Act
  | emit (event : SessionDomainEvent) (h : event.isLifecycle = false)
  | spawn (agent : String)
  | tell (agent : String)
  | retire (agent : String) (left : ℕ)
  | index (write : Write)

structure World where
  id : String
  /-- The vendors that keep a workspace on a volume of its own. -/
  mounts : String → Bool
  state : SessionState
  listed : Bool
  waiting : Bool
  loads : ℕ
  session : Option Loaded
  deleted : Bool
  agents : List Agent
  running : List String
  creates : List Create
  adrift : List (List Write)
  substrate : List Object
  runs : List String
  inbox : List String

namespace World

def init (id : String) (mounts : String → Bool) (spec : SessionSpec) : World where
  id
  mounts
  state := SessionState.empty.applyEvent (.specRecorded id spec)
  listed := true
  waiting := false
  loads := 0
  session := none
  deleted := false
  agents := []
  running := []
  creates := []
  adrift := []
  substrate := []
  runs := []
  inbox := []

def mapSession (w : World) (f : Loaded → Loaded) : World :=
  { w with session := w.session.map f }

def enter (w : World) (stage : Stage) : World := w.mapSession fun s => { s with stage }

def push (w : World) (c : Command) : World :=
  w.mapSession fun s => { s with mailbox := s.mailbox ++ [c] }

def mapAgents (w : World) (f : Agent → Agent) : World := { w with agents := w.agents.map f }

/-- A session that is not loaded is: its index is reconciled, with `rows`, its main agent spawned
and what was interrupted repaired, behind the command `c` that loaded it. -/
def deliver (w : World) (c : Command) (rows : List String) : World :=
  match w.session with
  | some _ => w.push c
  | none =>
    { w with
      loads := w.loads + 1
      session := some ⟨w.loads + 1, c :: w.state.repair.toList, [.reconcile rows, .settleAsks],
        .serving⟩
      agents := w.agents ++
        match w.state.spec.map (·.kind) with
        | some .agent => [⟨w.id, true, []⟩]
        | some (.workflow _) | none => [] }

/-- The calls of a create, one machine and before it its volume. -/
def calls (w : World) (vendor : String) : List Kind :=
  if w.mounts vendor then [.volume, .machine] else [.machine]

def perform (w : World) : Act → World
  | .emit event _ => { w with state := w.state.applyEvent event }
  | .spawn agent => { w with agents := w.agents ++ [⟨agent, true, []⟩] }
  | .tell agent => w.mapAgents fun a => if a.resident && a.id = agent then a.push .message else a
  | .retire agent left => w.mapAgents fun a => if a.id = agent then a.retire left else a
  | .index write => w.mapSession fun s => { s with indexing := s.indexing ++ [write] }

/-! ## The handlers of the session -/

/-- A loaded session handles a command, with `acts` besides. -/
def serve (w : World) (s : Loaded) (c : Command) (fresh : String) (atMs : ℕ)
    (acts : List Act) : World :=
  match c with
  | .provision owner env =>
    match w.state.provisions w.id owner env fresh with
    | none => w
    | some (runtime, vendor, requested) =>
      acts.foldl perform
        { w with
          state := w.state.applyAll (SessionState.started runtime owner vendor requested atMs)
          creates := w.creates ++ [⟨s.home, vendor, runtime, w.calls vendor⟩] }
  | .finishProvisioning runtime error =>
    acts.foldl perform
      { w with
        state := w.state.applyEvent <|
          match error with
          | none => .provisioningSucceeded runtime
          | some (why, terminal) => .provisioningFailed runtime why terminal }
  | .prepareOffload =>
    if w.state.busy then { w with waiting := false }
    else
      -- what the index chain has still to write is written without its session
      { w.mapAgents Agent.stop with
        waiting := false, session := none, adrift := w.adrift ++ [s.indexing] }
  | .delete =>
    let cancelled := w.state.cancelled w.id
    (w.mapAgents fun a =>
      if a.resident && cancelled.contains a.id then a.push .cancel else a).enter .cancelling
  | .other => acts.foldl perform w

/-- The handler of a delete goes on. -/
def advance (w : World) (s : Loaded) : Option World :=
  match s.stage with
  | .serving => none
  -- cancelled runs are waited for, but not for long
  | .cancelling => some ((w.mapAgents Agent.stop).enter (.walking w.state.doomed))
  | .walking (o :: left) =>
    some ({ w with substrate := w.substrate.filter (· ≠ o) }.enter (.walking left))
  | .walking [] => some (w.enter .forgettingRuns)
  -- what is queued is written first
  | .forgettingRuns =>
    if s.indexing.isEmpty then some ({ w with runs := [] }.enter .forgettingInbox) else none
  | .forgettingInbox => some { w with inbox := [], session := none, deleted := true }

/-! ## Tasks -/

def write (w : World) (write : Write) : World :=
  { w with runs := write.toRuns w.runs, inbox := write.toInbox w.inbox }

def report (w : World) (c : Create) (error : Option (String × Bool)) : World :=
  if w.session.any (·.home = c.home) then w.push (.finishProvisioning c.runtime error) else w

/-- A create makes its next call, ends with `error` instead, or has made them all. -/
def create (w : World) (task : ℕ) (c : Create) (error : Option (String × Bool)) : World :=
  match error, c.calls with
  | none, kind :: calls =>
    { w with
      substrate := w.substrate ++ [c.object kind]
      creates := w.creates.set task { c with calls } }
  | none, [] => { w with creates := w.creates.eraseIdx task }.report c none
  | some e, _ => { w with creates := w.creates.eraseIdx task }.report c (some e)

/-- An agent handles its next command, and starts a turn if `starts`. -/
def agent (w : World) (i : ℕ) (a : Agent) (c : AgentCommand) (rest : List AgentCommand)
    (starts : Bool) : World :=
  match c with
  | .shutdown => { w with agents := w.agents.eraseIdx i }
  | .message | .cancel =>
    { w with
      agents := w.agents.set i { a with mailbox := rest }
      running := if starts then w.running ++ [a.id] else w.running }

end World

/-! ## Steps -/

inductive Label
  | forward (c : Command) (rows : List String)
  | request (c : Command) (rows : List String)
  /-- The supervisor forgets a session that answered its delete, and acknowledges that. -/
  | acknowledge
  | send (c : Command)
  | serve (fresh : String) (atMs : ℕ) (acts : List Act)
  | advance
  /-- The next write to the stores, of the session or of an earlier load. -/
  | index
  | drift (load : ℕ)
  | create (task : ℕ) (error : Option (String × Bool))
  | agent (i : ℕ) (starts : Bool)
  | tell (run i : ℕ)
  | notify (run : ℕ)
  | finish (run : ℕ)

namespace World

def step? (w : World) : Label → Option World
  | .forward c rows =>
    if c.isRequest || w.waiting || !w.listed then none else some (w.deliver c rows)
  | .request c rows =>
    if !c.isRequest || w.waiting || !w.listed || (c = .prepareOffload && w.session.isNone) then none
    else some { w.deliver c rows with waiting := true }
  | .acknowledge =>
    if w.deleted && w.listed then some { w with listed := false, waiting := false } else none
  | .send c => if c.isRequest || w.session.isNone then none else some (w.push c)
  | .serve fresh atMs acts =>
    match w.session with
    | some ⟨home, c :: rest, indexing, .serving⟩ =>
      -- ids are never minted twice
      if (w.state.runtimes.lookup fresh).isSome then none
      else
        let s := ⟨home, rest, indexing, .serving⟩
        some ({ w with session := some s }.serve s c fresh atMs acts)
    | _ => none
  | .advance => w.session.bind w.advance
  | .index =>
    match w.session with
    | some ⟨home, mailbox, next :: rest, stage⟩ =>
      some ({ w with session := some ⟨home, mailbox, rest, stage⟩ }.write next)
    | _ => none
  | .drift load =>
    match w.adrift[load]? with
    | some (next :: rest) => some ({ w with adrift := w.adrift.set load rest }.write next)
    | _ => none
  | .create task error => w.creates[task]?.map fun c => w.create task c error
  | .agent i starts =>
    match w.agents[i]? with
    | some ⟨id, resident, c :: rest⟩ =>
      some (w.agent i ⟨id, resident, c :: rest⟩ c rest starts)
    | _ => none
  | .tell run i =>
    match w.running[run]?, w.agents[i]? with
    | some id, some a =>
      if a.id = id then some { w with agents := w.agents.set i (a.push .message) } else none
    | _, _ => none
  | .notify run => w.running[run]?.map fun id => { w with inbox := w.inbox ++ [id] }
  | .finish run =>
    if run < w.running.length then some { w with running := w.running.eraseIdx run } else none

end World

def hosting (id : String) (mounts : String → Bool) (spec : SessionSpec) : System World Label :=
  System.ofStep? (.init id mounts spec) World.step?

end Teardown

end Horsie.Session
