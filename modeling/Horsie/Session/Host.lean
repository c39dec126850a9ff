import Horsie.Agent.Actor
import Horsie.Lib.Newest
import Horsie.Lib.Transition
import Horsie.Session.Routing

/-!
# A session and its resident agents

A session handles one command at a time: it spawns and retires agents, and journals a batch of
events. Once the batch is durable, each of its events is routed with the state the whole batch left,
and what it routes goes into the mailboxes of the agents that are resident; the rest is dropped. An
agent handles its records in order, writes each to its log and reads its readiness off it.

Of an agent's log, this keeps the records of its session. Nothing else in it speaks of the runtime
or of delegated work (`childStatus_applyEvent`).
-/

namespace Horsie.Session

open Lib
open Agent (LifecycleEvent runtimeReadiness)

/-! ## Records -/

def said (records : List LifecycleEvent) : Option Bool := newest runtimeReadiness records

/-- What a record says of the status of a piece of delegated work. -/
def newsOf (child : String) : LifecycleEvent → Option String
  | .subAgent id _ status => if id = child then some status else none
  | .runtime _ _ | .preparing _ _ | .messageQueued _ _ | .turnBegan _ _ | .turnEnded _
  | .askRecorded _ _ | .subSession _ _ _ | .step _ _ _ | .taskList _ | .sessionFailed _
  | .compactionSkipped _ _ => none

/-- The status of a piece of delegated work, as the newest entry on it has it. -/
def childStatus (records : List LifecycleEvent) (child : String) : Option String :=
  newest (newsOf child) records

/-! ## The world -/

/-- An agent with an actor. -/
structure Resident where
  id : String
  ready : Bool
  /-- The records it was told and has not handled yet, the next one first. -/
  mailbox : List LifecycleEvent
deriving DecidableEq

def Resident.settled (r : Resident) : Bool := (said r.mailbox).getD r.ready

/-- What a handler of the session does. -/
inductive Act
  | emit (event : SessionDomainEvent)
  | spawn (id : String) (via : Option String)
  | retire (id : String)
deriving DecidableEq

structure World where
  id : String
  state : SessionState
  residents : List Resident
  logs : String → List LifecycleEvent

inductive Label
  | handle (acts : List Act)
  | record (agent : String)
  /-- The history of a sub session is a copy of the first `cut` records of its source. -/
  | seed (agent : String) (cut : ℕ)
  | unload
deriving DecidableEq

namespace World

def init (id : String) : World := ⟨id, .empty, [], fun _ => []⟩

def resident? (w : World) (agent : String) : Option Resident := w.residents.find? (·.id = agent)

theorem of_resident? {w : World} {agent : String} {r : Resident} (h : w.resident? agent = some r) :
    r ∈ w.residents ∧ r.id = agent := by
  refine ⟨List.mem_of_find?_eq_some h, ?_⟩
  simpa using List.find?_some h

/-- One act of a handler. Agents are one actor for each id. -/
def act (w : World) : Act → World
  | .emit event => { w with state := w.state.applyEvent event }
  | .spawn id via =>
    if (w.resident? id).isSome then w
    else { w with residents := w.residents ++ [⟨id, w.state.spawnReady id via, []⟩] }
  | .retire id => { w with residents := w.residents.filter (·.id ≠ id) }

end World

def Act.event? : Act → Option SessionDomainEvent
  | .emit event => some event
  | .spawn _ _ | .retire _ => none

def batch (acts : List Act) : List SessionDomainEvent := acts.filterMap Act.event?

namespace World

/-- The handler is done and its batch is durable, nothing of it routed yet. -/
def perform (w : World) (acts : List Act) : World := acts.foldl act w

def records (w : World) (events : List SessionDomainEvent) (agent : String) : List LifecycleEvent :=
  events.flatMap (routedTo w.id agent w.state)

/-- Every resident agent is told what the batch puts in its log. -/
def recordLifecycle (w : World) (events : List SessionDomainEvent) : World :=
  { w with
    residents := w.residents.map fun r => { r with mailbox := r.mailbox ++ w.records events r.id } }

def handle (w : World) (acts : List Act) : World := (w.perform acts).recordLifecycle (batch acts)

def write (w : World) (agent : String) (log : List LifecycleEvent) : World :=
  { w with logs := Function.update w.logs agent log }

def step? (w : World) : Label → Option World
  | .handle acts => some (w.handle acts)
  | .record agent =>
    match w.resident? agent with
    | some ⟨_, ready, event :: rest⟩ =>
      let r : Resident := ⟨agent, (runtimeReadiness event).getD ready, rest⟩
      some { w.write agent (w.logs agent ++ [event]) with
        residents := w.residents.map fun s => if s.id = agent then r else s }
    | some ⟨_, _, []⟩ | none => none
  | .seed agent cut =>
    match w.state.forest.entry agent with
    | some ⟨some parent, .subSession run⟩ =>
      -- A history that is there already is not replaced.
      if run.seed = .copy ∧ w.logs agent = [] then
        some (w.write agent ((w.logs parent).take cut))
      else none
    | some ⟨_, _⟩ | none => none
  | .unload => some { w with residents := [] }

end World

/-- The session `id`, from before it is told what it is. -/
def hosting (id : String) : System World Label := .ofStep? (.init id) World.step?

end Horsie.Session
