import Horsie.Lib.Transition

/-!
# A runtime's connection

Any number of agents share one connection to a runtime. A request goes through four tables, all of
them keyed by its call id: the calls in flight (`InFlight`), the waiters of the transport
(`pending`), the tasks the runtime can abort (`handles`), and what the reconciler has in mind from
one round to the next. The messages between them are handled in any order, and any of them may be
lost.

A relay is one request; the model numbers them, the code does not. `Relay.reply` is the one-shot
channel its caller waits on.
-/

namespace Horsie.RuntimeHost

open Horsie.Lib

/-- What a relay's caller gets. `reply k` is the runtime's reply to the request of relay `k`. -/
inductive Resolution
  | reply (relay : ℕ)
  | cancelled
  | disconnected
  | sendFailed
  | dropped
deriving DecidableEq

/-- Where a relay's caller stands: the call is tracked, its waiter is registered, its request is
published, its result is there, its call is no longer tracked. -/
inductive Stage
  | tracked
  | registered
  | awaiting
  | resolved (r : Resolution)
  | finished (r : Resolution)
deriving DecidableEq

structure Relay where
  agent : String
  callId : String
  stage : Stage
  /-- What was sent to the waiting end of its channel, or that the sending end is gone. -/
  reply : Option Resolution
deriving DecidableEq

/-- The caller has not untracked the call. -/
def Relay.open : Relay → Bool
  | ⟨_, _, .finished _, _⟩ => false
  | _ => true

inductive Inbound
  | request (relay : ℕ) (callId : String)
  | cancel (callId : String)
deriving DecidableEq

inductive Outbound
  | answer (relay : ℕ) (callId : String)
  | cancelled (callId : String)
deriving DecidableEq

def Inbound.callId : Inbound → String
  | request _ callId | cancel callId => callId

def Outbound.callId : Outbound → String
  | answer _ callId | cancelled callId => callId

/-- A task of the runtime, up to the removal of its handle. -/
structure Task where
  relay : ℕ
  callId : String
  replied : Bool
deriving DecidableEq

structure World where
  relays : List Relay
  /-- `InFlight`: who issued each outstanding call. -/
  inFlight : String → Option String
  pending : String → Option ℕ
  inbound : List Inbound
  spawned : Option (String × ℕ)
  tasks : List Task
  handles : String → Option ℕ
  outbound : List Outbound
  cancelling : List String
  reported : List String
  /-- Calls the reconciler may give up, with the relays that were outstanding under them. -/
  watched : List (String × List ℕ)
  /-- Relays whose own caller, agent, frames or connection gave up on them. -/
  excused : List ℕ

namespace World

def init : World where
  relays := []
  inFlight _ := none
  pending _ := none
  inbound := []
  spawned := none
  tasks := []
  handles _ := none
  outbound := []
  cancelling := []
  reported := []
  watched := []
  excused := []

/-! ## Channels -/

/-- A channel takes one value, and no more once its sending end is gone. -/
def Relay.fill (r : Resolution) (relay : Relay) : Relay :=
  { relay with reply := relay.reply.or (some r) }

/-- What happens to the channel of a waiter's relay. -/
def fill (w : World) (holder : Option ℕ) (r : Resolution) : World :=
  { w with
    relays := w.relays.mapIdx fun i relay => if holder = some i then Relay.fill r relay else relay }

def setStage (w : World) (i : ℕ) (stage : Stage) : World :=
  { w with relays := w.relays.modify i ({ · with stage }) }

/-- Put a waiter in place of another, whose sending end is dropped with it, or remove one. -/
def setPending (w : World) (callId : String) (waiter : Option ℕ) : World :=
  { w with pending := Function.update w.pending callId waiter }.fill (w.pending callId)
    .disconnected

/-- The relays under an id that are not over. -/
def outstanding (w : World) (callId : String) : List ℕ :=
  (List.range w.relays.length).filter fun i =>
    (w.relays[i]?).any fun relay => decide (relay.callId = callId) && relay.open

/-! ## Steps -/

inductive Label
  /-- `track`, for a new request. -/
  | request (agent callId : String)
  | register (i : ℕ)
  | publish (i : ℕ) (sent : Bool)
  | wake (i : ℕ)
  | untrack (i : ℕ)
  | drop (i : ℕ)
  /-- `cancel_in_flight` of an agent reads one of its calls. -/
  | cancelOwn (agent callId : String)
  | cancelOrphan (callId : String)
  | sendCancel (callId : String)
  /-- The runtime takes a message; `refuse` is for a request of an agent it was not given. -/
  | receive (k : ℕ) (refuse : Bool)
  /-- The runtime's loop registers the task it spawned. -/
  | insertHandle
  | reply (k : ℕ)
  | finish (k : ℕ)
  | deliver (k : ℕ)
  | loseInbound (k : ℕ)
  | loseOutbound (k : ℕ)
  | report (callId : String)
  | watch (callId : String)
  | abandon (callId : String)
  | forget (callId : String)
  /-- The connection closes: every waiter is resolved. -/
  | disconnect
deriving DecidableEq

def Inbound.relays : Inbound → List ℕ
  | .request i _ => [i]
  | .cancel _ => []

def Outbound.relays : Outbound → List ℕ
  | .answer i _ => [i]
  | .cancelled _ => []

/-- The runtime takes a message. -/
def receive (w : World) (refuse : Bool) : Inbound → World
  | .request i callId =>
    if refuse then { w with outbound := w.outbound ++ [.answer i callId] }
    else { w with tasks := w.tasks ++ [⟨i, callId, false⟩], spawned := some (callId, i) }
  | .cancel callId =>
    { w with
      tasks := w.tasks.filter fun task => decide (w.handles callId ≠ some task.relay)
      handles := Function.update w.handles callId none
      outbound := w.outbound ++ [.cancelled callId] }

def Outbound.resolution : Outbound → Resolution
  | .answer i _ => .reply i
  | .cancelled _ => .cancelled

/-- The reader hands a reply to the waiter of its id, or drops it. -/
def deliver (w : World) (message : Outbound) : World :=
  { w with pending := Function.update w.pending message.callId none }.fill
    (w.pending message.callId) (Outbound.resolution message)

def step? (w : World) : Label → Option World
  | .request agent callId =>
    some
      { w with
        relays := w.relays ++ [⟨agent, callId, .tracked, none⟩]
        inFlight := Function.update w.inFlight callId (some agent) }
  | .register i =>
    match w.relays[i]? with
    | some ⟨_, callId, .tracked, _⟩ =>
      some ((w.setPending callId (some i)).setStage i .registered)
    | _ => none
  | .publish i sent =>
    match w.relays[i]? with
    | some ⟨_, callId, .registered, _⟩ =>
      if sent then
        some { w.setStage i .awaiting with inbound := w.inbound ++ [.request i callId] }
      else
        some
          { (w.setPending callId none).setStage i (.resolved .sendFailed) with
            excused := i :: w.excused }
    | _ => none
  | .wake i =>
    match w.relays[i]? with
    | some ⟨_, _, .awaiting, some r⟩ => some (w.setStage i (.resolved r))
    | _ => none
  | .untrack i =>
    match w.relays[i]? with
    | some ⟨_, callId, .resolved r, _⟩ =>
      some
        { w.setStage i (.finished r) with inFlight := Function.update w.inFlight callId none }
    | _ => none
  | .drop i =>
    match w.relays[i]? with
    | some relay =>
      if relay.open then
        some { w.setStage i (.finished .dropped) with excused := i :: w.excused }
      else none
    | none => none
  | .cancelOwn agent callId =>
    if w.inFlight callId = some agent then
      some
        { w with
          cancelling := callId :: w.cancelling
          excused := (w.outstanding callId).filter (fun i =>
            (w.relays[i]?).any fun relay => decide (relay.agent = agent)) ++ w.excused }
    else none
  | .cancelOrphan callId =>
    if callId ∈ w.reported ∧ w.inFlight callId = none then
      some { w with cancelling := callId :: w.cancelling }
    else none
  | .sendCancel callId =>
    if callId ∈ w.cancelling then
      some
        { w with
          cancelling := w.cancelling.erase callId
          inbound := w.inbound ++ [.cancel callId] }
    else none
  | .receive k refuse =>
    match w.inbound[k]? with
    | some message =>
      if w.spawned = none then
        some ({ w with inbound := w.inbound.eraseIdx k }.receive refuse message)
      else none
    | none => none
  | .insertHandle =>
    match w.spawned with
    | some (callId, i) =>
      some { w with spawned := none, handles := Function.update w.handles callId (some i) }
    | none => none
  | .reply k =>
    match w.tasks[k]? with
    | some ⟨i, callId, false⟩ =>
      some
        { w with
          tasks := w.tasks.set k ⟨i, callId, true⟩
          outbound := w.outbound ++ [.answer i callId] }
    | _ => none
  | .finish k =>
    match w.tasks[k]? with
    | some ⟨_, callId, true⟩ =>
      some
        { w with
          tasks := w.tasks.eraseIdx k
          handles := Function.update w.handles callId none }
    | _ => none
  | .deliver k =>
    match w.outbound[k]? with
    | some message => some ({ w with outbound := w.outbound.eraseIdx k }.deliver message)
    | none => none
  | .loseInbound k =>
    match w.inbound[k]? with
    | some message =>
      some
        { w with
          inbound := w.inbound.eraseIdx k
          excused := Inbound.relays message ++ w.excused }
    | none => none
  | .loseOutbound k =>
    match w.outbound[k]? with
    | some message =>
      some
        { w with
          outbound := w.outbound.eraseIdx k
          excused := Outbound.relays message ++ w.excused }
    | none => none
  | .report callId =>
    if (w.handles callId).isSome then some { w with reported := callId :: w.reported } else none
  | .watch callId =>
    if (w.inFlight callId).isSome then
      some { w with watched := (callId, w.outstanding callId) :: w.watched }
    else none
  | .abandon callId =>
    match w.watched.find? fun entry => decide (entry.1 = callId) with
    | some (_, outstanding) =>
      some { w.setPending callId none with excused := outstanding ++ w.excused }
    | none => none
  | .forget callId =>
    some
      { w with
        reported := w.reported.filter fun id => decide (id ≠ callId)
        watched := w.watched.filter fun entry => decide (entry.1 ≠ callId) }
  | .disconnect =>
    some
      { w with
        pending := fun _ => none
        relays := w.relays.mapIdx fun i relay =>
          if w.pending relay.callId = some i then Relay.fill .disconnected relay else relay
        excused := (List.range w.relays.length).filter (fun i =>
          (w.relays[i]?).any fun relay => decide (w.pending relay.callId = some i)) ++ w.excused }

end World

/-- Requests, cancels and replies over one connection. -/
def connection : System World World.Label := .ofStep? .init World.step?

end Horsie.RuntimeHost
