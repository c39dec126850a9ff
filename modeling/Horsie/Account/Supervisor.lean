import Horsie.Lib.Transition
import Horsie.Session.Title

/-!
# The supervisor of an account and its sessions

The supervisor holds the list of an account's sessions and passes commands on to them. It and every
session handle one command at a time. Two handlers wait for the other side: the supervisor waits
for a session it deletes or unloads, a session for the supervisor that records its title.
-/

namespace Horsie.Account

open Lib Session

/-! ## Commands -/

abbrev Handler := SessionState → List SessionDomainEvent

structure UserMessage where
  agent : Option String
  text : String
  advance : Handler

inductive SessionCommand
  /-- What the session is, with its first message. `provision` starts its runtime. -/
  | create (spec : SessionSpec) (name : Option String) (message : Option UserMessage)
      (provision : Handler)
  | userMessage (message : UserMessage)
  | setTitle (title : String)
  | titleSet (name : String)
  | prepareOffload
  | delete
  | other (handler : Handler)

namespace SessionCommand

def isRequest : SessionCommand → Bool
  | .prepareOffload | .delete => true
  | .create _ _ _ _ | .userMessage _ | .setTitle _ | .titleSet _ | .other _ => false

/-- The title the handler asks the supervisor to record. It waits for the answer. -/
def asks (s : SessionState) : SessionCommand → Option String
  | .userMessage m => s.titleFromFirstMessage m.agent m.text
  | .setTitle title => s.titleFromTool title
  | .create _ _ _ _ | .titleSet _ | .prepareOffload | .delete | .other _ => none

/-- What is journaled, a title that was asked for apart. A session that was not told what it is
refuses all but that. -/
def journals (id : String) (s : SessionState) : SessionCommand → List SessionDomainEvent
  | .create spec name _ _ =>
    if s.spec.isSome then [] else .specRecorded id spec :: name.toList.map .renamed
  | .userMessage m => if s.takes m.agent m.text then m.advance s else []
  | .titleSet name => if s.spec.isSome then [.renamed name] else []
  | .other handler => if s.spec.isSome then handler s else []
  | .setTitle _ | .prepareOffload | .delete => []

/-- What the handler sends to its own mailbox: the rest of a create. -/
def sends (s : SessionState) : SessionCommand → List SessionCommand
  | .create _ _ message provision =>
    (if s.spec.isSome then [] else [.other provision]) ++
      message.toList.map fun m => .userMessage { m with agent := none }
  | .userMessage _ | .setTitle _ | .titleSet _ | .prepareOffload | .delete | .other _ => []

end SessionCommand

inductive SessionStatus
  | provisioning
  | idle
  | running
  | finished
  | awaitingInput
  | failed (reason : String)
  | provisioningFailed (reason : String)
  | unrecoverable (reason : String)
deriving DecidableEq

/-- Whether a session must not be unloaded for being idle. -/
def SessionStatus.isWorking : SessionStatus → Bool
  | .running | .provisioning => true
  | .idle | .finished | .awaitingInput | .failed _ | .provisioningFailed _
  | .unrecoverable _ => false

inductive SupervisorCommand
  | create (id : String) (spec : SessionSpec) (name : Option String)
      (message : Option UserMessage) (provision : Handler)
  | userMessage (id : String) (message : UserMessage)
  /-- A read, a stop, an answer or a retry, answered off the mailbox. -/
  | relay (id : String) (handler : Handler)
  | delete (id : String)
  | tick
  | shutdown
  | sessionStatusChanged (id : String) (status : SessionStatus)
  | renameSession (id name : String)
  | setSessionTitle (id name : String)
  | publishSessionTitle (id name : String)

/-! ## States -/

/-- A session, loaded or not: an unloaded one is loaded by its next command. -/
structure SessionActor where
  state : SessionState
  mailbox : List SessionCommand
  asking : Option SessionCommand

namespace SessionActor

def cold : SessionActor := ⟨.empty, [], none⟩

def push (a : SessionActor) (c : SessionCommand) : SessionActor :=
  { a with mailbox := a.mailbox ++ [c] }

/-- The supervisor recorded the title the session waits for. -/
def acknowledged (a : SessionActor) (id name : String) : SessionActor :=
  match a.asking with
  | some c =>
    let titled := a.state.applyEvent (.renamed name)
    { a with state := titled.applyAll (c.journals id titled), asking := none }
  | none => a

/-- The answer to a request. A session that was not told what it is drops the request. -/
def answer (a : SessionActor) : SessionCommand → Option Bool
  | .prepareOffload => if a.state.spec.isSome then some !a.state.busy else none
  | .delete => if a.state.spec.isSome then some true else none
  | .create _ _ _ _ | .userMessage _ | .setTitle _ | .titleSet _ | .other _ => none

/-- A session that agreed to unload or deleted itself stops, and drops its mailbox. -/
def answered (a : SessionActor) (rest : List SessionCommand) (answer : Option Bool) :
    SessionActor :=
  { a with mailbox := if answer = some true then [] else rest }

end SessionActor

structure SessionRecord where
  name : Option String
  status : SessionStatus
deriving DecidableEq

/-- Why sessions are unloaded. -/
inductive Sweep
  /-- They were idle at `now`. -/
  | offload (now : ℕ)
  | shutdown
deriving DecidableEq

/-- What the supervisor waits for: the end of one session, and of a sweep the sessions after it. -/
inductive Errand
  | delete (id : String)
  | sweep (why : Sweep) (id : String) (rest : List String)
deriving DecidableEq

namespace Errand

def session : Errand → String
  | .delete id | .sweep _ id _ => id

def request : Errand → SessionCommand
  | .delete _ => .delete
  | .sweep _ _ _ => .prepareOffload

end Errand

/-- Where the supervisor's handler stands. -/
inductive Phase
  | idle
  | waiting (errand : Errand)
  | answered (errand : Errand) (answer : Option Bool)
deriving DecidableEq

structure World where
  registry : Map String SessionRecord
  lastActivity : Map String ℕ
  inbox : List SupervisorCommand
  phase : Phase
  sessions : String → SessionActor

namespace World

def init : World := ⟨∅, ∅, [], .idle, fun _ => .cold⟩

def knows (w : World) (id : String) : Bool := (w.registry.lookup id).isSome

def resident (w : World) (id : String) : Bool := (w.lastActivity.lookup id).isSome

def setSession (w : World) (id : String) (a : SessionActor) : World :=
  { w with sessions := Function.update w.sessions id a }

def tell (w : World) (id : String) (c : SessionCommand) : World :=
  w.setSession id ((w.sessions id).push c)

/-- A note that the session has just been spoken to. -/
def reach (w : World) (now : ℕ) (id : String) : World :=
  { w with lastActivity := w.lastActivity.insert id now }

def forget (w : World) (id : String) : World :=
  { w with lastActivity := w.lastActivity.erase id }

def rename (w : World) (id name : String) : World :=
  { w with registry := w.registry.adjust id fun r => { r with name := some name } }

/-! ## The handlers of the supervisor -/

/-- A request is sent, and its answer waited for. -/
def await (w : World) (errand : Errand) : World :=
  { w.tell errand.session errand.request with phase := .waiting errand }

/-- A sweep goes on with the first session that is still resident, to reach none that is not. -/
def sweep (w : World) (why : Sweep) : List String → World
  | [] => { w with phase := .idle }
  | id :: rest => if w.resident id then w.await (.sweep why id rest) else w.sweep why rest

/-- The sessions that have been idle for `timeout`, by their ids. -/
def candidates (w : World) (timeout now : ℕ) : List String :=
  let idle := w.lastActivity.toPairs.filter fun (id, last) =>
    !(w.registry.lookup id).any (·.status.isWorking) && timeout ≤ now - last
  (idle.map (·.1)).insertionSort (· ≤ ·)

def loaded (w : World) : List String := w.lastActivity.keys.insertionSort (· ≤ ·)

def supervise (w : World) (timeout now : ℕ) : SupervisorCommand → World
  | .create id spec name message provision =>
    let w := (w.reach now id).tell id (.create spec name message provision)
    { w with registry := w.registry.insert id ⟨name, .provisioning⟩ }
  | .userMessage id m => if w.knows id then (w.reach now id).tell id (.userMessage m) else w
  | .relay id handler => if w.knows id then (w.reach now id).tell id (.other handler) else w
  | .delete id => if w.knows id then (w.reach now id).await (.delete id) else w
  | .tick => w.sweep (.offload now) (w.candidates timeout now)
  | .shutdown => w.sweep .shutdown w.loaded
  | .sessionStatusChanged id status =>
    { w with registry := w.registry.adjust id fun r => { r with status } }
  | .renameSession id name =>
    -- acknowledged once the name is written: the session goes on, and has it published
    let w := (w.rename id name).setSession id ((w.sessions id).acknowledged id name)
    { w with inbox := w.inbox ++ [.publishSessionTitle id name] }
  | .setSessionTitle id name =>
    match normalizeSessionTitle name with
    | .error _ => w
    | .ok title =>
      if w.knows id then
        (if w.resident id then w.tell id (.titleSet title) else w).rename id title
      else w
  | .publishSessionTitle _ _ => w

/-- What an answer leaves of the session. One that refused to unload has its clock restarted. -/
def settle (w : World) : Errand → Option Bool → World
  | .delete id, _ => { w.forget id with registry := w.registry.erase id }
  | .sweep (.offload now) id _, some false => w.reach now id
  | .sweep _ id _, _ => w.forget id

def proceed (w : World) (errand : Errand) (answer : Option Bool) : World :=
  match errand with
  | .delete _ => { w.settle errand answer with phase := .idle }
  | .sweep why _ rest => (w.settle errand answer).sweep why rest

/-! ## The handlers of a session -/

/-- An answer reaches the supervisor if it waits for this session. -/
def reply (w : World) (id : String) (answer : Option Bool) : World :=
  match w.phase with
  | .waiting errand =>
    if errand.session = id then { w with phase := .answered errand answer } else w
  | .idle | .answered _ _ => w

def serve (w : World) (id : String) (c : SessionCommand) (rest : List SessionCommand) : World :=
  let a := w.sessions id
  match c.asks a.state with
  | some title =>
    { w.setSession id { a with mailbox := rest, asking := some c } with
      inbox := w.inbox ++ [.renameSession id title] }
  | none =>
    if c.isRequest then (w.setSession id (a.answered rest (a.answer c))).reply id (a.answer c)
    else
      w.setSession id
        { a with
          state := a.state.applyAll (c.journals id a.state)
          mailbox := rest ++ c.sends a.state }

end World

/-! ## Steps -/

inductive Label
  /-- Anyone sends the supervisor a command, but only a session asks it to record a title. -/
  | command (c : SupervisorCommand)
  | send (id : String) (c : SessionCommand)
  | supervise (now : ℕ)
  | proceed
  | session (id : String)

namespace World

def step? (timeout : ℕ) (w : World) : Label → Option World
  | .command c =>
    match c with
    | .renameSession _ _ => none
    | _ => some { w with inbox := w.inbox ++ [c] }
  | .send id c => if c.isRequest then none else some (w.tell id c)
  | .supervise now =>
    match w.phase, w.inbox with
    | .idle, c :: rest => some ({ w with inbox := rest }.supervise timeout now c)
    | _, _ => none
  | .proceed =>
    match w.phase with
    | .answered errand answer => some (w.proceed errand answer)
    | .idle | .waiting _ => none
  | .session id =>
    match (w.sessions id).asking, (w.sessions id).mailbox with
    | none, c :: rest => some (w.serve id c rest)
    | _, _ => none

end World

/-- An account whose sessions are idle after `timeout`. -/
def account (timeout : ℕ) : System World Label := System.ofStep? .init (World.step? timeout)

end Horsie.Account
