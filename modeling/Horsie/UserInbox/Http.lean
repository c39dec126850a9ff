import Horsie.Agent.Actor
import Horsie.Lib.Handler
import Horsie.UserInbox.Store

/-!
# Answering from the inbox

What a reply to a message does, and a deletion. A question is an agent that has stopped, so its
agent is told first, through the way every answer takes, and the row is settled after. Each
statement, and each question to the supervisor, may fail on the way there or on the way back, and
agents and other requests go on in between.
-/

namespace Horsie.UserInbox

open Horsie.Lib Horsie.Agent

/-- A failure, as it is answered over HTTP. -/
inductive Api
  | unprocessable (message : String)
  | notFound (message : String)
  | conflict (code message : String)
  | internal (message : String)
  | unavailable (message : String)
deriving DecidableEq

def answerErrorText : AnswerError → String
  | .nothingPending => "this agent is not waiting on an answer"
  | .incomplete missing unexpected =>
    "every pending question must be answered together (missing: [" ++ ", ".intercalate missing ++
      "]; not pending: [" ++ ", ".intercalate unexpected ++ "])"

/-- The agents a session resolves, by the id the inbox has for them. -/
abbrev Agents := String → String → Option (AgentActor × AgentState)

/-- What a request runs on. -/
structure Desk where
  inbox : Inbox
  agents : Agents

/-- What becomes of one call: it comes back, or it fails before it does anything, or after. -/
inductive Fault
  | none
  | lost (error : Api)
  | unheard (error : Api)
deriving DecidableEq

/-- A call of a request, and what agents and other requests do before it. -/
structure Call where
  fault : Fault
  meanwhile : Desk → Desk

/-- A desk, and what becomes of the next calls. -/
structure Serving where
  desk : Desk
  calls : List Call

abbrev Handler (α : Type) := EStateM Api Serving α

namespace Desk

variable (d : Desk)

def pendingCalls (session agent : String) : List String :=
  ((d.agents session agent).map fun x => x.2.asks.filterMap (·.toolCallId)).getD []

def move (session agent : String) (a : AgentActor) (state : AgentState) : Desk :=
  { d with
    agents := Function.update d.agents session
      (Function.update (d.agents session) agent (some (a, state))) }

def store (f : Inbox → Inbox) : Desk := { d with inbox := f d.inbox }

def answer (env : Env) (session agent : String) (answers : List AskAnswer) :
    Except AnswerError Unit × Desk :=
  match d.agents session agent with
  | none => (.error .nothingPending, d)
  | some (a, state) =>
    let e := a.handleQueue env state (.answer answers)
    let told := d.move session agent e.actor (state.applyAll e.events)
    match e.replies with
    | .answer result :: _ => (result, told)
    | _ => (.error .nothingPending, told)

end Desk

/-- A call that may fail on its way. -/
def attempt {α : Type} (act : Desk → α × Desk) : Handler α := fun w =>
  match w.calls with
  | [] => .ok (act w.desk).1 ⟨(act w.desk).2, []⟩
  | ⟨fault, meanwhile⟩ :: rest =>
    let desk := meanwhile w.desk
    match fault with
    | .none => .ok (act desk).1 ⟨(act desk).2, rest⟩
    | .lost error => .error error ⟨desk, rest⟩
    | .unheard error => .error error ⟨(act desk).2, rest⟩

def write (f : Inbox → Inbox) : Handler Unit := attempt fun d => ((), d.store f)

section

variable (env : Env)
  (userMessage : Agents → (session agent text : String) → Except String Unit × Agents)

/-- Send answers to a parked agent and record what they were. -/
def answer (row : InboxRow) (answers : List AskAnswer) (outcome : InboxState) : Handler Unit := do
  let ids := answers.map (·.toolCallId)
  match ← attempt (·.answer env row.sessionId row.agentId answers) with
  | .error e => throw (.unprocessable (answerErrorText e))
  | .ok () => write (·.settleAgentAsks row.sessionId row.agentId ids outcome env.now)

/-- Tell the agent nobody is going to answer. -/
def decline (row : InboxRow) : Handler Unit :=
  match row.toolCallId with
  | none => pure ()
  | some toolCallId => answer env row [⟨toolCallId, agentDeclinedAsk⟩] .declined

/-- `POST /api/inbox/delete`. -/
def delete (ids : List String) : Handler Unit := do
  let rows ← attempt fun d => (d.inbox.getMany ids, d)
  (rows.filter fun row => row.isAsk && row.isOpen).forM (decline env)
  write (·.remove ids)

def replyTo (row : InboxRow) (text : String) : Handler Unit :=
  match row.isAsk, row.isOpen with
  | true, true =>
    match row.toolCallId with
    | none => throw (.unprocessable
        "this question predates answerable asks and can only be answered in its session")
    | some toolCallId => answer env row [⟨toolCallId, text⟩] .answered
  | true, false => throw (.conflict "already-settled"
      "this question has already been dealt with; open the session to say more")
  | false, _ => do
    let sent ← attempt fun d =>
      let (sent, agents) := userMessage d.agents row.sessionId row.agentId text
      (sent, { d with agents := agents })
    match sent with
    | .error e => throw (.conflict "not-delivered" e)
    | .ok () => write (·.setState row.id .answered env.now)

/-- `POST /api/inbox/:id/reply`. -/
def reply (id text : String) : Handler Unit :=
  let text := trim text
  if text.isEmpty then throw (.unprocessable "a reply cannot be empty")
  else do
    let found ← attempt fun d => (d.inbox.getMany [id], d)
    match found with
    | [] => throw (.notFound "no such message")
    | row :: _ => do
      replyTo env userMessage row text
      write (·.markRead [row.id] env.now)

inductive Request
  | reply (id text : String)
  | delete (id : String)
deriving DecidableEq

def Request.id : Request → String
  | .reply id _ | .delete id => id

def Request.serve : Request → Handler Unit
  | .reply id text => UserInbox.reply env userMessage id text
  | .delete id => UserInbox.delete env [id]

end

end Horsie.UserInbox
