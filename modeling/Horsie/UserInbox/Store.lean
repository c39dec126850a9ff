import Horsie.Lib.Table
import Horsie.Lib.Text
import Mathlib.Data.Int.Basic

/-!
# The user's inbox

What agents have addressed to the person steering them: notices, and the questions agents are
parked on. A row of a question names the call it answers, and no two rows of an agent name the
same. Every statement is one transaction.
-/

namespace Horsie.UserInbox

open Horsie.Lib

/-- The tool result a declined question is answered with. -/
def agentDeclinedAsk : String :=
  "The user declined to answer this question. Continue without an answer, using your own " ++
    "judgement, and say what you assumed."

inductive MessageKind
  | notice
  | ask
deriving DecidableEq

inductive InboxState
  | open_
  | answered
  | declined
  | closed
deriving DecidableEq

/-- One message, with the `resolved_at` no reader asks for. -/
structure InboxRow where
  id : String
  kind : MessageKind
  state : InboxState
  sessionId : String
  agentId : String
  title : String
  body : String
  choices : List String
  multiple : Bool
  toolCallId : Option String
  createdAt : ℤ
  readAt : Option ℤ
  resolvedAt : Option ℤ
  ask_of_call : toolCallId.isSome = true → kind = .ask
deriving DecidableEq

namespace InboxRow

def isAsk (row : InboxRow) : Bool := decide (row.kind = .ask)

def isOpen (row : InboxRow) : Bool := decide (row.state = .open_)

def isOf (session agent : String) (row : InboxRow) : Bool :=
  decide (row.sessionId = session) && decide (row.agentId = agent)

def isOpenAsk (session agent : String) (row : InboxRow) : Bool :=
  row.isOf session agent && row.toolCallId.isSome && row.isOpen

def settle (state : InboxState) (atMs : ℤ) (row : InboxRow) : InboxRow :=
  { row with state := state, resolvedAt := some atMs }

def read (atMs : ℤ) (row : InboxRow) : InboxRow := { row with readAt := some atMs }

end InboxRow

structure NoticeRow where
  sessionId : String
  agentId : String
  title : String
  body : String
deriving DecidableEq

/-- A question an agent is parked on. -/
structure AskRow where
  sessionId : String
  agentId : String
  question : String
  choices : List String
  multiple : Bool
  toolCallId : String
deriving DecidableEq

def maxTitle : ℕ := 80

def titleOf (question : String) : String :=
  let line := trim ((lines question).headD question)
  if line.length ≤ maxTitle then line
  else trimEnd (String.ofList (line.toList.take maxTitle)) ++ "…"

def NoticeRow.row (notice : NoticeRow) (id : String) (atMs : ℤ) : InboxRow where
  id := id
  kind := .notice
  state := .open_
  sessionId := notice.sessionId
  agentId := notice.agentId
  title := notice.title
  body := notice.body
  choices := []
  multiple := false
  toolCallId := none
  createdAt := atMs
  readAt := none
  resolvedAt := none
  ask_of_call h := absurd h Bool.false_ne_true

def AskRow.row (ask : AskRow) (id : String) (atMs : ℤ) : InboxRow where
  id := id
  kind := .ask
  state := .open_
  sessionId := ask.sessionId
  agentId := ask.agentId
  title := titleOf ask.question
  body := ask.question
  choices := ask.choices
  multiple := ask.multiple
  toolCallId := some ask.toolCallId
  createdAt := atMs
  readAt := none
  resolvedAt := none
  ask_of_call _ := rfl

/-! ## The table -/

/-- What no two rows share: the id, and the call of a question. -/
inductive InboxKey
  | id (id : String)
  | call (session agent toolCall : String)
deriving DecidableEq

def idKey (row : InboxRow) : InboxKey := .id row.id

def callKey (row : InboxRow) : InboxKey :=
  match row.toolCallId with
  | some call => .call row.sessionId row.agentId call
  | none => .id row.id

def inboxKeys : List (InboxRow → InboxKey) := [idKey, callKey]

abbrev Inbox := Table InboxRow InboxKey inboxKeys

theorem inboxKeys_set {f : InboxRow → InboxRow} (hid : ∀ r, (f r).id = r.id)
    (hsession : ∀ r, (f r).sessionId = r.sessionId) (hagent : ∀ r, (f r).agentId = r.agentId)
    (hcall : ∀ r, (f r).toolCallId = r.toolCallId) : ∀ key ∈ inboxKeys, ∀ r, key (f r) = key r := by
  simp only [inboxKeys, List.forall_mem_cons]
  refine ⟨fun r => congrArg InboxKey.id (hid r), fun r => ?_, fun _ h => absurd h List.not_mem_nil⟩
  unfold callKey
  rw [hid, hsession, hagent, hcall]

namespace Inbox

variable (t : Inbox)

def recordNotice (notice : NoticeRow) (id : String) (atMs : ℤ) : Option Inbox :=
  t.insert? (notice.row id atMs)

/-- Put questions in the inbox, each under the id minted for it, skipping any already there. -/
def recordAsks (asks : List (AskRow × String)) (atMs : ℤ) : Option Inbox :=
  asks.foldlM (fun t (ask, id) =>
    if t.rows.any fun row => row.isOf ask.sessionId ask.agentId &&
      decide (row.toolCallId = some ask.toolCallId) then some t
    else t.insert? (ask.row id atMs)) t

/-- `UPDATE inbox_messages SET state = …, resolved_at = … WHERE …`. -/
def settleWhere (p : InboxRow → Bool) (state : InboxState) (atMs : ℤ) : Inbox :=
  t.update p (InboxRow.settle state atMs)
    (inboxKeys_set (fun _ => rfl) (fun _ => rfl) (fun _ => rfl) fun _ => rfl)

/-- Settle one agent's open questions: the calls in `answered` reach `state`, and every other open
question of the agent is closed. -/
def settleAgentAsks (session agent : String) (answered : List String) (state : InboxState)
    (atMs : ℤ) : Inbox :=
  (answered.foldl (fun t call =>
      t.settleWhere (fun row => row.isOf session agent && decide (row.toolCallId = some call) &&
        (decide (row.state = .open_) || decide (row.state = .closed))) state atMs) t).settleWhere
    (InboxRow.isOpenAsk session agent) .closed atMs

def setState (id : String) (state : InboxState) (atMs : ℤ) : Inbox :=
  t.settleWhere (fun row => decide (row.id = id)) state atMs

/-- Rows already read keep their first stamp. -/
def markRead (ids : List String) (atMs : ℤ) : Inbox :=
  ids.foldl (fun t id =>
    t.update (fun row => decide (row.id = id) && row.readAt.isNone) (InboxRow.read atMs)
      (inboxKeys_set (fun _ => rfl) (fun _ => rfl) (fun _ => rfl) fun _ => rfl)) t

def getMany (ids : List String) : List InboxRow := t.rows.filter fun row => decide (row.id ∈ ids)

def remove (ids : List String) : Inbox := t.delete fun row => decide (row.id ∈ ids)

/-- Close every question of a session whose agent is not among those `awaiting`. -/
def reconcileSession (session : String) (awaiting : List String) (atMs : ℤ) : Inbox :=
  t.settleWhere (fun row => decide (row.sessionId = session) && row.toolCallId.isSome &&
    row.isOpen && decide (row.agentId ∉ awaiting)) .closed atMs

def forgetSession (session : String) : Inbox := t.delete fun row => decide (row.sessionId = session)

end Inbox

end Horsie.UserInbox
