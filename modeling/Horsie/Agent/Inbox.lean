import Horsie.Agent.Message
import Mathlib.Data.List.Sort

/-!
# The inbox

What is addressed to an agent, and when it becomes a turn. `queuedTurn` decides whether the queue
may start a turn and what that turn carries; `answeredTurn` is the turn an answered park starts.
Both drain the whole queue.
-/

namespace Horsie.Agent

def mergeSeparator : String := "\n\n"

/-- The tool result recorded for a question the user walked away from. -/
def abandonedAskResult : String := "not answered — the user sent a new message instead"

/-- One accepted-but-undelivered thing addressed to an agent. -/
inductive Incoming
  | user (id text : String) (artifacts : List ArtifactRef)
  | subAgent (id : String) (part : SubAgentResultPart)
  | timer (id message : String)
  | continue_ (id reason : String)
  | compact (id : String) (instructions : Option String)
  | subSession (id : String) (subSession : String)
deriving DecidableEq

namespace Incoming

def id : Incoming → String
  | .user id _ _ | .subAgent id _ | .timer id _ | .continue_ id _ | .compact id _
  | .subSession id _ => id

/-- Whether this is a person speaking, which alone may override a park. -/
def isUser : Incoming → Bool
  | .user _ _ _ => true
  | .subAgent _ _ | .timer _ _ | .continue_ _ _ | .compact _ _ | .subSession _ _ => false

/-- What this item contributes to the turn's user message. -/
def text : Incoming → Option String
  | .user _ text _ => some text
  | .timer _ message => some message
  | .continue_ _ reason => some reason
  | .subAgent _ _ | .compact _ _ | .subSession _ _ => none

/-- What a person attached to this item. -/
def artifacts : Incoming → List ArtifactRef
  | .user _ _ as => as
  | .subAgent _ _ | .timer _ _ | .continue_ _ _ | .compact _ _ | .subSession _ _ => []

def report? : Incoming → Option SubAgentResultPart
  | .subAgent _ part => some part
  | .user _ _ _ | .timer _ _ | .continue_ _ _ | .compact _ _ | .subSession _ _ => none

def subSession? : Incoming → Option String
  | .subSession _ s => some s
  | .user _ _ _ | .subAgent _ _ | .timer _ _ | .continue_ _ _ | .compact _ _ => none

/-- The focus instructions of a typed `/compact`. -/
def compact? : Incoming → Option (Option String)
  | .compact _ instructions => some instructions
  | .user _ _ _ | .subAgent _ _ | .timer _ _ | .continue_ _ _ | .subSession _ _ => none

end Incoming

structure AskedQuestion where
  toolCallId : Option String
  question : String
  choices : List String
  multiple : Bool
deriving DecidableEq

/-- A summary a turn was asked for, and what becomes of it. -/
inductive Summarise
  | compact (instructions : Option String)
  | subSession (subSessions : List String)
deriving DecidableEq

/-- Everything an agent is about to be resumed with, and what that consumes. -/
structure Turn where
  consumed : List String
  summarise : Option Summarise
  answered : List String
  message : Option String
  artifacts : List ArtifactRef
  subagentResults : List SubAgentResultPart
  results : List ToolResultInput
deriving DecidableEq

structure AskAnswer where
  toolCallId : String
  text : String
deriving DecidableEq

/-- Why a set of answers was refused. -/
inductive AnswerError
  | nothingPending
  | incomplete (missing unexpected : List String)
deriving DecidableEq

/-- The one summary this turn takes: sub sessions win over a queued `/compact`, and the newest
`/compact` over the older ones. -/
def summarise (inbox : List Incoming) : Option Summarise :=
  let subSessions := inbox.filterMap Incoming.subSession?
  if !subSessions.isEmpty then
    some (.subSession subSessions)
  else
    (inbox.reverse.findSome? Incoming.compact?).map .compact

/-- Fold the whole queue into one turn's input. -/
def drain (inbox : List Incoming) : Turn :=
  let texts := inbox.filterMap Incoming.text
  { consumed := inbox.map Incoming.id
    summarise := summarise inbox
    answered := []
    message := if !texts.isEmpty then some (mergeSeparator.intercalate texts) else none
    artifacts := inbox.flatMap Incoming.artifacts
    subagentResults := inbox.filterMap Incoming.report?
    results := [] }

def queuedTurn (inbox : List Incoming) (asks : List AskedQuestion) : Option Turn :=
  if inbox.isEmpty then
    none
  else if !asks.isEmpty && !inbox.any Incoming.isUser then
    none
  else
    some { drain inbox with
      results := (asks.filterMap (·.toolCallId)).map fun id => ⟨id, abandonedAskResult, true, []⟩ }

/-- The turn an answered park starts, refused unless the answers cover the pending questions
exactly. Both sides are compared as sets. -/
def answeredTurn (inbox : List Incoming) (asks : List AskedQuestion) (answers : List AskAnswer) :
    Except AnswerError Turn :=
  let pending := asks.filterMap (·.toolCallId)
  if pending.isEmpty then
    .error .nothingPending
  else
    let answered := answers.map (·.toolCallId)
    let missing := (pending.filter (· ∉ answered)).dedup
    let unexpected := (answered.filter (· ∉ pending)).dedup
    if !missing.isEmpty || !unexpected.isEmpty then
      .error (.incomplete (missing.mergeSort (· ≤ ·)) (unexpected.mergeSort (· ≤ ·)))
    else
      .ok { drain inbox with
        answered := answered
        results := answers.map fun a => ⟨a.toolCallId, a.text, false, []⟩ }

variable {asks : List AskedQuestion} {inbox : List Incoming}

theorem queuedTurn_isSome :
    (queuedTurn inbox asks).isSome ↔ inbox ≠ [] ∧ (asks = [] ∨ ∃ i ∈ inbox, i.isUser) := by
  unfold queuedTurn
  by_cases hi : inbox = []
  · simp [hi]
  by_cases ha : asks = []
  · simp [hi, ha]
  · by_cases hu : inbox.any Incoming.isUser
    · simp [hi, ha, hu, List.any_eq_true.mp hu]
    · simp [hi, ha, hu]
      simpa using hu

theorem queuedTurn_eq_some {turn : Turn}
    (h : queuedTurn inbox asks = some turn) :
    turn = { drain inbox with
      results := (asks.filterMap (·.toolCallId)).map fun id =>
        ⟨id, abandonedAskResult, true, []⟩ } := by
  unfold queuedTurn at h
  split_ifs at h
  exact (Option.some.inj h).symm

/-- An accepted set of answers makes the drained queue, with one result for each answer. -/
theorem answeredTurn_eq_ok
    {answers : List AskAnswer} {turn : Turn} (h : answeredTurn inbox asks answers = .ok turn) :
    turn = { drain inbox with
      answered := answers.map (·.toolCallId)
      results := answers.map fun a => ⟨a.toolCallId, a.text, false, []⟩ } := by
  unfold answeredTurn at h
  dsimp only at h
  split_ifs at h
  exact (Except.ok.inj h).symm

end Horsie.Agent
