import Horsie.Agent.Hooks
import Horsie.Agent.Inbox
import Horsie.Lib.Text

/-!
# The state of an agent

What folding an agent's events leaves behind: the log everybody reads, the registers beside it
(queue, questions, timers, task list) and the running totals. `AgentState.promptMessages` is the
part of the log the model sees.
-/

namespace Horsie.Agent

/-- Addition of `w`-bit numbers as a release build does it: what overflows is lost. -/
def wrapAdd (w a b : ℕ) : ℕ := (a + b) % 2 ^ w

/-- Addition of `w`-bit numbers that stops at the largest. -/
def satAdd (w a b : ℕ) : ℕ := min (a + b) (2 ^ w - 1)

/-- Multiplication of `w`-bit numbers that stops at the largest. -/
def satMul (w a b : ℕ) : ℕ := min (a * b) (2 ^ w - 1)

/-! ## Timers -/

/-- One-shot fires once and is removed; recurring re-arms by its interval. -/
inductive TimerKind
  | oneShot
  | recurring
deriving DecidableEq

structure TimerRecord where
  id : String
  label : String
  message : String
  kind : TimerKind
  intervalSecs : ℕ
  fireAtUnixMs : ℕ
  fireCount : ℕ
deriving DecidableEq

namespace TimerRecord

/-- Arm a fresh timer firing `afterSecs` seconds from `nowMs`. -/
def arm (id label message : String) (kind : TimerKind) (afterSecs nowMs : ℕ) : TimerRecord where
  id := id
  label := label
  message := message
  kind := kind
  intervalSecs := afterSecs
  fireAtUnixMs := satAdd 64 nowMs (afterSecs * 1000 % 2 ^ 64)
  fireCount := 0

/-- Delay from `nowMs` until this timer should fire. -/
def remaining (t : TimerRecord) (nowMs : ℕ) : ℕ := t.fireAtUnixMs - nowMs

def wakeMessage (t : TimerRecord) (displayCount : ℕ) : String :=
  let notice := "Timer '" ++ t.label ++ "' fired (fire #" ++ toString displayCount ++ ")."
  if t.message.isEmpty then notice else notice ++ "\n\n" ++ t.message

end TimerRecord

/-! ## The task list -/

inductive TaskStatus
  | pending
  | inProgress
  | completed
deriving DecidableEq

namespace TaskStatus

def marker : TaskStatus → String
  | .pending => " "
  | .inProgress => ">"
  | .completed => "x"

def label : TaskStatus → String
  | .pending => "pending"
  | .inProgress => "in_progress"
  | .completed => "completed"

end TaskStatus

structure TaskRecord where
  id : ℕ
  content : String
  status : TaskStatus
deriving DecidableEq

structure TaskListState where
  tasks : List TaskRecord
  nextId : ℕ
deriving DecidableEq

/-- One `task_list` tool call. -/
inductive TaskListAction
  | create (tasks : List String)
  | insert (tasks : List String) (position : Option ℕ)
  | updateStatus (ids : List ℕ) (status : TaskStatus)
  | list
deriving DecidableEq

namespace TaskListState

def default : TaskListState := ⟨[], 1⟩

def done (s : TaskListState) : ℕ := s.tasks.countP (·.status = .completed)

def render (s : TaskListState) : String :=
  if s.tasks.isEmpty then
    "No tasks."
  else
    "Tasks (" ++ toString s.done ++ "/" ++ toString s.tasks.length ++ " done):\n" ++
      "\n".intercalate (s.tasks.map fun t =>
        "[" ++ t.status.marker ++ "] " ++ toString t.id ++ ". " ++ t.content)

def progress (s : TaskListState) : String :=
  "Progress: " ++ toString s.done ++ "/" ++ toString s.tasks.length ++ " complete."

/-- What the model reads after an action: the whole list, or a summary of a small mutation. -/
def renderResult (s : TaskListState) : TaskListAction → String
  | .create _ | .list => s.render
  | .insert tasks _ =>
    let first := s.nextId - tasks.length
    "Inserted task(s) " ++
      ", ".intercalate ((List.range' first (s.nextId - first)).map toString) ++ ". " ++ s.progress
  | .updateStatus ids status =>
    "Task(s) " ++ ", ".intercalate (ids.map toString) ++ " → " ++ status.label ++ ". " ++ s.progress

/-- The records of `contents`, pending and numbered from `first`. -/
def numbered (first : ℕ) (contents : List String) : List TaskRecord :=
  contents.mapIdx fun i content => ⟨first + i, content, .pending⟩

def apply (s : TaskListState) : TaskListAction → Except String TaskListState
  | .create tasks =>
    if tasks.isEmpty then
      .error "'tasks' must not be empty"
    else
      .ok ⟨numbered 1 tasks, tasks.length + 1⟩
  | .insert tasks position =>
    let len := s.tasks.length
    let position := position.getD len
    if tasks.isEmpty then
      .error "'tasks' must not be empty"
    else if position > len then
      .error ("position " ++ toString position ++ " is out of range; list has " ++ toString len ++
        " task(s)")
    else
      .ok ⟨s.tasks.take position ++ numbered s.nextId tasks ++ s.tasks.drop position,
        s.nextId + tasks.length⟩
  | .updateStatus ids status =>
    let missing := ids.filter fun id => !s.tasks.any (·.id = id)
    if ids.isEmpty then
      .error "'ids' must not be empty"
    else if !missing.isEmpty then
      .error ("unknown task id(s): " ++ ", ".intercalate (missing.map toString))
    else
      .ok { s with tasks := s.tasks.map fun t => if t.id ∈ ids then { t with status } else t }
  | .list => .ok s

end TaskListState

/-! ## The log -/

/-- The three states a session's sandbox can be in, as an agent sees them. -/
inductive RuntimeStatus
  | acquiring
  | ready
  | failed
deriving DecidableEq

inductive TurnOutcome
  | ended
  | failed (error : String)
  | stopped
  | interrupted
deriving DecidableEq

/-- Something that happened to the session, recorded in the log of the agent it concerns. -/
inductive LifecycleEvent
  | runtime (status : RuntimeStatus) (detail : Option String)
  | preparing (stage : String) (detail : Option String)
  | messageQueued (id text : String)
  | turnBegan (consumed answered : List String)
  | turnEnded (outcome : TurnOutcome)
  | askRecorded (toolCallId : Option String) (question : String)
  | subAgent (id title status : String)
  | subSession (id : String) (title : Option String) (seed : String)
  | step (index : ℕ) (name status : String)
  | taskList (tasks : List TaskRecord)
  | sessionFailed (reason : String)
  | compactionSkipped (contextTokens : ℕ) (retainTokens : Option ℕ)
deriving DecidableEq

/-- What a lifecycle record says about this agent's runtime, if anything. -/
def runtimeReadiness : LifecycleEvent → Option Bool
  | .runtime .ready _ => some true
  | .runtime .acquiring _ | .runtime .failed _ => some false
  | .sessionFailed _ => some false
  | .preparing _ _ | .messageQueued _ _ | .turnBegan _ _ | .turnEnded _ | .askRecorded _ _
  | .subAgent _ _ _ | .subSession _ _ _ | .compactionSkipped _ _ | .step _ _ _ | .taskList _ =>
    none

inductive CompactionTrigger
  | auto
  | manual
deriving DecidableEq

/-- A point at which older history stopped being shown to the model. -/
structure CompactionEntry where
  summary : String
  carriedState : String
  coversThroughSeq : ℕ
  retainedFromSeq : ℕ
  trigger : CompactionTrigger
  instructions : Option String
  tokensBefore : ℕ
  tokensAfter : ℕ
deriving DecidableEq

inductive AgentLogBody
  | llm (message : Message)
  | hook (entry : HookEntry)
  | lifecycle (event : LifecycleEvent)
  | compaction (entry : CompactionEntry)
deriving DecidableEq

namespace AgentLogBody

/-- This entry's own identity, where it has one. -/
def id : AgentLogBody → Option String
  | .llm m => some m.id
  | .hook h => some h.id
  | .lifecycle _ | .compaction _ => none

def shown? : AgentLogBody → Option Message
  | .llm m => some m
  | .hook h => translate h
  | .lifecycle _ | .compaction _ => none

def isHook : AgentLogBody → Bool
  | .hook _ => true
  | .llm _ | .lifecycle _ | .compaction _ => false

def isLlm : AgentLogBody → Bool
  | .llm _ => true
  | .hook _ | .lifecycle _ | .compaction _ => false

def compaction? : AgentLogBody → Option CompactionEntry
  | .compaction c => some c
  | .llm _ | .hook _ | .lifecycle _ => none

end AgentLogBody

structure AgentLogEntry where
  seq : ℕ
  atMs : ℕ
  body : AgentLogBody
deriving DecidableEq

/-! ## The totals -/

structure UsageTotal where
  inputTokens : ℕ
  outputTokens : ℕ
  cacheCreationTokens : Option ℕ
  cacheReadTokens : Option ℕ
deriving DecidableEq

/-- The sum of a running total and one turn's number, absent while neither was ever reported. -/
def addOptional : Option ℕ → Option ℕ → Option ℕ
  | none, none => none
  | total, delta => some (satAdd 64 (total.getD 0) (delta.getD 0))

namespace UsageTotal

def zero : UsageTotal := ⟨0, 0, none, none⟩

def add (t : UsageTotal) (usage : Usage) : UsageTotal where
  inputTokens := satAdd 64 t.inputTokens usage.inputTokens
  outputTokens := satAdd 64 t.outputTokens usage.outputTokens
  cacheCreationTokens := addOptional t.cacheCreationTokens usage.cacheCreationTokens
  cacheReadTokens := addOptional t.cacheReadTokens usage.cacheReadTokens

end UsageTotal

/-- Cumulative counters that explain an agent's execution cost. -/
structure AgentEfficiencyStats where
  providerCalls : ℕ
  providerGenerationMs : ℕ
  maxProviderGenerationMs : ℕ
  toolCalls : ℕ
  resultToolCalls : ℕ
  toolExecutionMs : ℕ
  maxToolExecutionMs : ℕ
  failedToolCalls : ℕ
  toolResultBytes : ℕ
  originalToolResultBytes : ℕ
  truncatedToolResultBytes : ℕ
  spilledToolResultBytes : ℕ
  completedRuns : ℕ
  abortedRuns : ℕ
  compactions : ℕ
deriving DecidableEq

namespace AgentEfficiencyStats

def zero : AgentEfficiencyStats := ⟨0, 0, 0, 0, 0, 0, 0, 0, 0, 0, 0, 0, 0, 0, 0⟩

end AgentEfficiencyStats

/-! ## The state -/

/-- The session history, and the registers beside it. -/
structure AgentState where
  log : List AgentLogEntry
  nextSeq : ℕ
  inbox : List Incoming
  asks : List AskedQuestion
  timers : List TimerRecord
  parked : Bool
  nudges : ℕ
  turnInFlight : Bool
  taskList : TaskListState
  usageTotal : UsageTotal
  lastTurnUsage : Option Usage
  contextTokens : ℕ
  efficiency : AgentEfficiencyStats

/-- The cursor id of the `seq`-th hook entry in a transcript. -/
def hookEntryId (seq : ℕ) : String := "hook:" ++ toString seq

def hookEntry (record : HookRecord) (seq atMs : ℕ) : HookEntry := ⟨hookEntryId seq, atMs, record⟩

def boundaryMessage (entry : CompactionEntry) (atMs : ℕ) : Message where
  id := "compaction:" ++ toString entry.coversThroughSeq
  role := .user
  parts := [.text ("This session was compacted: earlier history is summarised below " ++
    "rather than shown in full. The messages after this one are verbatim.\n\n" ++
    "## Summary of earlier work\n" ++ Lib.trim entry.summary ++ "\n\n## Current state\n" ++
    Lib.trim entry.carriedState)]
  createdAtMs := atMs
  startedAtMs := none

namespace AgentState

def initial : AgentState where
  log := []
  nextSeq := 0
  inbox := []
  asks := []
  timers := []
  parked := false
  nudges := 0
  turnInFlight := false
  taskList := .default
  usageTotal := .zero
  lastTurnUsage := none
  contextTokens := 0
  efficiency := .zero

def hookEntryCount (s : AgentState) : ℕ := s.log.countP (·.body.isHook)

/-- Append `body` at the next sequence number. -/
def push (s : AgentState) (atMs : ℕ) (body : AgentLogBody) : AgentState :=
  { s with log := s.log ++ [⟨s.nextSeq, atMs, body⟩], nextSeq := s.nextSeq + 1 }

/-- Whether this agent has ever spoken to a provider. -/
def hasRun (s : AgentState) : Bool := s.log.any (·.body.isLlm)

def tailSeq (s : AgentState) : Option ℕ := s.log.getLast?.map (·.seq)

def lastBoundary (s : AgentState) : Option (ℕ × CompactionEntry) :=
  s.log.reverse.findSome? fun e => e.body.compaction?.map (e.atMs, ·)

/-- What the model sees: the newest boundary's message, then what the entries from where it
starts show. -/
def promptMessages (s : AgentState) : List Message :=
  let fromSeq := (s.lastBoundary.map (·.2.retainedFromSeq)).getD 0
  (s.lastBoundary.map fun (atMs, e) => boundaryMessage e atMs).toList ++
    (s.log.filter (fromSeq ≤ ·.seq)).filterMap (·.body.shown?)

/-- Where a boundary whose retained window starts at this message lies in the log:
`(coversThroughSeq, retainedFromSeq)`. No id, or one the log does not hold, retains nothing. -/
def resolveBoundary (s : AgentState) (retainedFrom : Option String) : ℕ × ℕ :=
  let retainNothing := (s.tailSeq.getD 0, s.nextSeq)
  match retainedFrom with
  | none => retainNothing
  | some id =>
    match s.log.findIdx? (·.body.id = some id) with
    | none => retainNothing
    | some idx =>
      let retainedFromSeq := (s.log[idx]?.map (·.seq)).getD 0
      match idx with
      | 0 => (retainedFromSeq, retainedFromSeq)
      | prev + 1 => ((s.log[prev]?.map (·.seq)).getD 0, retainedFromSeq)

/-- This session as a sub session's starting point, cut at `atSeq`. -/
def snapshotAt (s : AgentState) (atSeq : ℕ) : AgentState :=
  { initial with
    log := s.log.filter (·.seq < atSeq)
    nextSeq := atSeq
    contextTokens := s.contextTokens
    taskList := s.taskList }

def parkedCallIds (s : AgentState) : List String := s.asks.filterMap (·.toolCallId)

/-- The status of each delegated piece of work the log names, the newest entry of each. -/
def childStatus (s : AgentState) (id : String) : Option String :=
  s.log.reverse.findSome? fun e =>
    match e.body with
    | .lifecycle (.subAgent i _ status) => if i = id then some status else none
    | .llm _ | .hook _ | .lifecycle _ | .compaction _ => none

/-- The ids of the delegated work the log names. -/
def children (s : AgentState) : List String :=
  s.log.filterMap fun e =>
    match e.body with
    | .lifecycle (.subAgent i _ _) => some i
    | .llm _ | .hook _ | .lifecycle _ | .compaction _ => none

/-- Whether any work this agent delegated is still running. -/
def hasOutstandingChildren (s : AgentState) : Bool :=
  s.children.any fun id => s.childStatus id = some "running"

@[simp] theorem push_inbox (s : AgentState) (t : ℕ) (b : AgentLogBody) :
    (s.push t b).inbox = s.inbox := rfl

@[simp] theorem push_asks (s : AgentState) (t : ℕ) (b : AgentLogBody) :
    (s.push t b).asks = s.asks := rfl

@[simp] theorem push_log (s : AgentState) (t : ℕ) (b : AgentLogBody) :
    (s.push t b).log = s.log ++ [⟨s.nextSeq, t, b⟩] := rfl

@[simp] theorem push_nextSeq (s : AgentState) (t : ℕ) (b : AgentLogBody) :
    (s.push t b).nextSeq = s.nextSeq + 1 := rfl

@[simp] theorem push_nudges (s : AgentState) (t : ℕ) (b : AgentLogBody) :
    (s.push t b).nudges = s.nudges := rfl

@[simp] theorem push_timers (s : AgentState) (t : ℕ) (b : AgentLogBody) :
    (s.push t b).timers = s.timers := rfl

end AgentState

end Horsie.Agent
