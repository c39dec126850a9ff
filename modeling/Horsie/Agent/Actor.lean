import Horsie.Agent.Event
import Horsie.Agent.Repair

/-!
# The agent actor

The actor's in-memory bookkeeping, the commands it accepts and what handling each of them does.
A handler is a function to an `Effect`: the actor it leaves, the batch of events it persists, and
what it tells itself, reports to its owner, replies and spawns. What a handler reads from outside
(the clock, fresh ids, whether start hooks are installed) is its `Env`.
-/

namespace Horsie.Agent

/-- How many turns an agent that owes a result may end without one before the step is failed. -/
def maxResultNudges : ℕ := 2

/-- Events an agent may journal between snapshots before the next turn boundary takes one. -/
def snapshotEveryEvents : ℕ := 200

def askUserTool : String := "ask_user"

def submitResultTool : String := "submit_result"

/-- What an agent is configured with, as far as the actor itself decides by it. -/
structure AgentParams where
  requiresResult : Bool
  interactive : Bool
  parkOnOutstandingWork : Bool
deriving DecidableEq

/-- What a handler reads from outside. -/
structure Env where
  now : ℕ
  messageId : String
  abortedId : String
  timerId : String
  hasStartHooks : Bool
deriving DecidableEq

/-! ## Commands -/

structure StoppedCall where
  tool : String
  toolCallId : String
  input : Value
deriving DecidableEq

inductive RunOutcome
  | completed (text : String)
  | stopped (calls : List StoppedCall)
  | cancelled
  | failed (error : String) (recoverable : Bool)
  | alreadyReported
deriving DecidableEq

/-- What a run produced for the sub sessions waiting on it. -/
structure SeedSummary where
  subSessions : List String
  result : Except String String

structure RunReport where
  runId : ℕ
  outcome : RunOutcome
  seedSummary : Option SeedSummary

/-- Why a prepared turn never ran. -/
inductive AbandonedStart
  | blocked (reason : String)
  | failed (message : String) (terminal : Bool)
deriving DecidableEq

/-- A turn whose pre-start hooks have run. -/
structure PreparedStart where
  turn : Turn
  records : List HookRecord
  abandon : Option AbandonedStart
deriving DecidableEq

inductive QueueCommand
  | enqueue (item : Incoming) (ack : Bool)
  | answer (answers : List AskAnswer)
  | drain
  | startPrepared (prepared : PreparedStart)

inductive RunCommand
  | cancel (ack : Bool)
  | persistProgress (events : List AgentDomainEvent)
  | runFinished (report : RunReport)

inductive CancelSelector
  | one (id : String)
  | all
deriving DecidableEq

inductive TimerCommand
  | armTimer (label message : String) (kind : TimerKind) (afterSecs : ℕ)
  | listTimers
  | cancelTimer (selector : CancelSelector)
  | timerFired (id : String)

inductive LogCommand
  | recordLifecycle (event : LifecycleEvent) (atMs : ℕ)
  | recordDelta (text : String)
  | hooksRan (records : List HookRecord)

inductive SeedCommand
  | snapshot (atSeq : ℕ)
  | seedFrom (state : AgentState) (seed : Option Message) (message : Incoming)

/-- Commands accepted by an agent. The reads are one command: they answer from state and wake
nothing. -/
inductive AgentCommand
  | queue (c : QueueCommand)
  | run (c : RunCommand)
  | timer (c : TimerCommand)
  | taskList (action : TaskListAction)
  | read
  | log (c : LogCommand)
  | seed (c : SeedCommand)
  | shutdown

/-! ## What a handler does -/

inductive AgentOutcome
  | started
  | interrupted
  | concluded (output : Value)
  | asked (asks : List AskedQuestion)
  | parked
  | failed (error : String) (recoverable terminal : Bool)
  | usageRecorded (usageTotal : UsageTotal) (contextTokens : ℕ) (efficiency : AgentEfficiencyStats)
  | seedSummary (subSessions : List String) (result : Except String String)

/-- Whether a report says how a turn ended. -/
def AgentOutcome.isTerminal : AgentOutcome → Bool
  | .concluded _ | .asked _ | .parked | .failed _ _ _ => true
  | .started | .interrupted | .usageRecorded _ _ _ | .seedSummary _ _ => false

structure TimerView where
  id : String
  label : String
  message : String
  kind : TimerKind
  intervalSecs : ℕ
  fireCount : ℕ
  firesInSecs : ℕ
deriving DecidableEq

inductive Reply
  | answer (result : Except AnswerError Unit)
  | cancelled
  | armed (id : String)
  | timers (views : List TimerView)
  | timersCancelled (ids : List String)
  | taskList (result : Except String String)
  | snapshot (state : AgentState)
  | seeded

/-- What the next run should tell the provider about tool use. -/
inductive ToolChoice
  | required (tool : String)
deriving DecidableEq

inductive SessionStartSource
  | startup
  | resume
deriving DecidableEq

structure StartTurn where
  startSource : Option SessionStartSource
  prompt : Option String
deriving DecidableEq

structure RunTask where
  id : ℕ
  input : AgentInput
  history : List Message
  contextTokens : ℕ
  toolChoice : Option ToolChoice
  summarise : Option Summarise
  summariseOnly : Bool
deriving DecidableEq

/-- What a handler spawns off the mailbox. -/
inductive Task
  | run (task : RunTask)
  | prepare (start : StartTurn) (turn : Turn)
  | sleep (timer : String) (delayMs : ℕ)
deriving DecidableEq

structure RunHandle where
  id : ℕ
  cancelled : Bool
deriving DecidableEq

structure AgentActor where
  running : Option RunHandle
  nextRunId : ℕ
  ready : Bool
  pendingToolChoice : Option ToolChoice
  preparing : Bool
  startHookFired : Bool
  cancelAcks : ℕ
  deltas : List String
  eventsSinceSnapshot : ℕ
deriving DecidableEq

/-- What handling a command does. The events are persisted as one batch. -/
structure Effect where
  actor : AgentActor
  events : List AgentDomainEvent := []
  tells : List AgentCommand := []
  outcomes : List AgentOutcome := []
  tasks : List Task := []
  replies : List Reply := []
  ack : Bool := false
  snapshot : Bool := false
  stop : Bool := false

namespace Effect

/-- The effect `e`, decided after journaling `events` and reporting `outcomes`. -/
def after (e : Effect) (events : List AgentDomainEvent) (outcomes : List AgentOutcome) : Effect :=
  { e with events := events ++ e.events, outcomes := outcomes ++ e.outcomes }

end Effect

namespace AgentActor

def new (ready : Bool) : AgentActor where
  running := none
  nextRunId := 0
  ready := ready
  pendingToolChoice := none
  preparing := false
  startHookFired := false
  cancelAcks := 0
  deltas := []
  eventsSinceSnapshot := 0

def busy (a : AgentActor) : Bool := a.running.isSome || a.preparing

def runId (a : AgentActor) : Option ℕ := a.running.map (·.id)

/-! ## Starting a turn -/

def startRun (a : AgentActor) (input : AgentInput) (history : List Message) (contextTokens : ℕ)
    (summarise : Option Summarise) (summariseOnly : Bool) : Effect where
  actor :=
    { a with
      running := some ⟨a.nextRunId, false⟩
      nextRunId := a.nextRunId + 1
      pendingToolChoice := none }
  tasks := [.run
    { id := a.nextRunId
      input := input
      history := history
      contextTokens := contextTokens
      toolChoice := a.pendingToolChoice
      summarise := summarise
      summariseOnly := summariseOnly }]

end AgentActor

def AbandonedStart.outcome : AbandonedStart → AgentOutcome
  | .blocked reason => .failed reason false false
  | .failed message terminal => .failed message true terminal

namespace Turn

def summariseOnly (t : Turn) : Bool :=
  t.summarise.isSome && t.message.isNone && t.subagentResults.isEmpty && t.results.isEmpty

def startsAUserTurn (t : Turn) : Bool := t.message.isSome || !t.subagentResults.isEmpty

def input (t : Turn) (messageId : String) : AgentInput :=
  if t.startsAUserTurn then
    .userMessage ⟨messageId, t.message.getD "", t.subagentResults, t.artifacts⟩
  else
    .toolResults t.results

/-- Results that precede a user message belong to the history. -/
def recorded (t : Turn) (now : ℕ) : List Message :=
  if t.startsAUserTurn && !t.results.isEmpty then [(AgentInput.toolResults t.results).toMessage now]
  else []

def inputMessages (t : Turn) (env : Env) : List Message :=
  t.recorded env.now ++
    if t.summariseOnly then [] else [(t.input env.messageId).toMessage env.now]

end Turn

/-- The journal events of hook records folded behind `state`. -/
def hookEvents (state : AgentState) (records : List HookRecord) (now : ℕ) :
    List AgentDomainEvent :=
  records.mapIdx fun i record => .hookRan record (state.hookEntryCount + i) now

namespace AgentActor

/-- Journal a prepared turn's hook records, then start it, or abandon it. The prompt is read off
the state with the records folded in. -/
def startPrepared (a : AgentActor) (env : Env) (state : AgentState) (prepared : PreparedStart) :
    Effect :=
  let turn := prepared.turn
  let hooks := hookEvents state prepared.records env.now
  let folded := state.applyAll hooks
  match prepared.abandon with
  | some abandon => { actor := a, events := hooks, outcomes := [abandon.outcome] }
  | none =>
    let answering := turn.results.map (·.toolCallId)
    let history := repairDangling folded.promptMessages answering env.now
    (a.startRun (turn.input env.messageId) (history ++ turn.recorded env.now) folded.contextTokens
      turn.summarise turn.summariseOnly).after
      (hooks ++ (turn.inputMessages env).map .inputMessage) []

def startTurn (a : AgentActor) (state : AgentState) (turn : Turn) : StartTurn where
  startSource :=
    if a.startHookFired then none else some (if state.hasRun then .resume else .startup)
  prompt := turn.message

def nothingDue (a : AgentActor) (env : Env) (turn : Turn) : Bool :=
  (a.startHookFired && turn.message.isNone) || !env.hasStartHooks

/-- Perform one turn decision: record what it consumes and answers, report that the turn began,
then run its pre-start hooks before the run itself. -/
def beginTurn (a : AgentActor) (env : Env) (state : AgentState) (turn : Turn) : Effect :=
  let began : AgentDomainEvent := .turnBegan turn.consumed turn.answered env.now
  if a.nothingDue env turn then
    (a.startPrepared env state ⟨turn, [], none⟩).after [began] [.started]
  else
    { actor := { a with preparing := true, startHookFired := true }
      events := [began]
      outcomes := [.started]
      tasks := [.prepare (a.startTurn state turn) turn] }

/-- Reconsider whether the queue may start a turn, and start it if so. -/
def tryDrain (a : AgentActor) (env : Env) (state : AgentState) : Effect :=
  if a.busy || !a.ready then
    { actor := a }
  else
    match queuedTurn state.inbox state.asks with
    | some turn => a.beginTurn env state turn
    | none => { actor := a }

/-- Journal `events`, then decide about the queue they leave. -/
def thenDrain (a : AgentActor) (env : Env) (state : AgentState) (events : List AgentDomainEvent)
    (outcomes : List AgentOutcome) : Effect :=
  (a.tryDrain env (state.applyAll events)).after events outcomes

/-! ## The end of a run -/

/-- Take a snapshot too if enough events have accrued. -/
def persistMaybeSnapshot (e : Effect) : Effect :=
  if e.actor.eventsSinceSnapshot < snapshotEveryEvents then e
  else { e with actor := { e.actor with eventsSinceSnapshot := 0 }, snapshot := true }

def andSnapshot (e : Effect) : Effect :=
  { e with actor := { e.actor with eventsSinceSnapshot := 0 }, snapshot := true }

/-- The message a cancelled run was part-way through writing. -/
def abortedMessage (a : AgentActor) (env : Env) : Option Message :=
  let text := String.join a.deltas
  if Lib.isBlank text then none else some (.assistantText env.abortedId text env.now)

end AgentActor

/-- What the tools that ended a run meant. -/
inductive Conclusion
  | output (value : Value)
  | ask (asks : List AskedQuestion)
  | contradiction (calls : List StoppedCall)

/-- The question an `ask_user` call asks. -/
def StoppedCall.question (c : StoppedCall) : AskedQuestion where
  toolCallId := some c.toolCallId
  question := ((c.input.get "question").bind Value.asStr).getD ""
  choices := (((c.input.get "choices").bind Value.asArray).map (·.filterMap Value.asStr)).getD []
  multiple := ((c.input.get "multiple").bind Value.asBool).getD false

def interpret (calls : List StoppedCall) : Conclusion :=
  if calls.isEmpty then
    .output .null
  else if calls.all (·.tool = askUserTool) then
    .ask (calls.map StoppedCall.question)
  else
    match calls with
    | [only] => if only.tool = submitResultTool then .output only.input else .contradiction calls
    | _ => .contradiction calls

/-- What a run's end reports of its cost. -/
def usageRecorded (state : AgentState) : AgentOutcome :=
  .usageRecorded state.usageTotal state.contextTokens state.efficiency

/-- The message that tells an agent which owes a result to submit it. -/
def nudgeItem (nudges : ℕ) : Incoming :=
  .user ("nudge-result:" ++ toString nudges)
    ("Your turn ended without calling `" ++ submitResultTool ++ "`, and nothing will " ++
      "wake you — you have no armed timers and no delegated work still running. " ++
      "If the step's work is done, call `" ++ submitResultTool ++ "` now. If it is " ++
      "not, carry on working.") []

/-- Whether something will wake an agent that ends its turn with text. -/
def awaitsWork (state : AgentState) : Bool :=
  !state.timers.isEmpty || state.hasOutstandingChildren

namespace AgentActor

def park (a : AgentActor) (env : Env) : Effect :=
  andSnapshot { actor := a, events := [.parked env.now], outcomes := [.parked] }

/-- A step's turn ended with text instead of `submit_result`. -/
def endedWithoutResult (a : AgentActor) (env : Env) (state : AgentState) : Effect :=
  let drained := a.tryDrain env state
  if !drained.events.isEmpty then
    persistMaybeSnapshot drained
  else if awaitsWork state then
    a.park env
  else if state.nudges ≥ maxResultNudges then
    { actor := a
      outcomes := [.failed ("the step ended " ++ toString (state.nudges + 1) ++
        " turns without calling `" ++ submitResultTool ++ "`, and nothing would wake it")
        false false] }
  else
    let a :=
      if state.nudges + 1 ≥ maxResultNudges then
        { a with pendingToolChoice := some (.required submitResultTool) }
      else a
    a.thenDrain env state [.received (nudgeItem state.nudges) env.now, .nudged env.now] []

/-- Why calling several finishing tools at once is refused. -/
def contradictionReason (calls : List StoppedCall) : String :=
  "You ended your turn with more than one finishing tool (" ++
    ", ".intercalate (calls.map (·.tool)) ++ "). Do one thing: " ++
    "either ask the user, or submit this step's result."

def contradictionEvents (calls : List StoppedCall) (now : ℕ) : List AgentDomainEvent :=
  let reason := contradictionReason calls
  calls.map (fun c => .toolComplete
    { toolCallId := c.toolCallId
      output := reason
      isError := true
      artifacts := []
      originalOutputBytes := reason.utf8ByteSize
      truncatedOutputBytes := 0
      spilledOutputBytes := 0
      startedAtMs := now
      atMs := now }) ++ [.nudged now]

/-- The model called two turn-enders at once. -/
def correctContradiction (a : AgentActor) (env : Env) (state : AgentState)
    (calls : List StoppedCall) : Effect :=
  let events := contradictionEvents calls env.now
  let folded := state.applyAll events
  if folded.nudges > maxResultNudges then
    { actor := a, events := events }
  else
    let resume : AgentDomainEvent :=
      .received (.continue_ ("contradiction:" ++ toString folded.nudges)
        (contradictionReason calls)) env.now
    a.thenDrain env state (events ++ [resume]) []

/-- A turn ended with text. -/
def completed (a : AgentActor) (params : AgentParams) (env : Env) (state : AgentState)
    (text : String) : Effect :=
  if params.requiresResult then
    a.endedWithoutResult env state
  else
    let drained := a.tryDrain env state
    if params.parkOnOutstandingWork && !drained.events.isEmpty then
      persistMaybeSnapshot drained
    else if params.parkOnOutstandingWork && awaitsWork state then
      a.park env
    else
      persistMaybeSnapshot (drained.after [] [.concluded (.str text)])

/-- A tool ended the run. -/
def stopped (a : AgentActor) (env : Env) (state : AgentState) (calls : List StoppedCall) :
    Effect :=
  match interpret calls with
  | .output output =>
    let cancelled : List AgentDomainEvent :=
      if state.timers.isEmpty then []
      else [.timerCancelled (state.timers.map (·.id)) env.now]
    persistMaybeSnapshot (a.thenDrain env state cancelled [.concluded output])
  | .ask asks =>
    andSnapshot (a.thenDrain env state [.askRecorded asks env.now] [.asked asks])
  | .contradiction calls => a.correctContradiction env state calls

/-- What a cancelled run journals: the results its calls will never get, what the model had
already written, and the cancellation. -/
def cancelEvents (a : AgentActor) (env : Env) (state : AgentState) : List AgentDomainEvent :=
  (missingToolResults state.promptMessages state.parkedCallIds env.now).map .inputMessage ++
    (a.abortedMessage env).toList.map .messageAborted ++ [.runCancelled env.now]

def concludeRun (a : AgentActor) (params : AgentParams) (env : Env) (state : AgentState) :
    RunOutcome → Effect
  | .completed text => (a.completed params env state text).after [] [usageRecorded state]
  | .stopped calls => (a.stopped env state calls).after [] [usageRecorded state]
  | .cancelled =>
    andSnapshot (a.thenDrain env state (a.cancelEvents env state) [usageRecorded state])
  | .failed error recoverable =>
    { actor := a, outcomes := [usageRecorded state, .failed error recoverable false] }
  | .alreadyReported => { actor := a }

def summaryOutcomes (s : Option SeedSummary) : List AgentOutcome :=
  s.toList.map fun s => .seedSummary s.subSessions s.result

/-- Interpret what ended the run. The report of a superseded run is dropped. -/
def handleFinished (a : AgentActor) (params : AgentParams) (env : Env) (state : AgentState)
    (report : RunReport) : Effect :=
  if a.runId = some report.runId then
    let cleared := { a with running := none, cancelAcks := 0 }
    let e := cleared.concludeRun params env state report.outcome
    { e.after [] (summaryOutcomes report.seedSummary) with
      replies := List.replicate a.cancelAcks .cancelled ++ e.replies }
  else
    { actor := a }

/-! ## The handlers -/

def handleQueue (a : AgentActor) (env : Env) (state : AgentState) : QueueCommand → Effect
  | .enqueue item ack =>
    { actor := a, events := [.received item env.now], tells := [.queue .drain], ack := ack }
  | .drain => a.tryDrain env state
  | .answer answers =>
    if a.busy then
      { actor := a, replies := [.answer (.error .nothingPending)] }
    else
      match answeredTurn state.inbox state.asks answers with
      | .ok turn => { a.beginTurn env state turn with replies := [.answer (.ok ())] }
      | .error e => { actor := a, replies := [.answer (.error e)] }
  | .startPrepared prepared => { a with preparing := false }.startPrepared env state prepared

def handleRun (a : AgentActor) (params : AgentParams) (env : Env) (state : AgentState) :
    RunCommand → Effect
  | .cancel ack =>
    match a.running with
    | some run =>
      { actor :=
          { a with
            running := some { run with cancelled := true }
            cancelAcks := a.cancelAcks + if ack then 1 else 0 } }
    | none => { actor := a, replies := if ack then [.cancelled] else [] }
  | .persistProgress events => { actor := a, events := events, ack := true }
  | .runFinished report => a.handleFinished params env state report

/-- A timer's sleep elapsed: re-arm a recurring timer, then queue the wake. -/
def handleTimerFired (a : AgentActor) (env : Env) (state : AgentState) (id : String) : Effect :=
  match state.timers.find? (·.id = id) with
  | none => { actor := a }
  | some record =>
    let displayCount := record.fireCount + 1
    let next : Option ℕ :=
      match record.kind with
      | .recurring => some (satAdd 64 env.now (satMul 64 record.intervalSecs 1000))
      | .oneShot => none
    let sleeps : List Task :=
      match record.kind with
      | .recurring => [.sleep id (record.intervalSecs * 1000)]
      | .oneShot => []
    let received : AgentDomainEvent :=
      .received (.timer (id ++ ":" ++ toString displayCount) (record.wakeMessage displayCount))
        env.now
    let e := a.thenDrain env state [.timerFired id next env.now, received] []
    { e with tasks := sleeps ++ e.tasks }

def handleTimer (a : AgentActor) (env : Env) (state : AgentState) : TimerCommand → Effect
  | .armTimer label message kind afterSecs =>
    let record := TimerRecord.arm env.timerId label message kind afterSecs env.now
    { actor := a
      events := [.timerArmed record env.now]
      tasks := [.sleep record.id (afterSecs * 1000)]
      replies := [.armed record.id] }
  | .listTimers =>
    { actor := a
      replies := [.timers (state.timers.map fun t =>
        ⟨t.id, t.label, t.message, t.kind, t.intervalSecs, t.fireCount,
          t.remaining env.now / 1000⟩)] }
  | .cancelTimer selector =>
    let ids :=
      match selector with
      | .all => state.timers.map (·.id)
      | .one id => if state.timers.any (·.id = id) then [id] else []
    { actor := a
      events := if ids.isEmpty then [] else [.timerCancelled ids env.now]
      replies := [.timersCancelled ids] }
  | .timerFired id => a.handleTimerFired env state id

def handleTaskList (a : AgentActor) (env : Env) (state : AgentState) (action : TaskListAction) :
    Effect :=
  match state.taskList.apply action with
  | .ok next =>
    { actor := a
      events := [.taskListChanged next env.now]
      replies := [.taskList (.ok (next.renderResult action))] }
  | .error message => { actor := a, replies := [.taskList (.error message)] }

def moved (a : AgentActor) (event : LifecycleEvent) : Option Bool :=
  (runtimeReadiness event).filter (· ≠ a.ready)

def handleLog (a : AgentActor) (env : Env) (state : AgentState) : LogCommand → Effect
  | .recordLifecycle event atMs =>
    let recorded : AgentDomainEvent := .lifecycleRecorded event atMs
    let b := { a with ready := (a.moved event).getD a.ready }
    if a.moved event ≠ some true then
      { actor := b, events := [recorded] }
    else
      b.thenDrain env state [recorded] []
  | .recordDelta text => { actor := { a with deltas := a.deltas ++ [text] } }
  | .hooksRan records => { actor := a, events := hookEvents state records env.now }

def handleSeed (a : AgentActor) (env : Env) (state : AgentState) : SeedCommand → Effect
  | .snapshot atSeq => { actor := a, replies := [.snapshot (state.snapshotAt atSeq)] }
  | .seedFrom seeded seed message =>
    if !state.log.isEmpty || !state.inbox.isEmpty then
      { actor := a, replies := [.seeded], tells := [.queue .drain] }
    else
      { actor := a
        events := [.seeded seeded seed, .received message env.now]
        tells := [.queue .drain]
        ack := true
        snapshot := true }

def handleCommand (a : AgentActor) (params : AgentParams) (env : Env) (state : AgentState) :
    AgentCommand → Effect
  | .queue c => a.handleQueue env state c
  | .run c => a.handleRun params env state c
  | .timer c => a.handleTimer env state c
  | .taskList action => a.handleTaskList env state action
  | .read => { actor := a }
  | .log c => a.handleLog env state c
  | .seed c => a.handleSeed env state c
  | .shutdown => { actor := a, stop := true }

/-! ## Around the handlers -/

/-- Whether folding this event supersedes the chunks streamed so far. -/
def coarseAppendsAnEntry : AgentDomainEvent → Bool
  | .inputMessage _ | .messageComplete _ | .messageAborted _ | .toolComplete _ | .hookRan _ _ _
  | .lifecycleRecorded _ _ | .taskListChanged _ _ => true
  | .seeded _ _ | .runComplete _ _ _ _ | .runAborted _ _ _ | .runCancelled _ | .timerArmed _ _
  | .timerCancelled _ _ | .timerFired _ _ _ | .parked _ | .nudged _ | .compacted _ | .received _ _
  | .turnBegan _ _ _ | .askRecorded _ _ => false

def onEventsPersisted (a : AgentActor) (events : List AgentDomainEvent) : AgentActor :=
  { a with
    eventsSinceSnapshot := satAdd 64 a.eventsSinceSnapshot events.length
    deltas := if events.any coarseAppendsAnEntry then [] else a.deltas }

/-- Whether recovery re-drives the agent: nobody will message it, it is not waiting for a timer,
and something has happened to it. -/
def selfContinues (params : AgentParams) (state : AgentState) : Bool :=
  !(params.interactive || state.parked || state.log.isEmpty)

/-- Repair whatever the crash left half-done, before the first live command: re-arm the timers,
queue the missing tool results, report an interrupted turn, and re-drive an agent nobody will
message. -/
def onRecoveryComplete (a : AgentActor) (params : AgentParams) (env : Env) (state : AgentState) :
    Effect :=
  let repairs := missingToolResults state.promptMessages state.parkedCallIds env.now
  let tells : List AgentCommand :=
    if repairs.isEmpty then [] else [.run (.persistProgress (repairs.map .inputMessage))]
  let outcomes : List AgentOutcome := if state.turnInFlight then [.interrupted] else []
  let sleeps : List Task := state.timers.map fun t => .sleep t.id (t.remaining env.now)
  let e : Effect :=
    if selfContinues params state then
      a.startRun (.userMessage ⟨env.messageId, "continue the interrupted task", [], []⟩)
        (repairDangling state.promptMessages [] env.now) state.contextTokens none false
    else
      { actor := a }
  { e with tells := tells, outcomes := outcomes, tasks := sleeps ++ e.tasks }

end AgentActor

end Horsie.Agent
