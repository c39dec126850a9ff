import Horsie.Agent.State

/-!
# The journal

The events an agent journals and the fold that turns them back into its state. The journal is the
only thing that survives a process, so an agent's state is always the fold of it.
-/

namespace Horsie.Agent

/-- The journaled facts of one tool result. -/
structure ToolCompletion where
  toolCallId : String
  output : String
  isError : Bool
  artifacts : List ArtifactRef
  originalOutputBytes : ℕ
  truncatedOutputBytes : ℕ
  spilledOutputBytes : ℕ
  startedAtMs : ℕ
  atMs : ℕ
deriving DecidableEq

def ToolCompletion.message (c : ToolCompletion) : Message :=
  .toolResult c.toolCallId c.output c.isError c.artifacts c.atMs

structure CompactionFact where
  summary : String
  carriedState : String
  retainedFromMessageId : Option String
  trigger : CompactionTrigger
  instructions : Option String
  tokensBefore : ℕ
  tokensAfter : ℕ
  atMs : ℕ
deriving DecidableEq

inductive AgentDomainEvent
  | seeded (state : AgentState) (seed : Option Message)
  | inputMessage (message : Message)
  | messageComplete (message : Message)
  | messageAborted (message : Message)
  | toolComplete (completion : ToolCompletion)
  | hookRan (record : HookRecord) (seq atMs : ℕ)
  | runComplete (usage : Usage) (iterations contextTokens atMs : ℕ)
  | runAborted (usage : Usage) (contextTokens atMs : ℕ)
  | runCancelled (atMs : ℕ)
  | timerArmed (record : TimerRecord) (atMs : ℕ)
  | timerCancelled (ids : List String) (atMs : ℕ)
  | timerFired (id : String) (nextFireAtUnixMs : Option ℕ) (atMs : ℕ)
  | parked (atMs : ℕ)
  | nudged (atMs : ℕ)
  | taskListChanged (snapshot : TaskListState) (atMs : ℕ)
  | lifecycleRecorded (event : LifecycleEvent) (atMs : ℕ)
  | compacted (fact : CompactionFact)
  | received (item : Incoming) (atMs : ℕ)
  | turnBegan (consumed answered : List String) (atMs : ℕ)
  | askRecorded (asks : List AskedQuestion) (atMs : ℕ)

/-! ## The fold -/

namespace AgentEfficiencyStats

/-- A model answer's provider time and tool calls. -/
def observeMessage (s : AgentEfficiencyStats) (m : Message) : AgentEfficiencyStats :=
  let generationMs := (m.startedAtMs.map fun started => m.createdAtMs - started).getD 0
  { s with
    providerCalls := satAdd 64 s.providerCalls 1
    providerGenerationMs := satAdd 64 s.providerGenerationMs generationMs
    maxProviderGenerationMs := max s.maxProviderGenerationMs generationMs
    toolCalls := satAdd 64 s.toolCalls m.callIds.length }

def observeTool (s : AgentEfficiencyStats) (c : ToolCompletion) : AgentEfficiencyStats :=
  let executionMs := c.atMs - c.startedAtMs
  let retained := c.output.utf8ByteSize
  { s with
    resultToolCalls := satAdd 64 s.resultToolCalls 1
    toolExecutionMs := satAdd 64 s.toolExecutionMs executionMs
    maxToolExecutionMs := max s.maxToolExecutionMs executionMs
    toolResultBytes := satAdd 64 s.toolResultBytes retained
    originalToolResultBytes := satAdd 64 s.originalToolResultBytes
      (if c.originalOutputBytes = 0 then retained else c.originalOutputBytes)
    truncatedToolResultBytes := satAdd 64 s.truncatedToolResultBytes c.truncatedOutputBytes
    spilledToolResultBytes := satAdd 64 s.spilledToolResultBytes c.spilledOutputBytes
    failedToolCalls := if c.isError then satAdd 64 s.failedToolCalls 1 else s.failedToolCalls }

def observe (s : AgentEfficiencyStats) : AgentDomainEvent → AgentEfficiencyStats
  | .messageComplete m | .messageAborted m => s.observeMessage m
  | .toolComplete c => s.observeTool c
  | .runComplete _ _ _ _ => { s with completedRuns := satAdd 64 s.completedRuns 1 }
  | .runAborted _ _ _ | .runCancelled _ => { s with abortedRuns := satAdd 64 s.abortedRuns 1 }
  | .compacted _ => { s with compactions := satAdd 64 s.compactions 1 }
  | .seeded _ _ | .inputMessage _ | .hookRan _ _ _ | .timerArmed _ _ | .timerCancelled _ _
  | .timerFired _ _ _ | .taskListChanged _ _ | .lifecycleRecorded _ _ | .received _ _
  | .turnBegan _ _ _ | .askRecorded _ _ | .parked _ | .nudged _ => s

end AgentEfficiencyStats

namespace AgentState

/-- Append a message at the moment it was made. -/
def pushMessage (s : AgentState) (m : Message) : AgentState := s.push m.createdAtMs (.llm m)

/-- A timer re-arms at `next`, or is removed. -/
def fireTimer (s : AgentState) (id : String) : Option ℕ → AgentState
  | some next =>
    { s with
      timers :=
        match s.timers.findIdx? (·.id = id) with
        | some i => s.timers.modify i fun t =>
          { t with fireAtUnixMs := next, fireCount := t.fireCount + 1 }
        | none => s.timers }
  | none => { s with timers := s.timers.filter (·.id ≠ id) }

/-- Only a person's message becomes a visible queue entry. -/
def receive (s : AgentState) (item : Incoming) (atMs : ℕ) : AgentState :=
  let s :=
    match item with
    | .user id text _ => s.push atMs (.lifecycle (.messageQueued id text))
    | .subAgent _ _ | .timer _ _ | .continue_ _ _ | .compact _ _ | .subSession _ _ => s
  { s with inbox := s.inbox ++ [item] }

/-- A turn takes what it consumes out of the queue and ends the park. -/
def beginTurn (s : AgentState) (consumed answered : List String) (atMs : ℕ) : AgentState :=
  let visible := (s.inbox.filter fun i => i.isUser && decide (i.id ∈ consumed)).map Incoming.id
  { s.push atMs (.lifecycle (.turnBegan visible answered)) with
    inbox := s.inbox.filter (·.id ∉ consumed)
    asks := []
    turnInFlight := true }

def recordAsks (s : AgentState) (asks : List AskedQuestion) (atMs : ℕ) : AgentState :=
  { asks.foldl (fun s ask => s.push atMs (.lifecycle (.askRecorded ask.toolCallId ask.question))) s
    with asks := asks, turnInFlight := false }

/-- Where the prompt now starts, and the context size that leaves behind. -/
def compact (s : AgentState) (f : CompactionFact) : AgentState :=
  let (coversThroughSeq, retainedFromSeq) := s.resolveBoundary f.retainedFromMessageId
  { s with contextTokens := f.tokensAfter }.push f.atMs (.compaction
    { summary := f.summary
      carriedState := f.carriedState
      coversThroughSeq := coversThroughSeq
      retainedFromSeq := retainedFromSeq
      trigger := f.trigger
      instructions := f.instructions
      tokensBefore := f.tokensBefore
      tokensAfter := f.tokensAfter })

def applyBody (s : AgentState) : AgentDomainEvent → AgentState
  | .seeded state none => state
  | .seeded state (some seed) => state.pushMessage seed
  | .inputMessage m => { s with parked := false }.pushMessage m
  | .messageComplete m | .messageAborted m => s.pushMessage m
  | .toolComplete c => s.push c.atMs (.llm c.message)
  | .hookRan record seq atMs => s.push atMs (.hook (hookEntry record seq atMs))
  | .runComplete usage _ contextTokens _ =>
    { s with
      usageTotal := s.usageTotal.add usage
      contextTokens := contextTokens
      lastTurnUsage := some usage
      turnInFlight := false }
  | .runAborted usage contextTokens _ =>
    { s with
      usageTotal := s.usageTotal.add usage
      contextTokens := contextTokens
      turnInFlight := false }
  | .runCancelled _ => { s with turnInFlight := false }
  | .timerArmed record _ => { s with timers := s.timers ++ [record] }
  | .timerCancelled ids _ => { s with timers := s.timers.filter (·.id ∉ ids) }
  | .timerFired id next _ => s.fireTimer id next
  | .parked _ => { s with parked := true, turnInFlight := false, nudges := 0 }
  | .nudged _ => { s with nudges := satAdd 32 s.nudges 1, turnInFlight := false }
  | .taskListChanged snapshot atMs =>
    { s.push atMs (.lifecycle (.taskList snapshot.tasks)) with taskList := snapshot }
  | .lifecycleRecorded event atMs => s.push atMs (.lifecycle event)
  | .compacted fact => s.compact fact
  | .received item atMs => s.receive item atMs
  | .turnBegan consumed answered atMs => s.beginTurn consumed answered atMs
  | .askRecorded asks atMs => s.recordAsks asks atMs

def applyEvent (s : AgentState) (e : AgentDomainEvent) : AgentState :=
  { s with efficiency := s.efficiency.observe e }.applyBody e

def applyAll (s : AgentState) (es : List AgentDomainEvent) : AgentState := es.foldl applyEvent s

@[simp] theorem applyAll_nil (s : AgentState) : s.applyAll [] = s := rfl

@[simp] theorem applyAll_cons (s : AgentState) (e : AgentDomainEvent)
    (es : List AgentDomainEvent) : s.applyAll (e :: es) = (s.applyEvent e).applyAll es := rfl

theorem applyAll_append (s : AgentState) (es fs : List AgentDomainEvent) :
    s.applyAll (es ++ fs) = (s.applyAll es).applyAll fs := List.foldl_append

end AgentState

def AgentDomainEvent.queues : AgentDomainEvent → Bool
  | .seeded _ _ | .received _ _ | .turnBegan _ _ _ | .askRecorded _ _ => true
  | .inputMessage _ | .messageComplete _ | .messageAborted _ | .toolComplete _ | .hookRan _ _ _
  | .runComplete _ _ _ _ | .runAborted _ _ _ | .runCancelled _ | .timerArmed _ _
  | .timerCancelled _ _ | .timerFired _ _ _ | .parked _ | .nudged _ | .taskListChanged _ _
  | .lifecycleRecorded _ _ | .compacted _ => false

namespace AgentState

theorem applyEvent_of_not_queues (s : AgentState) {e : AgentDomainEvent} (h : e.queues = false) :
    (s.applyEvent e).inbox = s.inbox ∧ (s.applyEvent e).asks = s.asks := by
  cases e with
  | seeded | received | turnBegan | askRecorded => simp [AgentDomainEvent.queues] at h
  | timerFired id next => cases next <;> exact ⟨rfl, rfl⟩
  | _ => exact ⟨rfl, rfl⟩

theorem applyAll_of_not_queues (s : AgentState) {es : List AgentDomainEvent}
    (h : ∀ e ∈ es, e.queues = false) :
    (s.applyAll es).inbox = s.inbox ∧ (s.applyAll es).asks = s.asks := by
  induction es generalizing s with
  | nil => exact ⟨rfl, rfl⟩
  | cons e es ih =>
    have he := s.applyEvent_of_not_queues (h e List.mem_cons_self)
    have hes := ih (s.applyEvent e) fun e he => h e (List.mem_cons_of_mem _ he)
    exact ⟨hes.1.trans he.1, hes.2.trans he.2⟩

@[simp] theorem applyEvent_received_inbox (s : AgentState) (item : Incoming) (t : ℕ) :
    (s.applyEvent (.received item t)).inbox = s.inbox ++ [item] := by
  cases item <;> rfl

@[simp] theorem applyEvent_received_asks (s : AgentState) (item : Incoming) (t : ℕ) :
    (s.applyEvent (.received item t)).asks = s.asks := by
  cases item <;> rfl

end AgentState

end Horsie.Agent
