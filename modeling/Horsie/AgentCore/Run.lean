import Horsie.AgentCore.Compaction

/-!
# A run

The loop of a run: ask the provider, execute the tool calls it answers with, ask again. The run
keeps its own history and says what it does through events; `Run.written` is everything written
down while it goes on, its events and the records of the plugin hooks that ran in between. What the
world answers in one iteration is a `Round`: the provider's response, what each tool call came to,
and the order in which the results came in.
-/

namespace Horsie.AgentCore

open Horsie.Agent

/-! ## What a run is made of -/

inductive StopReason
  | endTurn
  | toolUse
  | maxTokens
deriving DecidableEq

structure CompletionResponse where
  parts : List ContentPart
  stopReason : StopReason
  usage : Usage
deriving DecidableEq

structure LlmError where
  message : String
  transient : Bool
deriving DecidableEq

inductive AgentError
  | cancelled
  | maxIterationsExceeded (max : ℕ)
  | provider (e : LlmError)
  | truncated (maxTokens : Option ℕ)
  | stuckInLoop (toolName : String) (count : ℕ)
deriving DecidableEq

inductive AgentResult
  | completed (text : String)
  | stopped (calls : List StoppedCall)
deriving DecidableEq

inductive ProviderAnswer
  | response (r : CompletionResponse)
  | failed (e : LlmError)
  | cancelled

/-- What is written down while a batch of tool calls executes: the result of the call at an index,
or what a plugin hook did. -/
inductive Arrival
  | result (index : ℕ)
  | hook (record : HookRecord) (seq atMs : ℕ)
deriving DecidableEq

def Arrival.index? : Arrival → Option ℕ
  | .result i => some i
  | .hook _ _ _ => none

/-- A batch of tool calls in execution. -/
structure Batch where
  dispatch : ℕ → Dispatch
  arrivals : List Arrival
  once : (arrivals.filterMap Arrival.index?).Nodup
  cancelled : Bool

/-- What the world answers in one iteration of a run. -/
structure Round where
  cancelledAtTop : Bool
  compaction : CompactionEnv
  messageId : String
  callStartedMs : ℕ
  chunks : List String
  answer : ProviderAnswer
  answeredMs : ℕ
  cancelledBeforeTools : Bool
  batch : Batch

/-- What is written down while a run goes on. -/
inductive Written
  | event (e : AgentEvent)
  | hook (record : HookRecord) (seq atMs : ℕ)
deriving DecidableEq

structure RunAccounting where
  usage : Usage
  contextTokens : ℕ
deriving DecidableEq

def RunAccounting.new : RunAccounting := ⟨⟨0, 0, none, none⟩, 0⟩

/-- The sum of two optional counts, absent only while neither side reported one. -/
def sumOptional : Option ℕ → Option ℕ → Option ℕ
  | none, none => none
  | a, b => some (wrapAdd 32 (a.getD 0) (b.getD 0))

/-- What a provider call cost, on top of what was spent. -/
def RunAccounting.bank (spent : RunAccounting) (usage : Usage) : RunAccounting where
  usage :=
    { inputTokens := wrapAdd 32 spent.usage.inputTokens usage.inputTokens
      outputTokens := wrapAdd 32 spent.usage.outputTokens usage.outputTokens
      cacheCreationTokens := sumOptional spent.usage.cacheCreationTokens usage.cacheCreationTokens
      cacheReadTokens := sumOptional spent.usage.cacheReadTokens usage.cacheReadTokens }
  contextTokens := usage.inputTokens

/-! ## Tool calls -/

def extractToolCalls (parts : List ContentPart) : List ToolCallPart :=
  parts.filterMap fun
    | .toolCall c => some c
    | .text _ | .toolResult _ | .thinking _ _ | .subAgentResult _ | .artifact _ => none

def toolFingerprint (calls : List ToolCallPart) : String :=
  "|".intercalate (calls.map fun c => c.name ++ ":" ++ c.input.render)

/-- What a call that was refused for repeating itself is answered with. -/
def nudgeMessage (now : ℕ) (call : ToolCallPart) : Message where
  id := "nudge:" ++ call.id
  role := .tool
  parts := [.toolResult ⟨call.id, "You have called this tool with identical arguments " ++
    "multiple times. Please try a different approach.", false, []⟩]
  createdAtMs := now
  startedAtMs := none

def Round.calls (round : Round) : List ToolCallPart :=
  match round.answer with
  | .response r => extractToolCalls r.parts
  | .failed _ | .cancelled => []

namespace Batch

def results (b : Batch) (calls : List ToolCallPart) : List ToolCompletion :=
  calls.zipIdx.filterMap fun (call, i) => (b.dispatch i).completion? call

def stopped (b : Batch) (calls : List ToolCallPart) : List StoppedCall :=
  calls.zipIdx.filterMap fun (call, i) => (b.dispatch i).stopped? call

def settled (b : Batch) (calls : List ToolCallPart) : Bool :=
  (List.range calls.length).all fun i =>
    (b.dispatch i).answer = .stopRun || decide (i ∈ b.arrivals.filterMap Arrival.index?)

/-- The result that came in. -/
def completed? (b : Batch) (calls : List ToolCallPart) : Arrival → Option ToolCompletion
  | .result i => calls[i]?.bind (b.dispatch i).completion?
  | .hook _ _ _ => none

/-- The results of a batch, in the order they came in. -/
def completions (b : Batch) (calls : List ToolCallPart) : List ToolCompletion :=
  b.arrivals.filterMap (b.completed? calls)

def write (b : Batch) (calls : List ToolCallPart) : Arrival → Option Written
  | .result i => (b.completed? calls (.result i)).map fun c => .event (.toolComplete c)
  | .hook record seq atMs => some (.hook record seq atMs)

def written (b : Batch) (calls : List ToolCallPart) : List Written :=
  calls.map (fun c => .event (.toolExecuting c.id)) ++ b.arrivals.filterMap (b.write calls)

def hooks (b : Batch) : List Written :=
  b.arrivals.filterMap fun
    | .result _ => none
    | .hook record seq atMs => some (.hook record seq atMs)

/-- No hook among the arrivals shows the model anything. -/
def Unseen (b : Batch) : Prop :=
  ∀ record seq atMs, Arrival.hook record seq atMs ∈ b.arrivals → record.action.injected? = none

/-- The results came in in the order they were requested in, identical ones apart. -/
def InOrder (b : Batch) (calls : List ToolCallPart) : Prop :=
  (b.completions calls).map (·.message.content) = (b.results calls).map (·.message.content)

end Batch

/-! ## The loop -/

structure Run where
  agent : Agent
  iteration : ℕ
  recentFingerprints : List String
  spent : RunAccounting
  written : List Written

/-- What one iteration comes to. -/
inductive Progress
  | again (r : Run)
  | ended (r : Run) (result : Except AgentError AgentResult)

namespace Run

def emit (r : Run) (es : List AgentEvent) : Run :=
  { r with written := r.written ++ es.map .event }

def record (r : Run) (ws : List Written) : Run := { r with written := r.written ++ ws }

/-- Put messages behind the run's own history. -/
def push (r : Run) (ms : List Message) : Run :=
  { r with agent := { r.agent with history := r.agent.history ++ ms } }

/-- A run starts with its input. `before` is what was written down for it so far. -/
def start (agent : Agent) (before : List AgentEvent) (input : AgentInput) (now : ℕ) : Run :=
  let r : Run := ⟨agent, 0, [], .new, before.map .event⟩
  (r.emit [.inputMessage input.messageId input]).push [input.toMessage now]

/-- Compact if the prompt has grown too large. -/
def maybeCompact (r : Run) (env : CompactionEnv) : Run :=
  { r with agent := (r.agent.maybeCompact env).1 }.emit (r.agent.maybeCompact env).2

/-- The provider's message, as it is written down and pushed. -/
def assistantMessage (round : Round) (response : CompletionResponse) : Message where
  id := round.messageId
  role := .assistant
  parts := response.parts
  createdAtMs := round.answeredMs
  startedAtMs := some round.callStartedMs

/-- The provider has answered: its call is banked, its message written down and pushed. -/
def answered (r : Run) (round : Round) (response : CompletionResponse) : Run :=
  let r := r.emit [.messageStop round.messageId]
  let r :=
    { r with
      spent := r.spent.bank response.usage
      agent := { r.agent with lastContextTokens := response.usage.inputTokens } }
  (r.emit [.messageComplete (assistantMessage round response)]).push
    [assistantMessage round response]

def complete (r : Run) (atMs : ℕ) : Run :=
  r.emit [.runComplete r.spent.usage r.iteration r.spent.contextTokens atMs]

def remember (r : Run) (fingerprint : String) : Run :=
  let recent := r.recentFingerprints ++ [fingerprint]
  { r with recentFingerprints :=
      if r.agent.config.stuckThreshold < recent.length then recent.tail else recent }

/-- Whether the last batches were `n` or more and all of them this one. -/
def repeats (r : Run) (n : ℕ) (fingerprint : String) : Bool :=
  n ≤ r.recentFingerprints.length && r.recentFingerprints.all (· = fingerprint)

def execute (r : Run) (round : Round) (calls : List ToolCallPart) : Progress :=
  let r := r.record (round.batch.written calls)
  -- a batch is waited out unless the run is cancelled
  if round.batch.cancelled || !round.batch.settled calls then
    .ended r (.error .cancelled)
  else
    let r := r.push ((round.batch.results calls).map ToolCompletion.message)
    match round.batch.stopped calls with
    | [] => .again r
    | stopped => .ended (r.complete round.answeredMs) (.ok (.stopped stopped))

/-- What follows the provider's message. -/
def respond (r : Run) (round : Round) (response : CompletionResponse) : Progress :=
  match extractToolCalls response.parts with
  | [] =>
    if response.stopReason = .maxTokens then
      .ended r (.error (.truncated r.agent.config.maxTokens))
    else
      .ended (r.complete round.answeredMs) (.ok (.completed (extractText response.parts)))
  | call :: rest =>
    let calls := call :: rest
    let r := r.remember (toolFingerprint calls)
    if r.repeats r.agent.config.stuckThreshold (toolFingerprint calls) then
      .ended r (.error (.stuckInLoop call.name r.agent.config.stuckThreshold))
    else if r.repeats r.agent.config.nudgeThreshold (toolFingerprint calls) then
      -- the calls are answered in the run's own history only
      .again ((r.record round.batch.hooks).push (calls.map (nudgeMessage round.answeredMs)))
    else if round.cancelledBeforeTools then
      .ended r (.error .cancelled)
    else
      r.execute round calls

def iterate (r : Run) (round : Round) : Progress :=
  if round.cancelledAtTop then
    .ended r (.error .cancelled)
  else if r.agent.config.maxIterations ≤ r.iteration then
    .ended r (.error (.maxIterationsExceeded r.agent.config.maxIterations))
  else
    let r := { r with iteration := r.iteration + 1 }.maybeCompact round.compaction
    let r := r.emit (.messageStart round.messageId :: round.chunks.map .textChunk)
    match round.answer with
    | .response response => (r.answered round response).respond round response
    | .failed e => .ended r (.error (.provider e))
    | .cancelled => .ended r (.error .cancelled)

/-- Whether the tool calls of this round are refused for repeating themselves. -/
def nudges (r : Run) (round : Round) : Bool :=
  (r.remember (toolFingerprint round.calls)).repeats r.agent.config.nudgeThreshold
    (toolFingerprint round.calls)

def close (r : Run) (atMs : ℕ) : Except AgentError AgentResult → Run
  | .ok _ => r
  | .error _ => r.emit [.runAborted r.spent.usage r.spent.contextTokens atMs]

def callEvents (round : Round) (response : CompletionResponse) : List AgentEvent :=
  .messageStart round.messageId :: round.chunks.map .textChunk ++
    [.messageStop round.messageId, .messageComplete (assistantMessage round response)]

/-- What an iteration after which the run goes on put behind its history and wrote down. -/
theorem iterate_again {r r' : Run} {round : Round} (h : r.iterate round = .again r') :
    ∃ response, round.calls ≠ [] ∧
      r'.agent.history = (r.maybeCompact round.compaction).agent.history ++
        assistantMessage round response ::
          (if r.nudges round then round.calls.map (nudgeMessage round.answeredMs)
            else (round.batch.results round.calls).map ToolCompletion.message) ∧
      r'.written = (r.maybeCompact round.compaction).written ++
        (callEvents round response).map .event ++
        (if r.nudges round then round.batch.hooks else round.batch.written round.calls) := by
  unfold iterate at h
  split_ifs at h
  cases ha : round.answer with
  | failed e => simp [ha] at h
  | cancelled => simp [ha] at h
  | response response =>
    simp only [ha] at h
    have hcalls : round.calls = extractToolCalls response.parts := by rw [Round.calls, ha]
    unfold respond at h
    cases hc : extractToolCalls response.parts with
    | nil =>
      simp only [hc] at h
      split_ifs at h
    | cons call rest =>
      have hconfig : (r.agent.maybeCompact round.compaction).1.config = r.agent.config :=
        r.agent.maybeCompact_config _
      rw [hc] at hcalls
      simp only [hc] at h
      refine ⟨response, by simp [hcalls], ?_⟩
      split_ifs at h with hstuck hnudge hcancel
      · have hn : r.nudges round = true := by
          simpa [nudges, hcalls, repeats, remember, answered, emit, push, maybeCompact, hconfig]
            using hnudge
        cases h
        rw [if_pos hn, if_pos hn, hcalls]
        simp [record, push, answered, emit, remember, callEvents, maybeCompact]
      · have hn : r.nudges round = false := by
          simpa [nudges, hcalls, repeats, remember, answered, emit, push, maybeCompact, hconfig]
            using hnudge
        unfold execute at h
        split_ifs at h
        split at h
        · cases h
          rw [hn, hcalls]
          simp [record, push, answered, emit, remember, callEvents, maybeCompact]
        · cases h

def after? (r : Run) : List Round → Option Run
  | [] => some r
  | round :: rest =>
    match r.iterate round with
    | .again r' => r'.after? rest
    | .ended _ _ => none

/-- Every batch of these rounds is executed, its results come in in order, and no hook shows the
model anything meanwhile. -/
def InStep (r : Run) : List Round → Prop
  | [] => True
  | round :: rest =>
    (r.nudges round = false ∧ round.batch.Unseen ∧ round.batch.InOrder round.calls) ∧
      match r.iterate round with
      | .again r' => r'.InStep rest
      | .ended _ _ => True

end Run

end Horsie.AgentCore
