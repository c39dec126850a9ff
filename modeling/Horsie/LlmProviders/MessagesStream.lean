import Horsie.AgentCore.Run
import Horsie.Lib.Blocks
import Horsie.Lib.Map
import Horsie.Lib.Text
import Horsie.LlmProviders.Anthropic
import Mathlib.Data.List.Infix

/-!
# A completion of the Messages API

A request is streamed, and streamed again where it fails for the moment before any block was opened.
A completion succeeds exactly if some attempt is the first not to fail so, is read to its end and
makes a response (`complete_ok_iff`), and what it returns is what its events told whoever listened
(`complete_streamed`).
-/

namespace Horsie.LlmProviders

open Agent (Value ContentPart Usage)
open AgentCore (StopReason CompletionResponse)
open Lib (told ordered isBlank)
open Lib

/-! ## Failures -/

inductive LlmError
  | rateLimit (retryAfter : Option ℕ)
  | overloaded
  | apiError (status : ℕ) (message : String)
  | network (message : String)
  | eventSink (message : String)
deriving DecidableEq

/-- Whether another attempt could succeed. -/
def LlmError.isTransient : LlmError → Bool
  | .rateLimit _ | .overloaded | .network _ => true
  | .apiError _ _ | .eventSink _ => false

/-- A failure as the client reports it. -/
inductive AnthropicError
  | streamError (errorType message : String)
  | networkError (message : String)
  | unauthorized
  | badRequest (message : String)
  | apiError (message : String)
  | unknown (message : String)
  | deserializationError (message : String)
  | unexpectedError
deriving DecidableEq

def classifyErrorType (errorType message : String) : LlmError :=
  let status (n : ℕ) : LlmError := .apiError n (errorType ++ ": " ++ message)
  match errorType with
  | "overloaded_error" => .overloaded
  | "rate_limit_error" => .rateLimit none
  | "api_error" => .overloaded
  | "invalid_request_error" => status 400
  | "authentication_error" => status 401
  | "permission_error" => status 403
  | "not_found_error" => status 404
  | "request_too_large" => status 413
  | _ => status 502

def knownErrorTypes : List String :=
  ["overloaded_error", "rate_limit_error", "api_error", "invalid_request_error",
    "authentication_error", "permission_error", "not_found_error", "request_too_large"]

/-- The first type that a rendered message names. -/
def classifyOpaque (message : String) : LlmError :=
  match knownErrorTypes.find? fun token => decide (token.toList <:+: message.toList) with
  | some token => classifyErrorType token message
  | none => .apiError 502 message

def toLlmError : AnthropicError → LlmError
  | .streamError errorType message => classifyErrorType errorType message
  | .networkError message => .network message
  | .unauthorized => .apiError 401 "Unauthorized"
  | .badRequest message => .apiError 400 message
  | .apiError message | .unknown message => classifyOpaque message
  | .deserializationError message => .network message
  | .unexpectedError => .network "unexpected error"

/-! ## The stream -/

/-- A block as the stream opens it. The kinds only a request has open nothing. -/
inductive BlockStart
  | text
  | toolUse (id name : String)
  | thinking
  | other
deriving DecidableEq

inductive BlockDelta
  | text (text : String)
  | inputJson (partialJson : String)
  | thinking (thinking : String)
  | signature (signature : String)
deriving DecidableEq

inductive StreamEvent
  | messageStart (usage : Option WireUsage)
  | contentBlockStart (index : ℕ) (block : BlockStart)
  | contentBlockDelta (index : ℕ) (delta : BlockDelta)
  | contentBlockStop (index : ℕ)
  | messageDelta (stopReason : Option String) (usage : Option WireUsage)
  | messageStop
deriving DecidableEq

/-- What a stream hands over next. -/
abbrev StreamItem := Except AnthropicError StreamEvent

/-- What whoever listens is told, with the index of the block in 32 bits. -/
inductive AgentEvent
  | textBlockStart (index : ℕ)
  | toolCallStart (index : ℕ) (toolCallId name : String)
  | thinkingBlockStart (index : ℕ)
  | textChunk (index : ℕ) (text : String)
  | toolCallInputDelta (index : ℕ) (toolCallId delta : String)
  | thinkingChunk (index : ℕ) (text : String)
  | thinkingSignatureChunk (index : ℕ) (signature : String)
  | contentBlockStop (index : ℕ)
deriving DecidableEq

/-- What was gathered of the attempt, and whether any attempt ended its message. -/
structure Reading where
  textBlocks : Map ℕ String
  toolBlocks : Map ℕ (String × String × String)
  thinkingBlocks : Map ℕ (String × String)
  stopReason : StopReason
  counts : Counts
  sawTerminal : Bool

namespace Reading

def new : Reading := ⟨∅, ∅, ∅, .endTurn, .zero, false⟩

/-- The next attempt starts over, but for the end of a message. -/
def retry (r : Reading) : Reading := { new with sawTerminal := r.sawTerminal }

/-- No block was opened. -/
def isEmpty (r : Reading) : Bool :=
  r.textBlocks.keys.isEmpty && r.toolBlocks.keys.isEmpty && r.thinkingBlocks.keys.isEmpty

def stopReasonOf : Option String → StopReason
  | some "tool_use" => .toolUse
  | some "max_tokens" => .maxTokens
  | some _ | none => .endTurn

/-- One event of the stream, with the event it is passed on as. -/
def step (r : Reading) : StreamEvent → Reading × Option AgentEvent
  | .messageStart usage => ({ r with counts := r.counts.messageStart usage }, none)
  | .contentBlockStart index block =>
    match block with
    | .text =>
      ({ r with textBlocks := r.textBlocks.insert index "" },
        some (.textBlockStart (index % 2 ^ 32)))
    | .toolUse id name =>
      ({ r with toolBlocks := r.toolBlocks.insert index (id, name, "") },
        some (.toolCallStart (index % 2 ^ 32) id name))
    | .thinking =>
      ({ r with thinkingBlocks := r.thinkingBlocks.insert index ("", "") },
        some (.thinkingBlockStart (index % 2 ^ 32)))
    | .other => (r, none)
  | .contentBlockDelta index delta =>
    match delta with
    | .text text =>
      ({ r with textBlocks := r.textBlocks.adjust index (· ++ text) },
        some (.textChunk (index % 2 ^ 32) text))
    | .inputJson partialJson =>
      match r.toolBlocks.lookup index with
      | some (id, _, _) =>
        ({ r with toolBlocks := r.toolBlocks.adjust index fun (id, name, acc) =>
            (id, name, acc ++ partialJson) },
          some (.toolCallInputDelta (index % 2 ^ 32) id partialJson))
      | none => (r, none)
    | .thinking thinking =>
      ({ r with thinkingBlocks := r.thinkingBlocks.adjust index fun (acc, sig) =>
          (acc ++ thinking, sig) },
        some (.thinkingChunk (index % 2 ^ 32) thinking))
    | .signature signature =>
      ({ r with thinkingBlocks := r.thinkingBlocks.adjust index fun (acc, sig) =>
          (acc, sig ++ signature) },
        some (.thinkingSignatureChunk (index % 2 ^ 32) signature))
  | .contentBlockStop index => (r, some (.contentBlockStop (index % 2 ^ 32)))
  | .messageDelta stopReason usage =>
    ({ r with
        sawTerminal := true
        stopReason := stopReasonOf stopReason
        counts := r.counts.messageDelta usage }, none)
  | .messageStop => ({ r with sawTerminal := true }, none)

end Reading

/-- What was gathered and what was told so far. -/
structure Progress where
  reading : Reading
  sent : List AgentEvent

/-- How an attempt ended. -/
inductive Verdict
  | closed
  | broken (e : LlmError)
  /-- Whoever listens refused an event. -/
  | refused (e : LlmError)
deriving DecidableEq

/-- Why whoever was told so much refuses the last event of it, if it does. -/
abbrev Sink := List AgentEvent → Option String

/-- One attempt. -/
def stream (sink : Sink) (p : Progress) : List StreamItem → Progress × Verdict
  | [] => (p, .closed)
  | .error e :: _ => (p, .broken (toLlmError e))
  | .ok event :: items =>
    let (reading, emitted) := p.reading.step event
    match emitted with
    | none => stream sink { p with reading } items
    | some told =>
      let sent := p.sent ++ [told]
      match sink sent with
      | some message => (⟨reading, sent⟩, .refused (.eventSink message))
      | none => stream sink ⟨reading, sent⟩ items

/-! ## The response -/

/-- How the provider reads arguments, and whether it keeps signatures. -/
structure AnthropicProvider where
  parse : String → Except String Value
  keepThinkingSignature : Bool

def parseToolInput (parse : String → Except String Value) (raw tool : String) :
    Except LlmError Value :=
  if isBlank raw then .ok (.obj [])
  else
    (parse raw).mapError fun e =>
      .apiError 502 ("tool call '" ++ tool ++ "' had unparseable input JSON (" ++ e ++ "); " ++
        toString raw.utf8ByteSize ++ " byte(s) received, likely a truncated stream")

def thinkingPart (text signature : String) (keepSignature : Bool) : Option ContentPart :=
  if text.isEmpty then none
  else some (.thinking text (if keepSignature && !signature.isEmpty then some signature else none))

namespace AnthropicProvider

variable (provider : AnthropicProvider)

/-- The parts of one block. -/
def blockParts (text : Option String) (tool : Option (String × String × String))
    (thinking : Option (String × String)) : Except LlmError (List ContentPart) :=
  match text, tool, thinking with
  | some text, _, _ => .ok (if text.isEmpty then [] else [.text text])
  | none, some (id, name, json), _ =>
    (parseToolInput provider.parse json name).map fun input => [.toolCall ⟨id, name, input⟩]
  | none, none, some (thinking, signature) =>
    .ok (thinkingPart thinking signature provider.keepThinkingSignature).toList
  | none, none, none => .ok []

/-- The parts of the blocks in order, unless one has none. -/
def assemble (blocks : ℕ → Except LlmError (List ContentPart)) :
    List ℕ → Except LlmError (List ContentPart)
  | [] => .ok []
  | i :: is =>
    match blocks i with
    | .error e => .error e
    | .ok parts => (assemble blocks is).map (parts ++ ·)

def parts (r : Reading) : Except LlmError (List ContentPart) :=
  assemble (fun i => provider.blockParts (r.textBlocks.lookup i) (r.toolBlocks.lookup i)
    (r.thinkingBlocks.lookup i))
    (ordered (r.textBlocks.keys ++ r.toolBlocks.keys ++ r.thinkingBlocks.keys))

def respond (r : Reading) : Except LlmError CompletionResponse :=
  (provider.parts r).map fun parts => ⟨parts, r.stopReason, r.counts.usage⟩

end AnthropicProvider

def maxStreamRetries : ℕ := 6

/-- Attempts from the `n`-th on, so many more if this one fails for the moment before it opened a
block. What the last one gathered is handed on with the failure of the one before. -/
def attempts (sink : Sink) (streams : ℕ → List StreamItem) :
    ℕ → ℕ → Progress → Option LlmError → Progress × Except LlmError (Option LlmError)
  | left, n, p, lastError =>
    let (p, verdict) := stream sink p (streams n)
    match verdict with
    | .closed => (p, .ok lastError)
    | .refused e => (p, .error e)
    | .broken e =>
      if e.isTransient && p.reading.isEmpty then
        match left with
        | 0 => (p, .ok (some e))
        | left + 1 => attempts sink streams left (n + 1) { p with reading := p.reading.retry } (some e)
      else (p, .error e)

/-- What becomes of the reading that the attempts leave. -/
def AnthropicProvider.finish (provider : AnthropicProvider) (r : Reading)
    (lastError : Option LlmError) : Except LlmError CompletionResponse :=
  match r.isEmpty, lastError with
  | true, some e => .error e
  | _, _ =>
    if r.sawTerminal then provider.respond r
    else .error (lastError.getD (.network
      "stream ended without a terminal event (connection dropped mid-response)"))

/-- All that whoever listens is told, and the response. -/
def AnthropicProvider.complete (provider : AnthropicProvider) (sink : Sink)
    (streams : ℕ → List StreamItem) : List AgentEvent × Except LlmError CompletionResponse :=
  let (p, lastError) := attempts sink streams maxStreamRetries 0 ⟨.new, []⟩ none
  (p.sent, lastError.bind (provider.finish p.reading))

/-! ## What is told -/

namespace AgentEvent

def opensText (i : ℕ) : AgentEvent → Option Unit
  | .textBlockStart index => if index = i then some () else none
  | _ => none

def opensTool (i : ℕ) : AgentEvent → Option (String × String)
  | .toolCallStart index id name => if index = i then some (id, name) else none
  | _ => none

def opensThinking (i : ℕ) : AgentEvent → Option Unit
  | .thinkingBlockStart index => if index = i then some () else none
  | _ => none

def textPiece (i : ℕ) : AgentEvent → Option String
  | .textChunk index text => if index = i then some text else none
  | _ => none

def inputPiece (i : ℕ) : AgentEvent → Option String
  | .toolCallInputDelta index _ delta => if index = i then some delta else none
  | _ => none

def thinkingPiece (i : ℕ) : AgentEvent → Option String
  | .thinkingChunk index text => if index = i then some text else none
  | _ => none

def signaturePiece (i : ℕ) : AgentEvent → Option String
  | .thinkingSignatureChunk index signature => if index = i then some signature else none
  | _ => none

/-- The number of the block that an event opens. -/
def opened? : AgentEvent → Option ℕ
  | .textBlockStart index | .toolCallStart index _ _ | .thinkingBlockStart index => some index
  | _ => none

end AgentEvent

/-- The text of a block, as it was told. -/
def textOf (i : ℕ) (events : List AgentEvent) : Option String :=
  (told (·.opensText i) (·.textPiece i) events).map (·.2)

/-- The id, the name and the arguments of a call, as they were told. -/
def toolOf (i : ℕ) (events : List AgentEvent) : Option (String × String × String) :=
  (told (·.opensTool i) (·.inputPiece i) events).map fun x => (x.1.1, x.1.2, x.2)

/-- A block of thinking and its signature, as they were told. -/
def thinkingOf (i : ℕ) (events : List AgentEvent) : Option (String × String) :=
  (told (·.opensThinking i) (·.thinkingPiece i) events).bind fun x =>
    (told (·.opensThinking i) (·.signaturePiece i) events).map fun y => (x.2, y.2)

/-- The parts that whoever listened puts together. -/
def AnthropicProvider.toldParts (provider : AnthropicProvider) (events : List AgentEvent) :
    Except LlmError (List ContentPart) :=
  assemble (fun i => provider.blockParts (textOf i events) (toolOf i events) (thinkingOf i events))
    (ordered (events.filterMap (·.opened?)))

/-- The number of a block fits its field. -/
def StreamEvent.Indexed : StreamEvent → Prop
  | .contentBlockStart index _ | .contentBlockDelta index _ | .contentBlockStop index =>
    index < 2 ^ 32
  | .messageStart _ | .messageDelta _ _ | .messageStop => True

variable {i : ℕ} {events : List AgentEvent}

theorem textOf_snoc (e : AgentEvent) : textOf i (events ++ [e]) =
    match e with
    | .textBlockStart index => if index = i then some "" else textOf i events
    | .textChunk index text =>
      if index = i then (textOf i events).map (· ++ text) else textOf i events
    | _ => textOf i events := by
  unfold textOf
  rw [told_snoc]
  cases e with
  | textBlockStart index | textChunk index text =>
    by_cases hi : index = i <;>
      simp [AgentEvent.opensText, AgentEvent.textPiece, hi, Function.comp_def]
  | _ => simp [AgentEvent.opensText, AgentEvent.textPiece]

theorem toolOf_snoc (e : AgentEvent) : toolOf i (events ++ [e]) =
    match e with
    | .toolCallStart index id name => if index = i then some (id, name, "") else toolOf i events
    | .toolCallInputDelta index _ delta =>
      if index = i then (toolOf i events).map fun (id, name, acc) => (id, name, acc ++ delta)
      else toolOf i events
    | _ => toolOf i events := by
  unfold toolOf
  rw [told_snoc]
  cases e with
  | toolCallStart index | toolCallInputDelta index =>
    by_cases hi : index = i <;>
      simp [AgentEvent.opensTool, AgentEvent.inputPiece, hi, Function.comp_def]
  | _ => simp [AgentEvent.opensTool, AgentEvent.inputPiece]

theorem thinkingOf_snoc (e : AgentEvent) : thinkingOf i (events ++ [e]) =
    match e with
    | .thinkingBlockStart index => if index = i then some ("", "") else thinkingOf i events
    | .thinkingChunk index text =>
      if index = i then (thinkingOf i events).map fun (acc, sig) => (acc ++ text, sig)
      else thinkingOf i events
    | .thinkingSignatureChunk index signature =>
      if index = i then (thinkingOf i events).map fun (acc, sig) => (acc, sig ++ signature)
      else thinkingOf i events
    | _ => thinkingOf i events := by
  unfold thinkingOf
  rw [told_snoc, told_snoc]
  cases e with
  | thinkingBlockStart index | thinkingChunk index text | thinkingSignatureChunk index signature =>
    by_cases hi : index = i <;>
      simp [AgentEvent.opensThinking, AgentEvent.thinkingPiece, AgentEvent.signaturePiece, hi,
        Option.map_bind, Option.bind_map, Function.comp_def]
  | _ =>
    simp [AgentEvent.opensThinking, AgentEvent.thinkingPiece, AgentEvent.signaturePiece]

/-- The blocks gathered are the blocks told. -/
structure Heard (r : Reading) (events : List AgentEvent) : Prop where
  text : ∀ i, r.textBlocks.lookup i = textOf i events
  tool : ∀ i, r.toolBlocks.lookup i = toolOf i events
  thinking : ∀ i, r.thinkingBlocks.lookup i = thinkingOf i events

variable {r : Reading}

theorem heard_new : Heard .new [] := ⟨fun _ => rfl, fun _ => rfl, fun _ => rfl⟩

theorem Heard.step (h : Heard r events) {e : StreamEvent} (he : e.Indexed) :
    Heard (r.step e).1 (events ++ (r.step e).2.toList) := by
  cases e with
  | messageStart | messageDelta | messageStop =>
    simp only [Reading.step, Option.toList_none, List.append_nil]
    exact ⟨h.text, h.tool, h.thinking⟩
  | contentBlockStart index block =>
    have hindex : index % 2 ^ 32 = index := Nat.mod_eq_of_lt he
    cases block <;>
      constructor <;> intro i <;>
      simp only [Reading.step, Option.toList_some, Option.toList_none, List.append_nil, hindex,
        textOf_snoc, toolOf_snoc, thinkingOf_snoc, Map.lookup_insert_eq, h.text, h.tool,
        h.thinking, eq_comm (a := i)]
  | contentBlockStop index =>
    constructor <;> intro i <;>
      simp only [Reading.step, Option.toList_some, textOf_snoc, toolOf_snoc, thinkingOf_snoc,
        h.text, h.tool, h.thinking]
  | contentBlockDelta index delta =>
    have hindex : index % 2 ^ 32 = index := Nat.mod_eq_of_lt he
    cases delta with
    | inputJson partialJson =>
      cases hl : r.toolBlocks.lookup index with
      | none =>
        simp only [Reading.step, hl, Option.toList_none, List.append_nil]
        exact h
      | some block =>
        constructor <;> intro i <;>
        simp only [Reading.step, hl, Option.toList_some, hindex,
          textOf_snoc, toolOf_snoc, thinkingOf_snoc, Map.lookup_adjust, h.text, h.tool,
          h.thinking, eq_comm (a := i)]
    | _ =>
      constructor <;> intro i <;>
      simp only [Reading.step, Option.toList_some, hindex,
        textOf_snoc, toolOf_snoc, thinkingOf_snoc, Map.lookup_adjust, h.text, h.tool,
        h.thinking, eq_comm (a := i)]

/-! ## Attempts -/

/-- The events of an attempt up to where its stream ends or breaks. -/
def received : List StreamItem → List StreamEvent
  | .ok e :: items => e :: received items
  | .error _ :: _ | [] => []

def StreamEvent.isTerminal : StreamEvent → Bool
  | .messageDelta _ _ | .messageStop => true
  | .messageStart _ | .contentBlockStart _ _ | .contentBlockDelta _ _ | .contentBlockStop _ => false

section

variable (sink : Sink) (streams : ℕ → List StreamItem)

/-- What the attempt `n` begins with, where all before it were given up. -/
def before : ℕ → Progress
  | 0 => ⟨.new, []⟩
  | n + 1 =>
    let p := (stream sink (before n) (streams n)).1
    { p with reading := p.reading.retry }

/-- What the attempt `n` comes to. -/
def attempt (n : ℕ) : Progress × Verdict := stream sink (before sink streams n) (streams n)

/-- The attempt failed for the moment, and opened no block. -/
def Discarded (n : ℕ) : Prop :=
  ∃ e, (attempt sink streams n).2 = .broken e ∧ e.isTransient = true ∧
    (attempt sink streams n).1.reading.isEmpty = true

/-- The attempt `k` makes the response: it is the first that was not given up, it was read to its
end, a message ended in it or in one before it, and if it is not the very first it opened a block. -/
structure Answers (provider : AnthropicProvider) (k : ℕ) (resp : CompletionResponse) : Prop where
  discarded : ∀ j < k, Discarded sink streams j
  closed : (attempt sink streams k).2 = .closed
  opened : k = 0 ∨ (attempt sink streams k).1.reading.isEmpty = false
  terminal : ∃ j ≤ k, ∃ e ∈ received (streams j), e.isTerminal = true
  responds : provider.respond (attempt sink streams k).1.reading = .ok resp

end

variable {sink : Sink} {streams : ℕ → List StreamItem} {p : Progress} {items : List StreamItem}
  {provider : AnthropicProvider} {resp : CompletionResponse}

theorem Reading.step_sawTerminal (r : Reading) (e : StreamEvent) :
    (r.step e).1.sawTerminal = (r.sawTerminal || e.isTerminal) := by
  cases e with
  | messageStart | contentBlockStop => exact (Bool.or_false _).symm
  | messageDelta | messageStop => exact (Bool.or_true _).symm
  | contentBlockStart index block => cases block <;> exact (Bool.or_false _).symm
  | contentBlockDelta index delta =>
    cases delta with
    | inputJson partialJson =>
      simp only [Reading.step, StreamEvent.isTerminal, Bool.or_false]
      split <;> rfl
    | _ => exact (Bool.or_false _).symm

/-- One event of an attempt. -/
theorem stream_cons (sink : Sink) (p : Progress) (items : List StreamItem) (e : StreamEvent) :
    (∃ message, stream sink p (.ok e :: items) =
      (⟨(p.reading.step e).1, p.sent ++ (p.reading.step e).2.toList⟩,
        .refused (.eventSink message))) ∨
    stream sink p (.ok e :: items) =
      stream sink ⟨(p.reading.step e).1, p.sent ++ (p.reading.step e).2.toList⟩ items := by
  rw [stream]
  cases hstep : p.reading.step e with
  | mk reading emitted =>
    cases emitted with
    | none =>
      right
      show stream sink { p with reading } items = stream sink ⟨reading, p.sent ++ []⟩ items
      rw [List.append_nil]
    | some told =>
      dsimp only
      cases sink (p.sent ++ [told]) with
      | some message => exact .inl ⟨message, rfl⟩
      | none => exact .inr rfl

theorem stream_heard (sink : Sink) (h : Heard p.reading p.sent) (hi : ∀ e ∈ received items, e.Indexed) :
    Heard (stream sink p items).1.reading (stream sink p items).1.sent := by
  induction items generalizing p with
  | nil => exact h
  | cons item items ih =>
    cases item with
    | error e => exact h
    | ok e =>
      obtain ⟨he, hi⟩ := List.forall_mem_cons.mp hi
      rcases stream_cons sink p items e with ⟨message, hs⟩ | hs
      · rw [hs]
        exact h.step he
      · rw [hs]
        exact ih (h.step he) hi

theorem stream_sawTerminal (sink : Sink) (p : Progress) (items : List StreamItem)
    (h : ∀ e, (stream sink p items).2 ≠ .refused e) :
    (stream sink p items).1.reading.sawTerminal =
      (p.reading.sawTerminal || (received items).any (·.isTerminal)) := by
  induction items generalizing p with
  | nil => exact (Bool.or_false _).symm
  | cons item items ih =>
    cases item with
    | error e => exact (Bool.or_false _).symm
    | ok e =>
      rcases stream_cons sink p items e with ⟨message, hs⟩ | hs
      · rw [hs] at h
        exact absurd rfl (h _)
      · rw [hs] at h ⊢
        rw [ih _ h, Reading.step_sawTerminal, Bool.or_assoc]
        rfl

/-- No block was gathered where none was opened. -/
theorem Heard.retry {r : Reading} (h : Heard r events) (hr : r.isEmpty = true) :
    Heard r.retry events := by
  have hnone : ∀ {γ : Type} {m : Map ℕ γ}, m.keys.isEmpty = true → ∀ i, m.lookup i = none := by
    intro γ m hm i
    apply AList.lookup_eq_none.mpr
    rw [AList.mem_keys, List.isEmpty_iff.mp hm]
    exact List.not_mem_nil
  simp only [Reading.isEmpty, Bool.and_eq_true] at hr
  obtain ⟨⟨htext, htool⟩, hthinking⟩ := hr
  refine ⟨fun i => ?_, fun i => ?_, fun i => ?_⟩
  · rw [← h.text, hnone htext]
    rfl
  · rw [← h.tool, hnone htool]
    rfl
  · rw [← h.thinking, hnone hthinking]
    rfl

/-- One attempt, and what comes behind it. -/
theorem attempts_step (left n : ℕ) (p : Progress) (lastError : Option LlmError) :
    attempts sink streams left n p lastError =
      let q := (stream sink p (streams n)).1
      match (stream sink p (streams n)).2 with
      | .closed => (q, .ok lastError)
      | .refused e => (q, .error e)
      | .broken e =>
        if e.isTransient && q.reading.isEmpty then
          match left with
          | 0 => (q, .ok (some e))
          | left + 1 =>
            attempts sink streams left (n + 1) { q with reading := q.reading.retry } (some e)
        else (q, .error e) := by
  cases left <;> rw [attempts]

theorem attempts_heard (sink : Sink) (hi : ∀ n, ∀ e ∈ received (streams n), e.Indexed)
    (left n : ℕ) (h : Heard p.reading p.sent) (lastError : Option LlmError) :
    Heard (attempts sink streams left n p lastError).1.reading
      (attempts sink streams left n p lastError).1.sent := by
  induction left using Nat.strong_induction_on generalizing n p lastError with | _ left ih
  have hstream := stream_heard sink h (hi n)
  rw [attempts_step]
  cases (stream sink p (streams n)).2 with
  | closed | refused => exact hstream
  | broken e =>
    dsimp only
    split_ifs with hretry
    · cases left with
      | zero => exact hstream
      | succ left =>
        have hempty := (Bool.and_eq_true_iff.mp hretry).2
        exact ih left (Nat.lt_succ_self left) (n + 1) (hstream.retry hempty) _
    · exact hstream

/-! ## The response is what was told -/

theorem isSome_thinkingOf : (thinkingOf i events).isSome = true ↔
    ∃ e ∈ events, (e.opensThinking i).isSome = true := by
  have hthinking : (told (·.opensThinking i) (·.thinkingPiece i) events).isSome = true ↔ _ :=
    Lib.isSome_told
  have hsignature : (told (·.opensThinking i) (·.signaturePiece i) events).isSome = true ↔ _ :=
    Lib.isSome_told
  unfold thinkingOf
  rw [← hthinking]
  rw [← hthinking] at hsignature
  cases hx : told (·.opensThinking i) (·.thinkingPiece i) events with
  | none => rfl
  | some x =>
    rw [hx] at hsignature
    show (Option.map _ _).isSome = true ↔ _
    rw [Option.isSome_map]
    exact hsignature

theorem Heard.parts {r : Reading} (h : Heard r events) :
    provider.parts r = provider.toldParts events := by
  have hkeys : ordered (r.textBlocks.keys ++ r.toolBlocks.keys ++ r.thinkingBlocks.keys) =
      ordered (events.filterMap (·.opened?)) := by
    apply Lib.ordered_congr
    intro i
    have hmem : ∀ {γ : Type} {m : Map ℕ γ}, i ∈ m.keys ↔ (m.lookup i).isSome = true :=
      AList.lookup_isSome.symm
    have hopened : ∀ e : AgentEvent, e.opened? = some i ↔ (e.opensText i).isSome = true ∨
        (e.opensTool i).isSome = true ∨ (e.opensThinking i).isSome = true := by
      intro e
      cases e <;> simp [AgentEvent.opened?, AgentEvent.opensText, AgentEvent.opensTool,
        AgentEvent.opensThinking]
    rw [List.mem_append, List.mem_append, hmem, hmem, hmem, h.text, h.tool, h.thinking,
      isSome_thinkingOf, textOf, Option.isSome_map, Lib.isSome_told, toolOf, Option.isSome_map,
      Lib.isSome_told, List.mem_filterMap]
    simp only [hopened, and_or_left, exists_or, or_assoc]
  unfold AnthropicProvider.parts AnthropicProvider.toldParts
  rw [hkeys]
  congr 1
  funext i
  rw [h.text, h.tool, h.thinking]

theorem finish_eq_ok {r : Reading} {lastError : Option LlmError} :
    provider.finish r lastError = .ok resp ↔
      (lastError = none ∨ r.isEmpty = false) ∧ r.sawTerminal = true ∧
        provider.respond r = .ok resp := by
  unfold AnthropicProvider.finish
  cases r.isEmpty <;> cases lastError <;> cases r.sawTerminal <;> simp

/-- Where blocks are numbered in 32 bits, whoever listened has heard, attempts given up included,
just the parts of the response. -/
theorem complete_streamed (hi : ∀ n, ∀ e ∈ received (streams n), e.Indexed)
    (h : (provider.complete sink streams).2 = .ok resp) :
    provider.toldParts (provider.complete sink streams).1 = .ok resp.parts := by
  have hheard := attempts_heard sink hi maxStreamRetries 0 (p := ⟨.new, []⟩) heard_new none
  unfold AnthropicProvider.complete at h ⊢
  generalize attempts sink streams maxStreamRetries 0 ⟨.new, []⟩ none = a at h hheard ⊢
  obtain ⟨p, result⟩ := a
  cases result with
  | error e => cases h
  | ok lastError =>
    obtain ⟨-, -, hrespond⟩ := finish_eq_ok.mp h
    show provider.toldParts p.sent = .ok resp.parts
    rw [← hheard.parts]
    unfold AnthropicProvider.respond at hrespond
    cases hparts : provider.parts p.reading with
    | error e =>
      rw [hparts] at hrespond
      cases hrespond
    | ok parts =>
      rw [hparts] at hrespond
      cases hrespond
      rfl

/-- Reads the one text that calls without arguments have. -/
def plainProvider : AnthropicProvider where
  parse raw := if raw = "{}" then .ok (.obj []) else .error "expected value"
  keepThinkingSignature := false

/-- An overloaded attempt, and one that says something and calls a tool. -/
def overloadedStreams : ℕ → List StreamItem
  | 0 => [.error (.streamError "overloaded_error" "try again")]
  | _ => [.ok (.messageStart none), .ok (.contentBlockStart 0 .text),
      .ok (.contentBlockDelta 0 (.text "I ")), .ok (.contentBlockDelta 0 (.text "look")),
      .ok (.contentBlockStop 0), .ok (.contentBlockStart 1 (.toolUse "c" "list")),
      .ok (.contentBlockDelta 1 (.inputJson "\x7b")), .ok (.contentBlockDelta 1 (.inputJson "\x7d")),
      .ok (.contentBlockStop 1), .ok (.messageDelta (some "tool_use") none), .ok .messageStop]

theorem complete_streamed_overloaded :
    plainProvider.toldParts (plainProvider.complete (fun _ => none) overloadedStreams).1 =
      .ok [.text "I look", .toolCall ⟨"c", "list", .obj []⟩] := by
  have hresponse : (plainProvider.complete (fun _ => none) overloadedStreams).2 =
      .ok ⟨[.text "I look", .toolCall ⟨"c", "list", .obj []⟩], .toolUse, Counts.zero.usage⟩ := by
    decide +kernel
  refine complete_streamed (fun n => ?_) hresponse
  cases n with
  | zero => exact fun e he => absurd he List.not_mem_nil
  | succ n => simp [overloadedStreams, received, StreamEvent.Indexed]

/-! ## When there is a response -/

/-- The first of some attempts that is not given up. -/
theorem exists_first {D Q : ℕ → Prop} {left : ℕ} :
    (∃ k ≤ left, (∀ j < k, D j) ∧ Q k) ↔
      Q 0 ∨ D 0 ∧ ∃ l, left = l + 1 ∧ ∃ k ≤ l, (∀ j < k, D (j + 1)) ∧ Q (k + 1) := by
  constructor
  · rintro ⟨k, hk, hD, hQ⟩
    cases k with
    | zero => exact .inl hQ
    | succ k =>
      obtain ⟨l, rfl⟩ := Nat.exists_eq_succ_of_ne_zero (Nat.ne_of_gt (Nat.zero_lt_of_lt hk))
      exact .inr ⟨hD 0 (Nat.succ_pos k), l, rfl, k, Nat.le_of_succ_le_succ hk,
        fun j hj => hD (j + 1) (Nat.succ_lt_succ hj), hQ⟩
  · rintro (hQ | ⟨hD, l, rfl, k, hk, hrest, hQ⟩)
    · exact ⟨0, Nat.zero_le _, fun j hj => absurd hj (Nat.not_lt_zero j), hQ⟩
    · refine ⟨k + 1, Nat.succ_le_succ hk, fun j hj => ?_, hQ⟩
      cases j with
      | zero => exact hD
      | succ j => exact hrest j (Nat.lt_of_succ_lt_succ hj)

theorem attempts_eq_ok (sink : Sink) (streams : ℕ → List StreamItem) (provider : AnthropicProvider)
    (left n : ℕ) (lastError : Option LlmError) :
    (attempts sink streams left n (before sink streams n) lastError).2.bind (provider.finish
      (attempts sink streams left n (before sink streams n) lastError).1.reading) = .ok resp ↔
    ∃ k ≤ left, (∀ j < k, Discarded sink streams (n + j)) ∧
      (attempt sink streams (n + k)).2 = .closed ∧
      (k = 0 ∧ lastError = none ∨ (attempt sink streams (n + k)).1.reading.isEmpty = false) ∧
      (attempt sink streams (n + k)).1.reading.sawTerminal = true ∧
      provider.respond (attempt sink streams (n + k)).1.reading = .ok resp := by
  induction left using Nat.strong_induction_on generalizing n lastError with | _ left ih
  have hattempt : stream sink (before sink streams n) (streams n) = attempt sink streams n := rfl
  rw [exists_first (D := fun j => Discarded sink streams (n + j)), attempts_step, hattempt]
  simp only [Nat.add_zero]
  cases hv : (attempt sink streams n).2 with
  | closed =>
    have hnot : ¬ Discarded sink streams n := by
      rintro ⟨e, he, -⟩
      rw [hv] at he
      cases he
    rw [or_iff_left (fun h => hnot h.1)]
    show provider.finish _ lastError = _ ↔ _
    simp only [finish_eq_ok, true_and]
  | refused e =>
    have hnot : ¬ Discarded sink streams n := by
      rintro ⟨e', he, -⟩
      rw [hv] at he
      cases he
    rw [or_iff_left (fun h => hnot h.1)]
    exact iff_of_false (fun h => by cases h) fun h => by cases h.1
  | broken e =>
    rw [or_iff_right (fun h => by cases h.1)]
    dsimp only
    by_cases hretry : (e.isTransient && (attempt sink streams n).1.reading.isEmpty) = true
    · obtain ⟨htransient, hempty⟩ := Bool.and_eq_true_iff.mp hretry
      have hdiscarded : Discarded sink streams n := ⟨e, hv, htransient, hempty⟩
      rw [if_pos hretry]
      cases left with
      | zero =>
        refine iff_of_false (fun h => ?_) fun ⟨_, l, hl, _⟩ => by cases hl
        obtain ⟨hlast, -⟩ := finish_eq_ok.mp h
        rw [hempty] at hlast
        rcases hlast with hlast | hlast <;> cases hlast
      | succ left =>
        have hshift : ∀ k, n + (k + 1) = n + 1 + k := fun k => by omega
        have hbefore : (⟨(attempt sink streams n).1.reading.retry, (attempt sink streams n).1.sent⟩ :
            Progress) = before sink streams (n + 1) := rfl
        dsimp only
        rw [hbefore, ih left (Nat.lt_succ_self left) (n + 1), and_iff_right hdiscarded]
        constructor
        · rintro ⟨k, hk, hD, hclosed, hopened, hrest⟩
          refine ⟨left, rfl, k, hk, fun j hj => hshift j ▸ hD j hj, hshift k ▸ hclosed, .inr ?_,
            hshift k ▸ hrest⟩
          rw [hshift]
          exact hopened.resolve_left fun h => by cases h.2
        · rintro ⟨l, hl, k, hk, hD, hclosed, hopened, hrest⟩
          obtain rfl := Nat.succ.inj hl
          refine ⟨k, hk, fun j hj => hshift j ▸ hD j hj, hshift k ▸ hclosed, .inr ?_,
            hshift k ▸ hrest⟩
          rw [← hshift]
          exact hopened.resolve_left fun h => absurd h.1 (Nat.succ_ne_zero k)
    · have hnot : ¬ Discarded sink streams n := by
        rintro ⟨e', he, htransient, hempty⟩
        rw [hv] at he
        cases he
        exact hretry (Bool.and_eq_true_iff.mpr ⟨htransient, hempty⟩)
      rw [if_neg hretry]
      exact iff_of_false (fun h => by cases h) fun h => hnot h.1

theorem before_sawTerminal {n : ℕ} (h : ∀ j < n, Discarded sink streams j) :
    (before sink streams n).reading.sawTerminal = true ↔
      ∃ j < n, ∃ e ∈ received (streams j), e.isTerminal = true := by
  induction n with
  | zero => simp [before, Reading.new]
  | succ n ih =>
    obtain ⟨e, he, -⟩ := h n (Nat.lt_succ_self n)
    have hsaw := stream_sawTerminal sink (before sink streams n) (streams n) fun e' he' => by
        rw [show (stream sink (before sink streams n) (streams n)).2 = .broken e from he] at he'
        cases he'
    show (stream sink (before sink streams n) (streams n)).1.reading.sawTerminal = true ↔ _
    rw [hsaw, Bool.or_eq_true, ih fun j hj => h j (Nat.lt_succ_of_lt hj), List.any_eq_true]
    constructor
    · rintro (⟨j, hj, hrest⟩ | hrest)
      · exact ⟨j, Nat.lt_succ_of_lt hj, hrest⟩
      · exact ⟨n, Nat.lt_succ_self n, hrest⟩
    · rintro ⟨j, hj, hrest⟩
      rcases Nat.lt_succ_iff_lt_or_eq.mp hj with hj | rfl
      · exact .inl ⟨j, hj, hrest⟩
      · exact .inr hrest

theorem attempt_sawTerminal {k : ℕ} (h : ∀ j < k, Discarded sink streams j)
    (hclosed : (attempt sink streams k).2 = .closed) :
    (attempt sink streams k).1.reading.sawTerminal = true ↔
      ∃ j ≤ k, ∃ e ∈ received (streams j), e.isTerminal = true := by
  have hsaw := stream_sawTerminal sink (before sink streams k) (streams k) fun e he => by
      rw [show (stream sink (before sink streams k) (streams k)).2 = .closed from hclosed] at he
      cases he
  show (stream sink (before sink streams k) (streams k)).1.reading.sawTerminal = true ↔ _
  rw [hsaw, Bool.or_eq_true, before_sawTerminal h, List.any_eq_true]
  constructor
  · rintro (⟨j, hj, hrest⟩ | hrest)
    · exact ⟨j, hj.le, hrest⟩
    · exact ⟨k, le_rfl, hrest⟩
  · rintro ⟨j, hj, hrest⟩
    rcases Nat.lt_or_eq_of_le hj with hj | rfl
    · exact .inl ⟨j, hj, hrest⟩
    · exact .inr hrest

/-- A completion makes a response exactly if one of the first attempts and six retries answers. -/
theorem complete_ok_iff : (provider.complete sink streams).2 = .ok resp ↔
    ∃ k ≤ maxStreamRetries, Answers sink streams provider k resp := by
  have hfinish : (provider.complete sink streams).2 = .ok resp ↔ _ :=
    attempts_eq_ok sink streams provider maxStreamRetries 0 none
  rw [hfinish]
  simp only [Nat.zero_add, and_true]
  refine exists_congr fun k => and_congr_right fun _ => ?_
  constructor
  · rintro ⟨hD, hclosed, hopened, hsaw, hresponds⟩
    exact ⟨hD, hclosed, hopened, (attempt_sawTerminal hD hclosed).mp hsaw, hresponds⟩
  · rintro ⟨hD, hclosed, hopened, hterminal, hresponds⟩
    exact ⟨hD, hclosed, hopened, (attempt_sawTerminal hD hclosed).mpr hterminal, hresponds⟩

end Horsie.LlmProviders
