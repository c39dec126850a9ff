import Horsie.AgentCore.Tool

/-!
# Compaction inside a run

What a run does when its prompt has grown too large: summarise everything before a cut, and go on
with a boundary message followed by the messages from the cut on. The cut is the earliest user
message whose suffix fits the budget (`chooseCut`). The event names the message the retained window
starts at by its id, which is all the journal has to find it again.
-/

namespace Horsie.AgentCore

open Horsie.Agent

/-! ## The events of a run -/

/-- What a run emits. Of what a provider streams, only the text is kept. -/
inductive AgentEvent
  | inputMessage (messageId : String) (input : AgentInput)
  | messageStart (messageId : String)
  | textChunk (text : String)
  | messageStop (messageId : String)
  | messageComplete (message : Message)
  | toolExecuting (toolCallId : String)
  | toolComplete (completion : ToolCompletion)
  | runComplete (usage : Usage) (iterations contextTokens atMs : ℕ)
  | runAborted (usage : Usage) (contextTokens atMs : ℕ)
  | compacted (fact : CompactionFact)
  | compactionSkipped (contextTokens : ℕ) (retainTokens : Option ℕ) (atMs : ℕ)
deriving DecidableEq

/-! ## The budget -/

/-- How much room a compaction is working with. -/
structure CompactionBudget where
  contextWindow : ℕ
  triggerAtPercent : ℕ
  retainPercent : ℕ
deriving DecidableEq

namespace CompactionBudget

def triggerTokens (b : CompactionBudget) : ℕ := satMul 32 b.contextWindow b.triggerAtPercent / 100

/-- Roughly how much raw recent history to keep. -/
def retainTokens (b : CompactionBudget) : ℕ := satMul 32 b.contextWindow b.retainPercent / 100

end CompactionBudget

def artifactChars (artifact : ArtifactRef) : ℕ :=
  4 * match artifact.kind with
    | .image (some w) (some h) => w * h / 750
    | .image _ _ => 1500
    | .document => 3000

def partChars : ContentPart → ℕ
  | .text t => t.utf8ByteSize
  | .toolResult r => r.output.utf8ByteSize
  | .toolCall c => c.input.render.utf8ByteSize
  | .thinking t _ => t.utf8ByteSize
  | .subAgentResult r => r.text.utf8ByteSize
  | .artifact a => artifactChars a

def approxTokens (m : Message) : ℕ := min ((m.parts.map partChars).sum / 4) (2 ^ 32 - 1)

/-! ## The cut -/

/-- Whether a message may begin the retained window: a user's, and no tool result. -/
def isSafeBoundary (m : Message) : Bool :=
  m.role = .user && m.parts.all fun p => p.resultId?.isNone

def suffixTokens : List Message → ℕ
  | [] => 0
  | m :: rest => satAdd 32 (suffixTokens rest) (approxTokens m)

/-- The cut among the messages from index `i` on, `latest` being the newest safe boundary before. -/
def chooseCutFrom (budget i : ℕ) (latest : Option ℕ) : List Message → ℕ
  | [] => latest.getD i
  | m :: rest =>
    if !isSafeBoundary m then chooseCutFrom budget (i + 1) latest rest
    else if suffixTokens (m :: rest) ≤ budget then i
    else chooseCutFrom budget (i + 1) (some i) rest

/-- The index the retained window starts at: the earliest safe boundary whose suffix fits, else the
latest one, else the end. -/
def chooseCut (history : List Message) (retainBudgetTokens : ℕ) : ℕ :=
  chooseCutFrom retainBudgetTokens 0 none history

/-! ## Compacting -/

structure AgentConfig where
  maxIterations : ℕ
  stuckThreshold : ℕ
  nudgeThreshold : ℕ
  nudge_lt_stuck : nudgeThreshold < stuckThreshold
  maxTokens : Option ℕ
  compaction : Option CompactionBudget

def AgentConfig.default : AgentConfig where
  maxIterations := 10000
  stuckThreshold := 5
  nudgeThreshold := 3
  nudge_lt_stuck := by decide
  maxTokens := none
  compaction := none

structure Agent where
  config : AgentConfig
  history : List Message
  hasPolicy : Bool
  lastContextTokens : ℕ

/-- The verdict of the hooks before a compaction. -/
inductive PreCompactDecision
  | proceed
  | abandon (reason : String)
deriving DecidableEq

/-- What a compaction finds outside the agent. -/
structure CompactionEnv where
  decision : PreCompactDecision
  answer : Option (List ContentPart)
  carriedState : String
  now : ℕ
deriving DecidableEq

def extractText (parts : List ContentPart) : String :=
  String.join (parts.filterMap ContentPart.text?)

@[simp] theorem extractText_text (t : String) : extractText [.text t] = t := by
  simp [extractText, ContentPart.text?]

def boundaryText (summary carriedState : String) : String :=
  "This conversation was compacted: earlier history is summarised below " ++
    "rather than shown in full. The messages after this one are verbatim.\n\n" ++
    "## Summary of earlier work\n" ++ Lib.trim summary ++ "\n\n## Current state\n" ++
    Lib.trim carriedState

namespace Agent

/-- The message that stands for what a compaction of `history` covers. -/
def boundary (history : List Message) (summary carriedState : String) (now : ℕ) : Message where
  id := "compaction:" ++ toString history.length
  role := .user
  parts := [.text (boundaryText summary carriedState)]
  createdAtMs := now
  startedAtMs := none

/-- The summary of what comes before the cut. A blank one is a failure. -/
def summarise (env : CompactionEnv) : Option String :=
  env.answer.bind fun parts =>
    let text := extractText parts
    if Lib.isBlank text then none else some text

def reportNothingToFold (a : Agent) (trigger : CompactionTrigger) (now : ℕ) : List AgentEvent :=
  match trigger with
  | .auto => []
  | .manual =>
    [.compactionSkipped a.lastContextTokens (a.config.compaction.map (·.retainTokens)) now]

def cut (a : Agent) : ℕ :=
  chooseCut a.history ((a.config.compaction.map (·.retainTokens)).getD 0)

/-- The history a compaction at the cut goes on with. -/
def rewritten (a : Agent) (summary : String) (env : CompactionEnv) : List Message :=
  boundary a.history summary env.carriedState env.now :: a.history.drop a.cut

def fact (a : Agent) (instructions : Option String) (trigger : CompactionTrigger) (summary : String)
    (env : CompactionEnv) : CompactionFact where
  summary := summary
  carriedState := env.carriedState
  retainedFromMessageId := a.history[a.cut]?.map (·.id)
  trigger := trigger
  instructions := instructions
  tokensBefore := a.lastContextTokens
  tokensAfter := ((a.rewritten summary env).map approxTokens).foldl (wrapAdd 32) 0
  atMs := env.now

/-- Summarise everything before the cut and rewrite the history. Where nothing would be folded,
the hooks refuse, or the summary fails, the history stays. -/
def compact (a : Agent) (instructions : Option String) (trigger : CompactionTrigger)
    (env : CompactionEnv) : Agent × List AgentEvent :=
  if !a.hasPolicy || a.cut = 0 then
    (a, a.reportNothingToFold trigger env.now)
  else
    match env.decision with
    | .abandon _ => (a, [])
    | .proceed =>
      match summarise env with
      | none => (a, [])
      | some summary =>
        let fact := a.fact instructions trigger summary env
        ({ a with history := a.rewritten summary env, lastContextTokens := fact.tokensAfter },
          [.compacted fact])

theorem compact_of_summary {a : Agent} {env : CompactionEnv} {summary : String}
    (hp : a.hasPolicy = true) (hc : a.cut ≠ 0) (hd : env.decision = .proceed)
    (hs : summarise env = some summary) (instructions : Option String)
    (trigger : CompactionTrigger) :
    a.compact instructions trigger env =
      ({ a with
          history := a.rewritten summary env
          lastContextTokens := (a.fact instructions trigger summary env).tokensAfter },
        [.compacted (a.fact instructions trigger summary env)]) := by
  unfold compact
  simp [hp, hc, hd, hs]

def maybeCompact (a : Agent) (env : CompactionEnv) : Agent × List AgentEvent :=
  match a.config.compaction with
  | none => (a, [])
  | some budget =>
    if !a.hasPolicy || a.lastContextTokens < budget.triggerTokens then (a, [])
    else a.compact none .auto env

theorem compact_cases (a : Agent) (instructions : Option String) (trigger : CompactionTrigger)
    (env : CompactionEnv) :
    (∃ summary, summarise env = some summary ∧ 0 < a.cut ∧
      (a.compact instructions trigger env).1.history = a.rewritten summary env ∧
      (a.compact instructions trigger env).2 =
        [.compacted (a.fact instructions trigger summary env)]) ∨
    ((a.compact instructions trigger env).1 = a ∧
      ∀ e ∈ (a.compact instructions trigger env).2, ∃ c r t, e = .compactionSkipped c r t) := by
  unfold compact
  split_ifs with hcut
  · refine .inr ⟨rfl, fun e he => ?_⟩
    cases trigger with
    | auto => cases he
    | manual => exact ⟨_, _, _, List.mem_singleton.mp he⟩
  · have hpos : 0 < a.cut := by
      simp only [Bool.or_eq_true, decide_eq_true_eq, not_or] at hcut
      omega
    split
    · exact .inr ⟨rfl, fun e he => absurd he List.not_mem_nil⟩
    · split
      · exact .inr ⟨rfl, fun e he => absurd he List.not_mem_nil⟩
      · rename_i summary hs
        exact .inl ⟨summary, hs, hpos, rfl, rfl⟩

theorem compact_config (a : Agent) (instructions : Option String) (trigger : CompactionTrigger)
    (env : CompactionEnv) : (a.compact instructions trigger env).1.config = a.config := by
  unfold compact
  split_ifs
  · rfl
  · split
    · rfl
    · split <;> rfl

theorem maybeCompact_cases (a : Agent) (env : CompactionEnv) :
    a.maybeCompact env = a.compact none .auto env ∨ a.maybeCompact env = (a, []) := by
  unfold maybeCompact
  split
  · exact .inr rfl
  · split_ifs
    · exact .inr rfl
    · exact .inl rfl

theorem maybeCompact_config (a : Agent) (env : CompactionEnv) :
    (a.maybeCompact env).1.config = a.config := by
  rcases a.maybeCompact_cases env with h | h
  · rw [h, compact_config]
  · rw [h]

end Agent

end Horsie.AgentCore
