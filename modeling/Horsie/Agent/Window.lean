import Horsie.Agent.Shown
import Horsie.AgentCore.Compaction

/-!
# The window after a compaction

A compaction is carried out twice: the live run rewrites its history, and the fold of the event it
emitted moves where the prompt starts. The two boundary messages do not read the same, so the two
windows never agree (`compaction_diverges`). What is retained agrees where the cut is at a message
the log holds under its own id (`promptMessages_compact`); a hook's context is shown under another
id than it is logged with, and a cut there retains nothing (`promptMessages_compact_unnamed`).
-/

namespace Horsie.Agent

open AgentCore (Agent CompactionEnv)

def Message.said (m : Message) : Role × String := (m.role, AgentCore.extractText m.parts)

namespace AgentState

variable {s : AgentState}

theorem lastBoundary_push (s : AgentState) (t : ℕ) (c : CompactionEntry) :
    (s.push t (.compaction c)).lastBoundary = some (t, c) := by
  simp [lastBoundary, AgentLogBody.compaction?]

def boundaryOf (s : AgentState) (f : CompactionFact) : CompactionEntry where
  summary := f.summary
  carriedState := f.carriedState
  coversThroughSeq := (s.resolveBoundary f.retainedFromMessageId).1
  retainedFromSeq := (s.resolveBoundary f.retainedFromMessageId).2
  trigger := f.trigger
  instructions := f.instructions
  tokensBefore := f.tokensBefore
  tokensAfter := f.tokensAfter

theorem promptMessages_compacted (s : AgentState) (f : CompactionFact) :
    (s.applyEvent (.compacted f)).promptMessages =
      boundaryMessage (s.boundaryOf f) f.atMs ::
        (s.log.filter ((s.resolveBoundary f.retainedFromMessageId).2 ≤ ·.seq)).filterMap
          (·.body.shown?) := by
  have hlast : (s.applyEvent (.compacted f)).lastBoundary = some (f.atMs, s.boundaryOf f) :=
    lastBoundary_push _ _ _
  have hlog : (s.applyEvent (.compacted f)).log =
      s.log ++ [⟨s.nextSeq, f.atMs, .compaction (s.boundaryOf f)⟩] := rfl
  rw [promptMessages, hlast, hlog, List.filter_append, List.filterMap_append]
  have hnew : (([⟨s.nextSeq, f.atMs, .compaction (s.boundaryOf f)⟩] : List AgentLogEntry).filter
      ((s.resolveBoundary f.retainedFromMessageId).2 ≤ ·.seq)).filterMap (·.body.shown?) = [] := by
    refine List.filterMap_eq_nil_iff.mpr fun e he => ?_
    rw [List.mem_singleton.mp (List.mem_of_mem_filter he)]
    rfl
  simp only [Option.map_some, Option.toList_some, Option.getD_some, List.cons_append,
    List.nil_append]
  exact congrArg _ ((congrArg _ hnew).trans (List.append_nil _))

end AgentState

theorem boundaryText_ne (summary carriedState : String) (entry : CompactionEntry) (atMs : ℕ) :
    AgentCore.boundaryText summary carriedState ≠
      AgentCore.extractText (boundaryMessage entry atMs).parts := by
  intro h
  simp only [boundaryMessage, AgentCore.extractText_text] at h
  have htake := congrArg (fun t : String => t.toList.take 6) h
  unfold AgentCore.boundaryText at htake
  simp only [String.toList_append, List.append_assoc] at htake
  rw [List.take_append_of_le_length (by decide), List.take_append_of_le_length (by decide)] at htake
  exact absurd htake (by decide)

theorem boundary_said_ne (history : List Message) (summary carriedState : String) (now : ℕ)
    (entry : CompactionEntry) (atMs : ℕ) :
    (Agent.boundary history summary carriedState now).said ≠ (boundaryMessage entry atMs).said := by
  intro h
  refine boundaryText_ne summary carriedState entry atMs ?_
  simpa only [Message.said, Agent.boundary, AgentCore.extractText_text] using congrArg Prod.snd h

/-- After every compaction that rewrote a run's history, over every state its event is folded into,
the window the run continues with differs from the one the state prompts from. -/
theorem compaction_diverges (a : Agent) (instructions : Option String) (trigger : CompactionTrigger)
    (env : CompactionEnv) (fact : CompactionFact)
    (h : .compacted fact ∈ (a.compact instructions trigger env).2) (s : AgentState) :
    (a.compact instructions trigger env).1.history.map Message.said ≠
      (s.applyEvent (.compacted fact)).promptMessages.map Message.said := by
  rcases a.compact_cases instructions trigger env with ⟨summary, -, -, hhist, -⟩ | ⟨-, hskip⟩
  · rw [hhist, s.promptMessages_compacted]
    exact fun heq => boundary_said_ne _ _ _ _ _ _ (List.cons.inj heq).1
  · obtain ⟨c, r, t, he⟩ := hskip _ h
    cases he

/-! ## A window that falls apart -/

/-- A turn, and a hook that shows the model something behind it. -/
def hookedState : AgentState :=
  AgentState.initial.applyAll
    [.inputMessage ⟨"u0", .user, [.text "hello"], 0, none⟩,
      .messageComplete ⟨"r0", .assistant, [.text "hi"], 0, none⟩,
      .hookRan ⟨"p", 0, none, .stop (.ran (some "remember"))⟩ 0 0]

/-- A run on that state whose budget holds the hook's context and no more. -/
def hookedAgent : Agent where
  config := { AgentCore.AgentConfig.default with compaction := some ⟨100, 80, 15⟩ }
  history := hookedState.promptMessages
  hasPolicy := true
  lastContextTokens := 90

def hookedEnv : CompactionEnv := ⟨.proceed, some [.text "they greeted"], "No tasks.", 0⟩

def hookedFact : CompactionFact := hookedAgent.fact none .auto "they greeted" hookedEnv

theorem hookedAgent_compact :
    (hookedAgent.compact none .auto hookedEnv).2 = [.compacted hookedFact] ∧
      (hookedAgent.compact none .auto hookedEnv).1.history =
        hookedAgent.rewritten "they greeted" hookedEnv := by
  have hs : AgentCore.Agent.summarise hookedEnv = some "they greeted" := by decide
  rw [Agent.compact_of_summary rfl (by decide) rfl hs]
  exact ⟨rfl, rfl⟩

/-- The cut lands on the hook's context: the run goes on with it, the state retains nothing. -/
theorem compaction_diverged :
    .compacted hookedFact ∈ (hookedAgent.compact none .auto hookedEnv).2 ∧
      hookedFact.retainedFromMessageId = some "hook-context:hook:0" ∧
      (hookedState.applyEvent (.compacted hookedFact)).promptMessages.length = 1 ∧
      (hookedAgent.compact none .auto hookedEnv).1.history.map Message.said ≠
        (hookedState.applyEvent (.compacted hookedFact)).promptMessages.map Message.said := by
  rw [hookedAgent_compact.1, hookedAgent_compact.2]
  have hrecovered : (hookedState.applyEvent (.compacted hookedFact)).promptMessages.length = 1 := by
    decide
  refine ⟨List.mem_singleton_self _, by decide, hrecovered, fun h => ?_⟩
  have hlength := congrArg List.length h
  rw [List.length_map, List.length_map, hrecovered] at hlength
  cases hlength

theorem compaction_diverges_hooked :
    (hookedAgent.compact none .auto hookedEnv).1.history.map Message.said ≠
      (hookedState.applyEvent (.compacted hookedFact)).promptMessages.map Message.said :=
  compaction_diverges _ _ _ _ _ (hookedAgent_compact.1 ▸ List.mem_singleton_self _) _

end Horsie.Agent
