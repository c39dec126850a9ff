import Horsie.Agent.Billing

/-!
# Attempts at a turn

A turn whose provider fails before anything was journaled is tried again, from the history it began
with. What an attempt journaled is read off the events that went past its capturing sink; the
`RunAborted` of the failure itself does not count, so it is what a discarded attempt leaves.
-/

namespace Horsie.Agent

open AgentCore (AgentEvent AgentConfig AgentError AgentResult CompactionEnv Run Round Written)

def errorText : AgentError → String
  | .cancelled => "cancelled"
  | .maxIterationsExceeded max => "max iterations exceeded (max=" ++ toString max ++ ")"
  | .provider e => "provider error: " ++ e.message
  | .truncated maxTokens =>
    "response truncated at the max_tokens limit (" ++
      (maxTokens.elim "None" fun n => "Some(" ++ toString n ++ ")") ++ ")"
  | .stuckInLoop toolName count =>
    "stuck in loop: tool '" ++ toolName ++ "' called identically " ++ toString count ++ " times"

structure AttemptEnv where
  compaction : CompactionEnv
  now : ℕ
  rounds : List Round
  endedAt : ℕ

structure Attempt where
  agent : AgentCore.Agent
  history : List Message
  written : List Written
  result : Except AgentError AgentResult

def RunTask.attempt (t : RunTask) (config : AgentConfig) (env : AttemptEnv) : Option Attempt :=
  let agent : AgentCore.Agent := ⟨config, t.history, true, t.contextTokens⟩
  let (compacted, events) := t.compacted config ⟨[], env.compaction, env.now⟩
  if t.summariseOnly then
    some ⟨agent, compacted.history, events.map .event, .ok (.completed "")⟩
  else
    (play (.start compacted events t.input env.now) env.rounds).map fun (r, result) =>
      ⟨agent, compacted.history, (r.close env.endedAt result).written, result⟩

/-- Whether this went past the capturing sink and was journaled, the report of a failure apart. -/
def counts : Written → Bool
  | .event (.runAborted _ _ _) | .hook _ _ _ => false
  | .event e => (coarseEvent e).isSome

/-- Whether the attempt is discarded for another one, `attempt` being the number of those before. -/
def Attempt.retried (a : Attempt) (attempt maxRetries : ℕ) : Bool :=
  match a.result with
  | .error (.provider e) => attempt < maxRetries && e.transient && !a.written.any counts
  | .error _ | .ok _ => false

def Attempt.outcome (a : Attempt) : RunOutcome :=
  match a.result with
  | .ok (.completed text) => .completed text
  | .ok (.stopped calls) => .stopped calls
  | .error .cancelled => .cancelled
  | .error (.provider e) => .failed e.message e.transient
  | .error e => .failed (errorText e) false

def runTurnAttempts (t : RunTask) (config : AgentConfig) (maxRetries : ℕ) :
    ℕ → List AttemptEnv → Option (List Attempt × RunOutcome)
  | _, [] => none
  | attempt, env :: rest =>
    (t.attempt config env).bind fun a =>
      if a.retried attempt maxRetries then
        (runTurnAttempts t config maxRetries (attempt + 1) rest).map fun (as, o) => (a :: as, o)
      else
        some ([a], a.outcome)

/-- A turn: the summary sub sessions wait for, then the attempts, unless the summary was all.
`summary` is what summarising comes to. -/
def runWithRetries (t : RunTask) (config : AgentConfig) (maxRetries : ℕ)
    (summary : Except String String) (envs : List AttemptEnv) :
    Option (List Attempt × RunOutcome × Option SeedSummary) :=
  let attempts := runTurnAttempts t config maxRetries 0 envs
  match t.summarise with
  | some (.compact _) => attempts.map fun (as, o) => (as, o, none)
  | some (.subSession subSessions) =>
    if t.summariseOnly then some ([], .completed "", some ⟨subSessions, summary⟩)
    else attempts.map fun (as, o) => (as, o, some ⟨subSessions, summary⟩)
  | none =>
    if t.summariseOnly then some ([], .completed "", none)
    else attempts.map fun (as, o) => (as, o, none)

/-- A compaction that was asked for, or its refusal. -/
def AgentDomainEvent.requested : AgentDomainEvent → Bool
  | .compacted fact => fact.trigger = .manual
  | .lifecycleRecorded (.compactionSkipped _ _) _ => true
  | _ => false

def requested (ws : List Written) : List AgentDomainEvent :=
  (journal ws).filter AgentDomainEvent.requested

/-- A discarded attempt: its failure was transient, its run started from the history the turn began
with, and all it journaled is that it spent nothing. -/
structure Discarded (t : RunTask) (a : Attempt) : Prop where
  transient : ∃ e, a.result = .error (.provider e) ∧ e.transient = true
  history : a.history = t.history
  journal : ∃ atMs, journal a.written = [.runAborted .zero 0 atMs]

/-- The attempts at a turn: all of them built alike, and all but the last discarded, which are no
more than the budget; what the turn was asked to fold is journaled at most once. -/
structure Retried (t : RunTask) (config : AgentConfig) (maxRetries : ℕ) (attempts : List Attempt) :
    Prop where
  alike : ∀ a ∈ attempts, a.agent = ⟨config, t.history, true, t.contextTokens⟩
  discarded : ∀ a ∈ attempts.dropLast, Discarded t a
  budget : attempts.dropLast.length ≤ maxRetries
  once : (requested (attempts.flatMap (·.written))).length ≤ 1

/-! ## What an attempt writes down -/

theorem requested_append (ws vs : List Written) :
    requested (ws ++ vs) = requested ws ++ requested vs := by
  simp [requested, journal]

theorem requested_eq_nil {ws : List Written}
    (h : ∀ w ∈ ws, ∀ e ∈ journaled? w, e.requested = false) : requested ws = [] := by
  refine List.filter_eq_nil_iff.mpr fun e he => ?_
  obtain ⟨w, hw, hwe⟩ := List.mem_filterMap.mp he
  rw [h w hw e hwe]
  exact Bool.false_ne_true

/-- A compaction says at most one thing, and journals it. -/
theorem compact_written (a : AgentCore.Agent) (instructions : Option String)
    (trigger : CompactionTrigger) (env : CompactionEnv) :
    let ws := (a.compact instructions trigger env).2.map Written.event
    ws.length ≤ 1 ∧ (trigger = .auto → requested ws = []) ∧ (ws.any counts = true ∨ ws = []) := by
  unfold AgentCore.Agent.compact
  split_ifs
  · cases trigger with
    | auto => exact ⟨Nat.zero_le 1, fun _ => rfl, .inr rfl⟩
    | manual => exact ⟨Nat.le_refl 1, (fun h => by cases h), .inl rfl⟩
  · split
    · exact ⟨Nat.zero_le 1, fun _ => rfl, .inr rfl⟩
    · split
      · exact ⟨Nat.zero_le 1, fun _ => rfl, .inr rfl⟩
      · refine ⟨Nat.le_refl 1, ?_, .inl rfl⟩
        rintro rfl
        rfl

theorem maybeCompact_written (r : Run) (env : CompactionEnv) :
    ∃ ws, (r.maybeCompact env).written = r.written ++ ws ∧ requested ws = [] ∧
      (ws.any counts = true ∨ ws = []) := by
  refine ⟨(r.agent.maybeCompact env).2.map .event, rfl, ?_⟩
  rcases r.agent.maybeCompact_cases env with h | h <;> rw [h]
  · obtain ⟨-, hauto, hcounts⟩ := compact_written r.agent none .auto env
    exact ⟨hauto rfl, hcounts⟩
  · exact ⟨rfl, .inr rfl⟩

/-- What follows the provider's message asks for nothing. -/
theorem respond_requested (r : Run) (round : Round) (response : AgentCore.CompletionResponse) :
    ∃ ws, (runOf (r.respond round response)).written = r.written ++ ws ∧ requested ws = [] := by
  have hbatch : ∀ calls, requested (round.batch.written calls) = [] := by
    intro calls
    refine requested_eq_nil fun w hw e he => ?_
    rcases List.mem_append.mp hw with hw | hw
    · obtain ⟨c, -, rfl⟩ := List.mem_map.mp hw
      cases he
    · obtain ⟨a, -, ha⟩ := List.mem_filterMap.mp hw
      cases a with
      | hook record seq atMs =>
        cases ha
        cases he
        rfl
      | result i =>
        obtain ⟨c, -, rfl⟩ := Option.map_eq_some_iff.mp ha
        cases he
        rfl
  have hhooks : requested round.batch.hooks = [] := by
    refine requested_eq_nil fun w hw e he => ?_
    obtain ⟨a, -, ha⟩ := List.mem_filterMap.mp hw
    cases a with
    | result i => cases ha
    | hook record seq atMs =>
      cases ha
      cases he
      rfl
  unfold Run.respond
  split
  · split_ifs
    · exact ⟨[], (List.append_nil _).symm, rfl⟩
    · exact ⟨[.event (.runComplete _ _ _ _)], rfl, rfl⟩
  · dsimp only
    split_ifs
    · exact ⟨[], (List.append_nil _).symm, rfl⟩
    · exact ⟨_, rfl, hhooks⟩
    · exact ⟨[], (List.append_nil _).symm, rfl⟩
    · unfold Run.execute
      split_ifs
      · exact ⟨_, rfl, hbatch _⟩
      · split
        · exact ⟨_, rfl, hbatch _⟩
        · refine ⟨_, List.append_assoc _ _ _, ?_⟩
          rw [requested_append, hbatch]
          rfl

/-- An iteration asks for no compaction. It journals something, or the run ends there, having
spent nothing. -/
theorem iterate_written (r : Run) (round : Round) :
    ∃ ws, (runOf (r.iterate round)).written = r.written ++ ws ∧ requested ws = [] ∧
      (ws.any counts = true ∨ journal ws = [] ∧
        ∃ r' result, r.iterate round = .ended r' result ∧ r'.spent = r.spent) := by
  unfold Run.iterate
  split_ifs
  · exact ⟨[], (List.append_nil _).symm, rfl, .inr ⟨rfl, _, _, rfl, rfl⟩⟩
  · exact ⟨[], (List.append_nil _).symm, rfl, .inr ⟨rfl, _, _, rfl, rfl⟩⟩
  · obtain ⟨cs, hcs, hreq, hcounts⟩ :=
      maybeCompact_written { r with iteration := r.iteration + 1 } round.compaction
    set x := ({ r with iteration := r.iteration + 1 } : Run).maybeCompact round.compaction with hx
    have hspent : x.spent = r.spent := rfl
    clear_value x
    set es : List AgentEvent := .messageStart round.messageId :: round.chunks.map .textChunk
    have hchunks : journal (es.map Written.event) = [] := by
      simp [es, journal, journaled?, coarseEvent]
    have hcall : requested (es.map Written.event) = [] := by
      rw [requested, hchunks, List.filter_nil]
    have hended : ∀ result : Except AgentError AgentResult,
        ∃ ws, (x.emit es).written = r.written ++ ws ∧ requested ws = [] ∧ (ws.any counts = true ∨
          journal ws = [] ∧ ∃ r' result', AgentCore.Progress.ended (x.emit es) result =
            .ended r' result' ∧ r'.spent = r.spent) := by
      intro result
      refine ⟨cs ++ es.map .event, ?_, ?_, ?_⟩
      · show x.written ++ _ = _
        rw [hcs, List.append_assoc]
      · rw [requested_append, hreq, hcall, List.append_nil]
      · rcases hcounts with hcounts | rfl
        · exact .inl (by rw [List.any_append, hcounts, Bool.true_or])
        · exact .inr ⟨hchunks, _, _, rfl, hspent⟩
    cases round.answer with
    | failed e => exact hended _
    | cancelled => exact hended _
    | response response =>
      obtain ⟨ws, hws, hwreq⟩ :=
        respond_requested ((x.emit es).answered round response) round response
      refine ⟨cs ++ (es.map .event ++ [.event (.messageStop round.messageId),
        .event (.messageComplete (Run.assistantMessage round response))] ++ ws), ?_, ?_, .inl ?_⟩
      · show (runOf (Run.respond _ _ _)).written = _
        rw [hws]
        simp [Run.answered, Run.emit, Run.push, hcs]
      · rw [requested_append, requested_append, requested_append, hreq, hcall, hwreq]
        rfl
      · simp [counts, coarseEvent]

theorem play_written {r r' : Run} {rounds : List Round} {result : Except AgentError AgentResult}
    (h : play r rounds = some (r', result)) :
    ∃ ws, r'.written = r.written ++ ws ∧ requested ws = [] ∧
      (ws.any counts = true ∨ journal ws = [] ∧ r'.spent = r.spent) := by
  induction rounds generalizing r with
  | nil => cases h
  | cons round rest ih =>
    obtain ⟨ws, hws, hreq, hcounts⟩ := iterate_written r round
    rw [play] at h
    cases hi : r.iterate round with
    | again x =>
      simp only [hi] at h hws hcounts
      have hfirst : ws.any counts = true := hcounts.resolve_right fun hx => by
        obtain ⟨-, _, _, he, -⟩ := hx
        cases he
      obtain ⟨vs, hvs, hvreq, -⟩ := ih h
      refine ⟨ws ++ vs, ?_, ?_, .inl ?_⟩
      · rw [hvs, ← List.append_assoc, ← hws]
        rfl
      · rw [requested_append, hreq, hvreq, List.append_nil]
      · rw [List.any_append, hfirst, Bool.true_or]
    | ended x res =>
      simp only [hi] at h hws hcounts
      split_ifs at h
      cases h
      refine ⟨ws, hws, hreq, hcounts.imp_right fun hx => ?_⟩
      obtain ⟨hj, _, _, he, hspent⟩ := hx
      cases he
      exact ⟨hj, hspent⟩

/-! ## An attempt -/

variable {t : RunTask} {config : AgentConfig} {a : Attempt} {env : AttemptEnv}

theorem compacted_cases (t : RunTask) (config : AgentConfig) (o : Opening) :
    let ws := (t.compacted config o).2.map Written.event
    ws.length ≤ 1 ∧
      (ws.any counts = true ∨ ws = [] ∧ (t.compacted config o).1.history = t.history) := by
  unfold RunTask.compacted
  split
  · rename_i instructions _
    obtain ⟨hlen, -, hcounts⟩ :=
      compact_written ⟨config, t.history, true, t.contextTokens⟩ instructions .manual o.compaction
    refine ⟨hlen, hcounts.imp_right fun hnil => ⟨hnil, ?_⟩⟩
    rcases AgentCore.Agent.compact_cases ⟨config, t.history, true, t.contextTokens⟩ instructions
      .manual o.compaction with ⟨_, -, -, -, hes⟩ | ⟨hsame, -⟩
    · rw [hes] at hnil
      cases hnil
    · rw [hsame]
  · exact ⟨Nat.zero_le 1, .inr ⟨rfl, rfl⟩⟩
  · exact ⟨Nat.zero_le 1, .inr ⟨rfl, rfl⟩⟩

theorem requested_length (ws : List Written) : (requested ws).length ≤ ws.length :=
  (List.length_filter_le _ _).trans (List.length_filterMap_le _ _)

/-- An attempt journals at most one compaction it was asked for, and is discarded only if it
journaled nothing but what the failure itself left. -/
theorem attempt_spec (h : t.attempt config env = some a) :
    a.agent = ⟨config, t.history, true, t.contextTokens⟩ ∧ (requested a.written).length ≤ 1 ∧
      ∀ attempt maxRetries, a.retried attempt maxRetries = true →
        attempt < maxRetries ∧ Discarded t a := by
  unfold RunTask.attempt at h
  dsimp only at h
  obtain ⟨hlen, hcounts⟩ := compacted_cases t config ⟨[], env.compaction, env.now⟩
  split_ifs at h
  · cases h
    refine ⟨rfl, (requested_length _).trans hlen, fun attempt maxRetries hr => ?_⟩
    cases hr
  · obtain ⟨⟨r, result⟩, hplay, rfl⟩ := Option.map_eq_some_iff.mp h
    clear h
    obtain ⟨ws, hws, hreq, hplayed⟩ := play_written hplay
    generalize t.compacted config ⟨[], env.compaction, env.now⟩ = c at *
    set input : Written := .event (.inputMessage t.input.messageId t.input)
    have hwritten : r.written = c.2.map .event ++ [input] ++ ws := hws
    have hrun : requested r.written = requested (c.2.map .event) := by
      rw [hwritten, requested_append, requested_append, hreq, List.append_nil]
      exact List.append_nil _
    have hclose : requested (r.close env.endedAt result).written = requested (c.2.map .event) := by
      cases result with
      | ok res => exact hrun
      | error e =>
        show requested (r.written ++ _) = _
        rw [requested_append, hrun]
        exact List.append_nil _
    refine ⟨rfl, hclose ▸ (requested_length _).trans hlen, fun attempt maxRetries hr => ?_⟩
    unfold Attempt.retried at hr
    dsimp only at hr
    split at hr
    · rename_i e
      simp only [Bool.and_eq_true, decide_eq_true_eq, Bool.not_eq_true'] at hr
      obtain ⟨⟨hbudget, htransient⟩, hnone⟩ := hr
      have hclosed : (r.close env.endedAt (.error (.provider e))).written = r.written ++
        [.event (.runAborted r.spent.usage r.spent.contextTokens env.endedAt)] := rfl
      rw [hclosed, hwritten] at hnone
      simp only [List.any_append, Bool.or_eq_false_iff] at hnone
      obtain ⟨hcs, hhistory⟩ := hcounts.resolve_left fun hx => by rw [hnone.1.1.1] at hx; cases hx
      obtain ⟨hjournal, hspent⟩ :=
        hplayed.resolve_left fun hx => by rw [hnone.1.2] at hx; cases hx
      refine ⟨hbudget, ⟨e, rfl, htransient⟩, hhistory, env.endedAt, ?_⟩
      show journal (r.close env.endedAt (.error (.provider e))).written = _
      rw [hclosed, hwritten, hcs, hspent, List.nil_append, journal, List.filterMap_append,
        List.filterMap_append]
      show [] ++ journal ws ++ _ = _
      rw [hjournal]
      rfl
    · cases hr
    · cases hr

theorem attempts_retried {maxRetries attempt : ℕ} {envs : List AttemptEnv}
    {attempts : List Attempt} {outcome : RunOutcome}
    (h : runTurnAttempts t config maxRetries attempt envs = some (attempts, outcome)) :
    attempts ≠ [] ∧ Retried t config (maxRetries - attempt) attempts := by
  induction envs generalizing attempt attempts with
  | nil => cases h
  | cons env rest ih =>
    obtain ⟨a, ha, h⟩ := Option.bind_eq_some_iff.mp h
    obtain ⟨hagent, hreq, hretried⟩ := attempt_spec ha
    refine ⟨?_, ?_⟩
    · split_ifs at h
      · obtain ⟨⟨as, o⟩, -, heq⟩ := Option.map_eq_some_iff.mp h
        rw [← (Prod.mk.inj heq).1]
        exact List.cons_ne_nil _ _
      · rw [← (Prod.mk.inj (Option.some.inj h)).1]
        exact List.cons_ne_nil _ _
    split_ifs at h with hr
    · obtain ⟨⟨as, o⟩, has, heq⟩ := Option.map_eq_some_iff.mp h
      cases heq
      obtain ⟨hne, halike, hdiscarded, hbudget, honce⟩ := ih has
      obtain ⟨hlt, hd⟩ := hretried attempt maxRetries hr
      obtain ⟨atMs, hjournal⟩ := hd.journal
      have hlast : (a :: as).dropLast = a :: as.dropLast := List.dropLast_cons_of_ne_nil hne
      refine ⟨List.forall_mem_cons.mpr ⟨hagent, halike⟩, ?_, ?_, ?_⟩
      · rw [hlast]
        exact List.forall_mem_cons.mpr ⟨hd, hdiscarded⟩
      · rw [hlast, List.length_cons]
        omega
      · rw [List.flatMap_cons, requested_append, requested, hjournal]
        exact honce
    · cases h
      refine ⟨fun b hb => ?_, fun _ hb => absurd hb List.not_mem_nil, Nat.zero_le _, ?_⟩
      · rw [List.mem_singleton.mp hb]
        exact hagent
      · rw [List.flatMap_cons, List.flatMap_nil, List.append_nil]
        exact hreq

/-- A turn is tried again only after an attempt that journaled nothing but its own abort, with
nothing spent, and the summary sub sessions wait for is taken once, before all of them. -/
theorem retries_leave_aborts {maxRetries : ℕ} {summary : Except String String}
    {envs : List AttemptEnv} {attempts : List Attempt} {outcome : RunOutcome}
    {seed : Option SeedSummary}
    (h : runWithRetries t config maxRetries summary envs = some (attempts, outcome, seed)) :
    Retried t config maxRetries attempts ∧ seed = match t.summarise with
      | some (.subSession subSessions) => some ⟨subSessions, summary⟩
      | some (.compact _) | none => none := by
  have hnone : Retried t config maxRetries [] :=
    ⟨fun _ ha => absurd ha List.not_mem_nil, fun _ ha => absurd ha List.not_mem_nil,
      Nat.zero_le _, Nat.zero_le 1⟩
  unfold runWithRetries at h
  cases hs : t.summarise with
  | none =>
    simp only [hs] at h
    split_ifs at h
    · simp only [Option.some.injEq, Prod.mk.injEq] at h
      exact ⟨h.1 ▸ hnone, h.2.2.symm⟩
    · obtain ⟨⟨as, o⟩, has, heq⟩ := Option.map_eq_some_iff.mp h
      simp only [Prod.mk.injEq] at heq
      exact ⟨heq.1 ▸ (attempts_retried has).2, heq.2.2.symm⟩
  | some what =>
    cases what with
    | compact instructions =>
      simp only [hs] at h
      obtain ⟨⟨as, o⟩, has, heq⟩ := Option.map_eq_some_iff.mp h
      simp only [Prod.mk.injEq] at heq
      exact ⟨heq.1 ▸ (attempts_retried has).2, heq.2.2.symm⟩
    | subSession subSessions =>
      simp only [hs] at h
      split_ifs at h
      · simp only [Option.some.injEq, Prod.mk.injEq] at h
        exact ⟨h.1 ▸ hnone, h.2.2.symm⟩
      · obtain ⟨⟨as, o⟩, has, heq⟩ := Option.map_eq_some_iff.mp h
        simp only [Prod.mk.injEq] at heq
        exact ⟨heq.1 ▸ (attempts_retried has).2, heq.2.2.symm⟩

/-! ## A provider that is overloaded once -/

def overloadedOnce : List AttemptEnv :=
  [⟨⟨.proceed, none, "", 0⟩, 0, [⟨false, ⟨.proceed, none, "", 0⟩, "m", 0, [],
      .failed ⟨"provider overloaded", true⟩, 0, false,
      ⟨fun _ => ⟨.stopRun, 0, 0⟩, [], by decide, false⟩⟩], 1⟩,
    ⟨⟨.proceed, none, "", 0⟩, 2, [⟨false, ⟨.proceed, none, "", 0⟩, "n", 2, [],
      .response ⟨[.text "hi"], .endTurn, ⟨1, 1, none, none⟩⟩, 3, false,
      ⟨fun _ => ⟨.stopRun, 0, 0⟩, [], by decide, false⟩⟩], 4⟩]

def helloTask : RunTask := ⟨0, .userMessage ⟨"u", "hello", [], []⟩, [], 0, none, none, false⟩

def retriedTurn : List Attempt × RunOutcome × Option SeedSummary :=
  (runWithRetries helloTask .default 3 (.ok "") overloadedOnce).get (by decide)

theorem retriedTurn_eq : runWithRetries helloTask .default 3 (.ok "") overloadedOnce =
    some (retriedTurn.1, retriedTurn.2.1, retriedTurn.2.2) :=
  have h : (runWithRetries helloTask .default 3 (.ok "") overloadedOnce).isSome := by decide
  (Option.some_get h).symm

theorem retries_leave_aborts_once : Retried helloTask .default 3 retriedTurn.1 ∧
    retriedTurn.2.2 = none :=
  retries_leave_aborts retriedTurn_eq

/-- The abort of the discarded attempt stands in the turn's journal. -/
theorem abort_of_discarded_journaled : ¬ ∀ t config maxRetries summary envs attempts outcome seed,
    runWithRetries t config maxRetries summary envs = some (attempts, outcome, seed) →
    ∀ a ∈ attempts.dropLast, journal a.written = [] := by
  intro h
  have hnil := h helloTask .default 3 (.ok "") overloadedOnce _ _ _ retriedTurn_eq
  exact absurd hnil (by decide)

end Horsie.Agent
