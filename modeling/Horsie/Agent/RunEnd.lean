import Horsie.Agent.SingleRun

/-!
# How the end of a run is answered

A run that completed, was stopped by a tool or failed owes an answer: another turn, or one report
of how the step ended. `Answerable` is when the handler of its report gives one. It gives none
when an agent that owes a result is nudged while its runtime is away, and when two finishing tools
were called at once and the correction either finds the nudges spent or starts no turn.
-/

namespace Horsie.Agent

def RunOutcome.owes : RunOutcome → Bool
  | .completed _ | .stopped _ | .failed _ _ => true
  | .cancelled | .alreadyReported => false

/-- Tools that ended a run and neither only ask nor submit one result. -/
def Contradictory (calls : List StoppedCall) : Prop :=
  calls ≠ [] ∧ (∃ c ∈ calls, c.tool ≠ askUserTool) ∧ ∀ c, calls = [c] → c.tool ≠ submitResultTool

namespace Effect

/-- A turn was begun. -/
def Begins (e : Effect) : Prop :=
  ∃ consumed answered atMs, .turnBegan consumed answered atMs ∈ e.events

def ends (e : Effect) : ℕ := e.outcomes.countP AgentOutcome.isTerminal

/-- Another turn was begun, or exactly one end reported. -/
def Answers (e : Effect) : Prop := e.Begins ∨ e.ends = 1

variable (e : Effect)

@[simp] theorem begins_after (es : List AgentDomainEvent) (os : List AgentOutcome) :
    (e.after es os).Begins ↔
      (∃ consumed answered atMs, .turnBegan consumed answered atMs ∈ es) ∨ e.Begins := by
  simp only [Begins, after_events, List.mem_append, exists_or]

@[simp] theorem ends_after (es : List AgentDomainEvent) (os : List AgentOutcome) :
    (e.after es os).ends = os.countP AgentOutcome.isTerminal + e.ends := List.countP_append

@[simp] theorem ends_andSnapshot : (AgentActor.andSnapshot e).ends = e.ends := rfl

@[simp] theorem begins_persistMaybeSnapshot :
    (AgentActor.persistMaybeSnapshot e).Begins ↔ e.Begins := by
  rw [Begins, AgentActor.persistMaybeSnapshot_events, Begins]

@[simp] theorem ends_persistMaybeSnapshot : (AgentActor.persistMaybeSnapshot e).ends = e.ends := by
  rw [ends, AgentActor.persistMaybeSnapshot_outcomes, ends]

end Effect

namespace AgentActor

/-- When the end of a run is answered: an agent that owes a result is ready, waits for work or has
no nudge left, and a contradiction finds a nudge left, a ready agent and a queue no park holds
back. -/
def Answerable (a : AgentActor) (params : AgentParams) (state : AgentState) : RunOutcome → Prop
  | .completed _ =>
    params.requiresResult = true →
      a.ready = true ∨ awaitsWork state = true ∨ maxResultNudges ≤ state.nudges
  | .stopped calls =>
    Contradictory calls →
      state.nudges < maxResultNudges ∧ a.ready = true ∧
        (state.asks = [] ∨ ∃ i ∈ state.inbox, i.isUser)
  | .failed _ _ | .cancelled | .alreadyReported => True

variable {a : AgentActor} {params : AgentParams} {env : Env} {state : AgentState}

theorem interpret_contradiction {calls : List StoppedCall} (h : Contradictory calls) :
    interpret calls = .contradiction calls := by
  obtain ⟨hne, ⟨c, hc, hask⟩, hsubmit⟩ := h
  have hall : ¬ calls.all (·.tool = askUserTool) = true := fun hall =>
    hask (by simpa using List.all_eq_true.mp hall c hc)
  unfold interpret
  rw [if_neg (by simpa using hne), if_neg hall]
  match calls, hsubmit with
  | [], _ => rfl
  | [only], hsubmit => exact if_neg (hsubmit only rfl)
  | _ :: _ :: _, _ => rfl

theorem interpret_of_not {calls : List StoppedCall} (h : ¬ Contradictory calls) :
    (∃ v, interpret calls = .output v) ∨ ∃ asks, interpret calls = .ask asks := by
  unfold interpret
  split_ifs with hempty hall
  · exact .inl ⟨_, rfl⟩
  · exact .inr ⟨_, rfl⟩
  · refine .inl ?_
    have hask : ∃ c ∈ calls, c.tool ≠ askUserTool := by simpa using hall
    match calls, h, hempty, hask with
    | [only], h, _, hask =>
      by_cases hs : only.tool = submitResultTool
      · exact ⟨only.input, if_pos hs⟩
      · exact absurd ⟨by simp, hask, fun c hc => List.singleton_inj.mp hc ▸ hs⟩ h
    | c :: d :: rest, h, _, hask => exact absurd ⟨by simp, hask, fun c hc => by simp at hc⟩ h

/-! ## Drains -/

theorem tryDrain_begins :
    (a.tryDrain env state).Begins ↔
      a.busy = false ∧ a.ready = true ∧ (queuedTurn state.inbox state.asks).isSome := by
  rcases a.tryDrain_cases env state with ⟨h, hs⟩ | ⟨turn, hb, hr, hq, h⟩
  · rw [h]
    refine ⟨fun ⟨_, _, _, hmem⟩ => absurd hmem List.not_mem_nil, fun ⟨hb, hr, hq⟩ => ?_⟩
    rcases hs with hs | hs | hs
    · simp [hs] at hb
    · simp [hs] at hr
    · simp [hs] at hq
  · obtain ⟨es, hes⟩ := a.beginTurn_events env state turn
    rw [h, hq]
    refine ⟨fun _ => ⟨hb, hr, rfl⟩, fun _ => ?_⟩
    rw [Effect.Begins, hes]
    exact ⟨_, _, _, List.mem_cons_self⟩

theorem tryDrain_ends (a : AgentActor) (env : Env) (state : AgentState) :
    (a.tryDrain env state).ends = 0 := by
  rcases a.tryDrain_cases env state with ⟨h, -⟩ | ⟨turn, -, -, -, h⟩
  · rw [h]
    rfl
  · rw [h, Effect.ends, a.beginTurn_outcomes env state turn]
    rfl

theorem tryDrain_begins_of_events (h : (a.tryDrain env state).events.isEmpty = false) :
    (a.tryDrain env state).Begins := by
  rcases a.tryDrain_cases env state with ⟨hd, -⟩ | ⟨turn, hb, hr, hq, -⟩
  · rw [hd] at h
    simp at h
  · exact tryDrain_begins.mpr ⟨hb, hr, by rw [hq]; rfl⟩

theorem thenDrain_begins {es : List AgentDomainEvent} {os : List AgentOutcome}
    (hes : ∀ c an t, AgentDomainEvent.turnBegan c an t ∉ es) :
    (a.thenDrain env state es os).Begins ↔
      a.busy = false ∧ a.ready = true ∧
        (queuedTurn (state.applyAll es).inbox (state.applyAll es).asks).isSome := by
  rw [thenDrain, Effect.begins_after, tryDrain_begins]
  refine or_iff_right ?_
  rintro ⟨c, an, t, h⟩
  exact hes c an t h

theorem thenDrain_ends (a : AgentActor) (env : Env) (state : AgentState)
    (es : List AgentDomainEvent) (os : List AgentOutcome) :
    (a.thenDrain env state es os).ends = os.countP AgentOutcome.isTerminal := by
  rw [thenDrain, Effect.ends_after, tryDrain_ends, Nat.add_zero]

/-! ## The ends -/

theorem queuedTurn_user (inbox : List Incoming) (asks : List AskedQuestion) {item : Incoming}
    (h : item.isUser = true) : (queuedTurn (inbox ++ [item]) asks).isSome :=
  queuedTurn_isSome.mpr ⟨by simp, .inr ⟨item, by simp, h⟩⟩

theorem endedWithoutResult_answers (hb : a.busy = false) :
    (a.endedWithoutResult env state).Answers ↔
      a.ready = true ∨ awaitsWork state = true ∨ maxResultNudges ≤ state.nudges := by
  unfold endedWithoutResult
  dsimp only
  split_ifs with hdrained hwork hspent hlast
  · -- a queued item starts the next turn
    have hbegin := tryDrain_begins_of_events (by simpa using hdrained)
    exact iff_of_true (.inl (by simpa using hbegin)) (.inl (tryDrain_begins.mp hbegin).2.1)
  · exact iff_of_true (.inr rfl) (.inr (.inl hwork))
  · exact iff_of_true (.inr rfl) (.inr (.inr hspent))
  all_goals
    -- the nudge is journaled, and starts a turn only if the agent is ready
    rw [Effect.Answers, thenDrain_begins (by simp), thenDrain_ends]
    have hq : (queuedTurn (state.inbox ++ [nudgeItem state.nudges]) state.asks).isSome :=
      queuedTurn_user state.inbox state.asks rfl
    have hbusy : ({ a with pendingToolChoice := some (.required submitResultTool) } :
      AgentActor).busy = false := hb
    simp only [AgentState.applyAll_cons, AgentState.applyAll_nil,
      (AgentState.applyEvent_of_not_queues _ (e := .nudged env.now) rfl).1,
      (AgentState.applyEvent_of_not_queues _ (e := .nudged env.now) rfl).2,
      AgentState.applyEvent_received_inbox, AgentState.applyEvent_received_asks, hq, hb, hbusy]
    simp [hwork, hspent]

theorem contradictionEvents_queues (calls : List StoppedCall) (now : ℕ) :
    ∀ e ∈ contradictionEvents calls now, e.queues = false := by
  intro e he
  rcases List.mem_append.mp he with he | he
  · obtain ⟨c, -, rfl⟩ := List.mem_map.mp he
    rfl
  · rw [List.mem_singleton.mp he]
    rfl

theorem contradictionEvents_nudges (state : AgentState) (calls : List StoppedCall) (now : ℕ) :
    (state.applyAll (contradictionEvents calls now)).nudges = satAdd 32 state.nudges 1 := by
  have hnudges : ∀ (cs : List ToolCompletion) (s : AgentState),
      (s.applyAll (cs.map .toolComplete)).nudges = s.nudges := by
    intro cs
    induction cs with
    | nil => exact fun _ => rfl
    | cons c cs ih => exact fun s => ih _
  have hmap := hnudges (calls.map fun c => ⟨c.toolCallId, contradictionReason calls, true, [],
    (contradictionReason calls).utf8ByteSize, 0, 0, now, now⟩) state
  rw [List.map_map] at hmap
  rw [contradictionEvents, AgentState.applyAll_append]
  exact congrArg (satAdd 32 · 1) hmap

/-- The nudge count passes its bound exactly when the bound was reached before. -/
theorem satAdd_nudges (n : ℕ) : satAdd 32 n 1 > maxResultNudges ↔ maxResultNudges ≤ n := by
  unfold satAdd maxResultNudges
  omega

theorem correctContradiction_answers (hb : a.busy = false) (calls : List StoppedCall) :
    (a.correctContradiction env state calls).Answers ↔
      state.nudges < maxResultNudges ∧ a.ready = true ∧
        (state.asks = [] ∨ ∃ i ∈ state.inbox, i.isUser) := by
  have hnone : ∀ c an t, AgentDomainEvent.turnBegan c an t ∉ contradictionEvents calls env.now :=
    fun c an t h => absurd (contradictionEvents_queues calls env.now _ h) (by
      simp [AgentDomainEvent.queues])
  unfold correctContradiction
  dsimp only
  rw [contradictionEvents_nudges]
  split_ifs with hspent <;> rw [satAdd_nudges] at hspent
  · refine iff_of_false (fun h => ?_) fun h => absurd h.1 (Nat.not_lt.mpr hspent)
    rcases h with ⟨c, an, t, h⟩ | h
    · exact hnone c an t h
    · exact absurd h (by simp [Effect.ends])
  · obtain ⟨hinbox, hasks⟩ :=
      state.applyAll_of_not_queues (contradictionEvents_queues calls env.now)
    rw [Effect.Answers, thenDrain_begins (by simpa using hnone), thenDrain_ends]
    simp only [AgentState.applyAll_append, AgentState.applyAll_cons, AgentState.applyAll_nil,
      AgentState.applyEvent_received_inbox, AgentState.applyEvent_received_asks, hinbox, hasks,
      queuedTurn_isSome, hb]
    simp [Incoming.isUser, Nat.not_le.mp hspent]

theorem completed_answers (hb : a.busy = false) (text : String) :
    (a.completed params env state text).Answers ↔
      a.Answerable params state (.completed text) := by
  unfold completed Answerable
  by_cases hres : params.requiresResult = true
  · simp only [hres, if_true, forall_const]
    exact endedWithoutResult_answers hb
  · refine iff_of_true ?_ fun h => absurd h hres
    rw [if_neg hres]
    dsimp only
    split_ifs with hdrained hpark
    · rw [Bool.and_eq_true] at hdrained
      exact .inl ((Effect.begins_persistMaybeSnapshot _).mpr
        (tryDrain_begins_of_events (by simpa using hdrained.2)))
    · exact .inr rfl
    · refine .inr ?_
      rw [Effect.ends_persistMaybeSnapshot, Effect.ends_after, tryDrain_ends]
      rfl

theorem stopped_answers (hb : a.busy = false) (calls : List StoppedCall) :
    (a.stopped env state calls).Answers ↔ a.Answerable params state (.stopped calls) := by
  unfold stopped Answerable
  by_cases hc : Contradictory calls
  · simp only [interpret_contradiction hc, hc, forall_const]
    exact correctContradiction_answers hb calls
  · refine iff_of_true ?_ fun h => absurd h hc
    rcases interpret_of_not hc with ⟨v, hv⟩ | ⟨asks, hasks⟩
    · refine .inr ?_
      rw [hv]
      rw [Effect.ends_persistMaybeSnapshot, thenDrain_ends]
      rfl
    · refine .inr ?_
      rw [hasks]
      rw [Effect.ends_andSnapshot, thenDrain_ends]
      rfl

theorem answers_after {e : Effect} {os : List AgentOutcome}
    (h : ∀ o ∈ os, o.isTerminal = false) : (e.after [] os).Answers ↔ e.Answers := by
  have hos : os.countP AgentOutcome.isTerminal = 0 :=
    List.countP_eq_zero.mpr fun o ho => by simp [h o ho]
  rw [Effect.Answers, Effect.begins_after, Effect.ends_after, hos, Nat.zero_add]
  simp [Effect.Answers]

theorem concludeRun_answers (hb : a.busy = false) {outcome : RunOutcome}
    (ho : outcome.owes = true) :
    (a.concludeRun params env state outcome).Answers ↔ a.Answerable params state outcome := by
  cases outcome with
  | completed text =>
    exact (answers_after (by simp [usageRecorded, AgentOutcome.isTerminal])).trans
      (completed_answers hb text)
  | stopped calls =>
    exact (answers_after (by simp [usageRecorded, AgentOutcome.isTerminal])).trans
      (stopped_answers hb calls)
  | failed error recoverable => exact iff_of_true (.inr rfl) trivial
  | cancelled | alreadyReported => simp [RunOutcome.owes] at ho

theorem handleFinished_answers {report : RunReport} (hrun : a.runId = some report.runId)
    (hprep : a.preparing = false) (ho : report.outcome.owes = true) :
    (a.handleFinished params env state report).Answers ↔
      a.Answerable params state report.outcome := by
  have hb : ({ a with running := none, cancelAcks := 0 } : AgentActor).busy = false := by
    simp [busy, hprep]
  have hsum : ∀ o ∈ summaryOutcomes report.seedSummary, o.isTerminal = false := by
    cases report.seedSummary <;> simp [summaryOutcomes, AgentOutcome.isTerminal]
  unfold handleFinished
  rw [if_pos hrun]
  refine ((answers_after hsum).trans (concludeRun_answers hb ho)).trans ?_
  cases report.outcome <;> exact Iff.rfl

end AgentActor

/-! ## Over every run -/

/-- If the step handles the report of a run in flight that owes an answer, it is answered. -/
def World.EndAnswered (params : AgentParams) (w : World) : Label → Prop
  | .handle env => ∀ s report rest, w.mailbox = ⟨s, .run (.runFinished report)⟩ :: rest →
    w.actor.runId = some report.runId → report.outcome.owes = true →
      (w.effect params env ⟨s, .run (.runFinished report)⟩).Answers
  | .load _ _ _ | .send _ | .emit _ _ | .finish _ | .prepared _ | .die _ => True

/-- If the step handles the report of a run in flight that owes an answer, it is answerable. -/
def World.EndAnswerable (params : AgentParams) (w : World) : Label → Prop
  | .handle _ => ∀ s report rest, w.mailbox = ⟨s, .run (.runFinished report)⟩ :: rest →
    w.actor.runId = some report.runId → report.outcome.owes = true →
      w.actor.Answerable params w.state report.outcome
  | .load _ _ _ | .send _ | .emit _ _ | .finish _ | .prepared _ | .die _ => True

/-- Along every execution, the end of a run is answered at exactly the steps where it is
answerable. -/
theorem run_end_answered (params : AgentParams) {tr : List (World × Label × World)} {w : World}
    (h : (agentSystem params).Exec World.boot tr w) :
    ∀ x ∈ tr, x.1.EndAnswered params x.2.1 ↔ x.1.EndAnswerable params x.2.1 := by
  intro x hx
  have hfence := fence (h.step_mem reachable_boot x hx).1
  obtain ⟨v, l, v'⟩ := x
  cases l with
  | handle env =>
    refine forall_congr' fun s => forall_congr' fun report => forall_congr' fun rest =>
      forall_congr' fun _ => forall_congr' fun hrun => forall_congr' fun ho => ?_
    exact AgentActor.handleFinished_answers hrun (hfence.preparing hrun) ho
  | load | send | emit | finish | prepared | die => exact Iff.rfl

/-! ## A contradiction nobody hears of -/

/-- Both finishing tools at once. -/
def contradictingCalls (run : ℕ) : List StoppedCall :=
  [⟨askUserTool, "ask" ++ toString run, .null⟩, ⟨submitResultTool, "submit" ++ toString run, .null⟩]

def contradictingReport (run : ℕ) : RunReport := ⟨run, .stopped (contradictingCalls run), none⟩

def contradictingAnswer (run : ℕ) : Message :=
  ⟨"answer" ++ toString run, .assistant,
    (contradictingCalls run).map fun c => .toolCall ⟨c.toolCallId, c.tool, c.input⟩, 0, none⟩

/-- A workflow agent that contradicts itself in three turns on end. -/
def contradictingLabels : List Label :=
  let env : Env := ⟨0, "m", "a", "t", false⟩
  let turn (run : ℕ) : List Label :=
    [.emit run (.messageComplete (contradictingAnswer run)), .handle env,
      .finish (contradictingReport run)]
  [Label.load env true [.queue (.enqueue (.user "u" "hello" []) false)], .handle env,
      .handle env] ++
    turn 0 ++ [Label.handle env] ++ turn 1 ++ [Label.handle env] ++ turn 2

def contradictingWorld : World :=
  (World.boot.steps? ⟨true, false, false⟩ contradictingLabels).get (by decide)

/-- The third contradiction is recorded; no turn begins and no end is reported. -/
theorem run_end_unanswered :
    (agentSystem ⟨true, false, false⟩).Reachable contradictingWorld ∧
      contradictingWorld.mailbox = [⟨.run 2, .run (.runFinished (contradictingReport 2))⟩] ∧
      contradictingWorld.actor.runId = some 2 ∧ (contradictingReport 2).outcome.owes = true ∧
      ¬ (contradictingWorld.effect ⟨true, false, false⟩ ⟨0, "m", "a", "t", false⟩
        ⟨.run 2, .run (.runFinished (contradictingReport 2))⟩).Answers := by
  refine ⟨reachable_steps? _, rfl, by decide, rfl, fun h => ?_⟩
  have hanswerable := (AgentActor.handleFinished_answers (by decide) (by decide) rfl).mp h
  have hnudges : contradictingWorld.state.nudges = 2 := by decide
  have hc : Contradictory (contradictingCalls 2) :=
    ⟨by simp [contradictingCalls], ⟨_, .tail _ (.head _), by decide⟩, by simp [contradictingCalls]⟩
  exact absurd (hanswerable hc).1 (by rw [hnudges]; decide)

/-- The same agent, with the first two contradictions answered and the third not. -/
theorem run_end_answered_contradicting :
    ∃ tr, (agentSystem ⟨true, false, false⟩).Exec World.boot tr contradictingWorld ∧
      tr.map (·.2.1) = contradictingLabels ∧
      ∀ x ∈ tr, x.1.EndAnswered ⟨true, false, false⟩ x.2.1 ↔
        x.1.EndAnswerable ⟨true, false, false⟩ x.2.1 := by
  obtain ⟨tr, hexec, hmap⟩ := exec_steps? (Option.some_get _).symm
  exact ⟨tr, hexec, hmap, run_end_answered _ hexec⟩

end Horsie.Agent
