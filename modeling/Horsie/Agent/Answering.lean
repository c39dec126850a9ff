import Horsie.Agent.RunEnd
import Horsie.Agent.Shown

/-!
# What a turn answers, and the run it starts

A turn answers the calls in `Turn.answering`. Started on a tidy log that pledges them, it hands its
run a well-formed history and leaves a tidy log (`beginTurn_leaves`, `startPrepared_leaves`). What
ends a run journals results only of calls the run left open (`concludeRun_leaves`).
-/

namespace Horsie.Agent

open AgentState (Grows Tidy)

/-- What a run sends its provider first: the history it was handed and its input. -/
def RunTask.sends (t : RunTask) (now : ℕ) : List Message :=
  t.history ++ if t.summariseOnly then [] else [t.input.toMessage now]

/-- Every tool call a run is started on has exactly one result, in the run of tool messages
directly after it. -/
def RunTask.WellFormed (t : RunTask) : Prop := ∀ now, toolExchange.WellFormed (t.sends now)

namespace Turn

def answering (t : Turn) : List String := t.results.map (·.toolCallId)

theorem inputs_split (t : Turn) (recordedAt now : ℕ) (messageId : String) :
    ∃ ts us, t.recorded recordedAt ++
        (if t.summariseOnly then [] else [(t.input messageId).toMessage now]) = ts ++ us ∧
      (∀ m ∈ ts, m.role = .tool) ∧ answeredIds ts = t.answering ∧
      ∀ m ∈ us, m.role = .user ∧ m.resultIds = [] := by
  have huser : ∀ u : UserMessageInput, ∀ m ∈ [(AgentInput.userMessage u).toMessage now],
      m.role = .user ∧ m.resultIds = [] := by
    intro u m hm
    rw [List.mem_singleton.mp hm]
    exact ⟨rfl, AgentInput.toMessage_userMessage_resultIds u now⟩
  have htool : ∀ n, ∀ m ∈ [(AgentInput.toolResults t.results).toMessage n], m.role = .tool := by
    intro n m hm
    rw [List.mem_singleton.mp hm]
    rfl
  have hanswers : ∀ n, answeredIds [(AgentInput.toolResults t.results).toMessage n] =
      t.answering := fun n => by simp [answeredIds, answering]
  cases hs : t.startsAUserTurn with
  | true =>
    have honly : t.summariseOnly = false := by
      cases hm : t.message <;> simp_all [summariseOnly, startsAUserTurn]
    have hin : t.input messageId =
        .userMessage ⟨messageId, t.message.getD "", t.subagentResults, t.artifacts⟩ := if_pos hs
    by_cases hr : t.results = []
    · exact ⟨[], [(t.input messageId).toMessage now], by simp [recorded, hr, honly], by simp,
        by simp [answeredIds, answering, hr], by rw [hin]; exact huser _⟩
    · refine ⟨[(AgentInput.toolResults t.results).toMessage recordedAt],
        [(t.input messageId).toMessage now], by simp [recorded, hs, hr, honly], htool recordedAt,
        hanswers recordedAt, by rw [hin]; exact huser _⟩
  | false =>
    by_cases honly : t.summariseOnly = true
    · have hr : t.results = [] := by
        simp only [summariseOnly, Bool.and_eq_true, List.isEmpty_iff] at honly
        exact honly.2
      exact ⟨[], [], by simp [recorded, hs, honly], by simp, by simp [answeredIds, answering, hr],
        by simp⟩
    · refine ⟨_, [], ?_, htool now, hanswers now, by simp⟩
      simp [recorded, hs, honly, input]

end Turn

namespace AgentState

variable {s s' : AgentState} {turn : Turn}

/-- The history a turn hands its run, with its input, is well-formed when the log pledges what the
turn answers. -/
theorem Tidy.sends (h : s.Tidy turn.answering) (repairedAt recordedAt now : ℕ) (id : String) :
    toolExchange.WellFormed (repairDangling s.promptMessages turn.answering repairedAt ++
      (turn.recorded recordedAt ++
        if turn.summariseOnly then [] else [(turn.input id).toMessage now])) := by
  obtain ⟨ts, us, heq, hts, hans, hus⟩ := turn.inputs_split recordedAt now id
  obtain ⟨hsound, hfits⟩ := h.prompt
  have hrole : ∀ m ∈ us, toolExchange.reply m = false := fun m hm => by
    simp [toolExchange, (hus m hm).1]
  have hrun : toolExchange.run (ts ++ us) = ts := by
    rw [Lib.Exchange.run_append_of_all (List.all_eq_true.mpr fun m hm => by
      simp [toolExchange, hts m hm])]
    cases us with
    | nil => simp [Lib.Exchange.run]
    | cons m us => simp [Lib.Exchange.run, hrole m List.mem_cons_self]
  have hanswers : answeredIds (ts ++ us) = turn.answering := by
    have hnil : answeredIds us = [] := List.flatMap_eq_nil_iff.mpr fun m hm => (hus m hm).2
    rw [answeredIds_append, hnil, List.append_nil, hans]
  have hcalls : toolExchange.allCalls (ts ++ us) = [] := by
    refine List.flatMap_eq_nil_iff.mpr fun m hm => ?_
    rcases List.mem_append.mp hm with hm | hm
    · simp [toolExchange, assistantCalls, hts m hm]
    · simp [toolExchange, assistantCalls, (hus m hm).1]
  have hwell := wellFormed_repairDangling hsound hcalls (by rw [hrun, hans]; exact hfits)
    (by rw [hrun, hanswers, hans]) repairedAt
  rwa [hanswers, ← heq] at hwell

theorem grows_inputs (s : AgentState) (ms : List Message) :
    Grows s (s.applyAll (ms.map .inputMessage)) ms := by
  have h : Grows s (s.applyAll (ms.map .inputMessage))
      ((ms.map AgentDomainEvent.inputMessage).flatMap (·.shows)) := s.grows_applyAll (by simp)
  have hms : (ms.flatMap fun m => (AgentDomainEvent.inputMessage m).shows) = ms := by
    simp [AgentDomainEvent.shows]
  rwa [List.flatMap_map, hms] at h

theorem Tidy.inputs (h : s.Tidy turn.answering) (env : Env) :
    (s.applyAll ((turn.inputMessages env).map .inputMessage)).Tidy [] := by
  obtain ⟨ts, us, heq, hts, hans, hus⟩ := turn.inputs_split env.now env.now env.messageId
  rw [Turn.inputMessages, heq, List.map_append, AgentState.applyAll_append]
  have hmid : (s.applyAll (ts.map .inputMessage)).Tidy [] :=
    Tidy.replies (by rw [hans, List.append_nil]; exact h) (s.grows_inputs ts) hts
  exact hmid.inert (AgentState.grows_inputs _ us)
    (fun m hm => ⟨by simp [assistantCalls, (hus m hm).1], (hus m hm).2⟩) (by simp)

theorem applyAll_inputs_asks (s : AgentState) (ms : List Message) :
    (s.applyAll (ms.map .inputMessage)).asks = s.asks :=
  (s.applyAll_of_not_queues fun e he => by
    obtain ⟨m, -, rfl⟩ := List.mem_map.mp he
    rfl).2

theorem parkedCallIds_congr (h : s'.asks = s.asks) : s'.parkedCallIds = s.parkedCallIds := by
  rw [parkedCallIds, h]
  rfl

end AgentState

namespace AgentActor

/-- What an effect decided on an idle agent leaves: well-formed runs, and a log that pledges the
questions asked and what the turns sent into their hooks answer. -/
structure Leaves (s : AgentState) (e : Effect) : Prop where
  runs : ∀ r ∈ e.runs, r.WellFormed
  tidy : (s.applyAll e.events).Tidy
    ((s.applyAll e.events).parkedCallIds ++ e.prepares.flatMap Turn.answering)
  calm : e.prepares ≠ [] → (s.applyAll e.events).asks = []

variable {a : AgentActor} {params : AgentParams} {env : Env} {s : AgentState} {turn : Turn}

theorem Leaves.congr {e e' : Effect} (h : Leaves s e) (hev : e'.events = e.events)
    (hr : e'.runs = e.runs) (hp : e'.prepares = e.prepares) : Leaves s e' :=
  ⟨hr ▸ h.runs, by rw [hp, hev]; exact h.tidy, by rw [hp, hev]; exact h.calm⟩

theorem leaves_of_tidy {e : Effect} (ht : e.tasks = [])
    (h : (s.applyAll e.events).Tidy (s.applyAll e.events).parkedCallIds) : Leaves s e := by
  refine ⟨?_, ?_, ?_⟩
  · rw [Effect.runs, ht]
    exact fun r hr => absurd hr List.not_mem_nil
  · rw [Effect.prepares, ht]
    simpa using h
  · rw [Effect.prepares, ht]
    exact fun hf => absurd rfl hf

theorem startPrepared_runs (a : AgentActor) (env : Env) (s : AgentState) {prepared : PreparedStart}
    (hab : prepared.abandon = none) :
    (a.startPrepared env s prepared).prepares = [] ∧
      (a.startPrepared env s prepared).events =
        hookEvents s prepared.records env.now ++
          (prepared.turn.inputMessages env).map .inputMessage ∧
      ∀ r ∈ (a.startPrepared env s prepared).runs,
        r.history = repairDangling
            (s.applyAll (hookEvents s prepared.records env.now)).promptMessages
            prepared.turn.answering env.now ++ prepared.turn.recorded env.now ∧
          r.input = prepared.turn.input env.messageId ∧
          r.summariseOnly = prepared.turn.summariseOnly := by
  unfold startPrepared
  rw [hab]
  refine ⟨rfl, by simp [startRun], fun r hr => ?_⟩
  rw [Effect.after_runs] at hr
  obtain rfl := List.mem_singleton.mp hr
  exact ⟨rfl, rfl, rfl⟩

theorem startPrepared_leaves {prepared : PreparedStart} (hab : prepared.abandon = none)
    (hasks : s.asks = [])
    (h : (s.applyAll (hookEvents s prepared.records env.now)).Tidy prepared.turn.answering) :
    Leaves s (a.startPrepared env s prepared) := by
  obtain ⟨hp, hev, hruns⟩ := a.startPrepared_runs env s hab
  have hafter : (s.applyAll (a.startPrepared env s prepared).events).asks = [] := by
    rw [hev, AgentState.applyAll_append, AgentState.applyAll_inputs_asks]
    refine (s.applyAll_of_not_queues fun e he => ?_).2.trans hasks
    obtain ⟨i, hi, rfl⟩ := List.mem_mapIdx.mp he
    rfl
  refine ⟨fun r hr now => ?_, ?_, fun hne => absurd hp hne⟩
  · obtain ⟨hhist, hinput, honly⟩ := hruns r hr
    rw [RunTask.sends, hhist, hinput, honly, List.append_assoc]
    exact h.sends _ _ _ _
  · rw [AgentState.parkedCallIds, hafter, hp, hev, AgentState.applyAll_append]
    exact h.inputs env

theorem grows_turnBegan (s : AgentState) (consumed answered : List String) (now : ℕ) :
    Grows s (s.applyEvent (.turnBegan consumed answered now)) [] := s.grows_applyEvent (by simp)

theorem beginTurn_leaves (h : s.Tidy turn.answering) : Leaves s (a.beginTurn env s turn) := by
  have hbegan := h.still (grows_turnBegan s turn.consumed turn.answered env.now)
  by_cases hp : (a.beginTurn env s turn).prepares = []
  · have hev := beginTurn_events_now hp
    refine ⟨fun r hr now => ?_, ?_, fun hne => absurd hp hne⟩
    · unfold beginTurn at hr
      split_ifs at hr with hdue
      · obtain ⟨hhist, hinput, honly⟩ :=
          (a.startPrepared_runs env s rfl).2.2 r hr
        rw [RunTask.sends, hhist, hinput, honly, List.append_assoc]
        exact h.sends _ _ _ _
      · cases hr
    · rw [hev, hp, AgentState.applyAll_cons]
      have hasks := (s.applyEvent (.turnBegan turn.consumed turn.answered env.now)
        ).applyAll_inputs_asks (turn.inputMessages env)
      rw [AgentState.parkedCallIds_congr hasks]
      exact hbegan.inputs env
  · obtain ⟨hprep, hev⟩ := beginTurn_prepares hp
    refine ⟨fun r hr => ?_, ?_, fun _ => by rw [hev]; rfl⟩
    · unfold beginTurn at hr hp
      split_ifs at hr hp with hdue
      · exact absurd rfl hp
      · cases hr
    · rw [hprep, hev, List.flatMap_singleton]
      exact hbegan

theorem queuedTurn_answering {inbox : List Incoming} (h : queuedTurn inbox s.asks = some turn) :
    turn.answering = s.parkedCallIds := by
  rw [queuedTurn_eq_some h, Turn.answering, List.map_map]
  exact List.map_id _

theorem tryDrain_leaves (h : s.Tidy s.parkedCallIds) : Leaves s (a.tryDrain env s) := by
  rcases a.tryDrain_cases env s with ⟨hd, -⟩ | ⟨turn, -, -, hq, hd⟩
  · rw [hd]
    exact leaves_of_tidy rfl h
  · rw [hd]
    exact beginTurn_leaves (by rw [queuedTurn_answering hq]; exact h)

theorem thenDrain_leaves {es : List AgentDomainEvent} {o : List AgentOutcome}
    (h : (s.applyAll es).Tidy (s.applyAll es).parkedCallIds) :
    Leaves s (a.thenDrain env s es o) := by
  have hl : Leaves (s.applyAll es) (a.tryDrain env (s.applyAll es)) := tryDrain_leaves h
  refine ⟨hl.runs, ?_, ?_⟩
  · rw [thenDrain, Effect.after_events, AgentState.applyAll_append]
    exact hl.tidy
  · rw [thenDrain, Effect.after_events, AgentState.applyAll_append]
    exact hl.calm

theorem tidy_silent {es : List AgentDomainEvent} (h : s.Tidy s.parkedCallIds)
    (hes : ∀ e ∈ es, e.silent = true) : (s.applyAll es).Tidy (s.applyAll es).parkedCallIds := by
  obtain ⟨hg, ha⟩ := s.applyAll_silent hes
  rw [AgentState.parkedCallIds_congr ha]
  exact h.still hg

/-! ## The end of a run -/

theorem endedWithoutResult_leaves (h : s.Tidy s.parkedCallIds) :
    Leaves s (a.endedWithoutResult env s) := by
  unfold endedWithoutResult
  dsimp only
  split_ifs
  · exact (@tryDrain_leaves a env s h).congr (by simp)
      (by simp [Effect.runs]) (by simp [Effect.prepares])
  · exact leaves_of_tidy rfl (tidy_silent h (by simp [AgentDomainEvent.silent, park, andSnapshot]))
  · exact leaves_of_tidy rfl h
  all_goals exact thenDrain_leaves (tidy_silent h (by simp [AgentDomainEvent.silent]))

theorem completed_leaves (h : s.Tidy s.parkedCallIds) (text : String) :
    Leaves s (a.completed params env s text) := by
  unfold completed
  dsimp only
  split_ifs
  · exact endedWithoutResult_leaves h
  · exact (@tryDrain_leaves a env s h).congr (by simp)
      (by simp [Effect.runs]) (by simp [Effect.prepares])
  · exact leaves_of_tidy rfl (tidy_silent h (by simp [AgentDomainEvent.silent, park, andSnapshot]))
  · exact (@tryDrain_leaves a env s h).congr (by simp)
      (by simp [Effect.runs]) (by simp [Effect.prepares])

theorem contradictionEvents_tidy {pledged : List String} {calls : List StoppedCall}
    (h : s.Tidy (calls.map (·.toolCallId) ++ pledged)) (now : ℕ) :
    (s.applyAll (contradictionEvents calls now)).Tidy pledged := by
  have hshows : ∀ calls : List StoppedCall, ∀ c : StoppedCall → ToolCompletion,
      (∀ k, (c k).toolCallId = k.toolCallId) →
      answeredIds ((calls.map fun k => AgentDomainEvent.toolComplete (c k)).flatMap (·.shows)) =
        calls.map (·.toolCallId) ∧
      ∀ m ∈ (calls.map fun k => AgentDomainEvent.toolComplete (c k)).flatMap (·.shows),
        m.role = .tool := by
    intro calls c hc
    induction calls with
    | nil => exact ⟨rfl, fun m hm => absurd hm List.not_mem_nil⟩
    | cons k calls ih =>
      refine ⟨?_, fun m hm => ?_⟩
      · rw [List.map_cons, List.flatMap_cons, answeredIds_append, ih.1]
        simp [answeredIds, AgentDomainEvent.shows, ToolCompletion.message, hc]
      · rcases List.mem_append.mp hm with hm | hm
        · rw [List.mem_singleton.mp hm]
          rfl
        · exact ih.2 m hm
  rw [contradictionEvents, AgentState.applyAll_append]
  obtain ⟨hans, hrole⟩ := hshows calls (fun k => ⟨k.toolCallId, contradictionReason calls, true, [],
    (contradictionReason calls).utf8ByteSize, 0, 0, now, now⟩) fun _ => rfl
  have hres := Tidy.replies (by rw [hans]; exact h)
    (s.grows_applyAll (by simp)) hrole
  exact hres.still ((s.applyAll _).grows_applyEvent (e := .nudged now) (by simp))

theorem stopped_leaves {calls : List StoppedCall} {pending : List String}
    (h : s.Tidy (s.parkedCallIds ++ pending)) (he : endsWith pending (.stopped calls)) :
    Leaves s (a.stopped env s calls) := by
  have hparked : s.Tidy s.parkedCallIds := h.subperm (List.sublist_append_left _ _).subperm
  have hsub : (calls.map (·.toolCallId)).Subperm pending := he
  unfold stopped
  cases hi : interpret calls with
  | output output =>
    have hsilent : ∀ e ∈ (if s.timers.isEmpty then [] else
        [AgentDomainEvent.timerCancelled (s.timers.map (·.id)) env.now]), e.silent = true := by
      split_ifs <;> simp [AgentDomainEvent.silent]
    exact (@thenDrain_leaves a env s _ [.concluded output]
      (tidy_silent hparked hsilent)).congr (by simp)
      (by simp [Effect.runs]) (by simp [Effect.prepares])
  | ask asks =>
    -- the questions are asked by the calls that stopped the run
    have hasks : asks.filterMap (·.toolCallId) = calls.map (·.toolCallId) ∨ asks = [] := by
      unfold interpret at hi
      split_ifs at hi
      · left
        cases hi
        simp [StoppedCall.question, List.filterMap_map]
      · rcases calls with _ | ⟨only, _ | ⟨_, _⟩⟩
        · cases hi
        · dsimp only at hi
          split_ifs at hi
        · cases hi
    refine (thenDrain_leaves (o := [.asked asks]) ?_).congr rfl rfl rfl
    have hgrow : Grows s (s.applyAll [.askRecorded asks env.now]) [] :=
      s.grows_applyAll (by simp)
    have hpledged : s.Tidy (asks.filterMap (·.toolCallId)) := by
      refine h.subperm ?_
      rcases hasks with hasks | rfl
      · rw [hasks]
        exact hsub.trans (List.sublist_append_right _ _).subperm
      · exact List.nil_subperm
    exact hpledged.still hgrow
  | contradiction calls' =>
    have hcalls : calls' = calls := by
      unfold interpret at hi
      split_ifs at hi
      rcases calls with _ | ⟨only, _ | ⟨_, _⟩⟩
      · exact (Conclusion.contradiction.inj hi).symm
      · dsimp only at hi
        split_ifs at hi
        exact (Conclusion.contradiction.inj hi).symm
      · exact (Conclusion.contradiction.inj hi).symm
    rw [hcalls]
    have hcorrected : (s.applyAll (contradictionEvents calls env.now)).Tidy
        (s.applyAll (contradictionEvents calls env.now)).parkedCallIds := by
      rw [AgentState.parkedCallIds_congr
        (s.applyAll_of_not_queues (contradictionEvents_queues calls env.now)).2]
      refine contradictionEvents_tidy (h.subperm ?_) env.now
      exact (List.perm_append_comm.subperm).trans (List.Subperm.append (List.Subperm.refl _) hsub)
    simp only [correctContradiction]
    split_ifs
    · exact leaves_of_tidy rfl hcorrected
    · refine thenDrain_leaves ?_
      rw [AgentState.applyAll_append]
      exact tidy_silent hcorrected (by simp [AgentDomainEvent.silent])

/-- The calls a cancelled run left without a result, none of them a question. -/
def missingCalls (s : AgentState) : List String :=
  ((s.promptMessages.flatMap assistantCalls).filter fun id =>
    decide (id ∉ answeredIds s.promptMessages) && decide (id ∉ s.parkedCallIds))

theorem answeredIds_missingToolResults (s : AgentState) (now : ℕ) :
    answeredIds (missingToolResults s.promptMessages s.parkedCallIds now) = missingCalls s := by
  simp [missingToolResults, answeredIds, missingCalls, syntheticResult, List.flatMap_map]

theorem missingToolResults_role (s : AgentState) (now : ℕ) :
    ∀ m ∈ missingToolResults s.promptMessages s.parkedCallIds now, m.role = .tool := by
  intro m hm
  obtain ⟨c, -, rfl⟩ := List.mem_map.mp hm
  rfl

theorem missingCalls_open (h : s.Tidy s.parkedCallIds)
    (htail : ∀ c ∈ missingCalls s, c ∈ toolExchange.tailCalls s.shown) :
    s.Tidy (missingCalls s ++ s.parkedCallIds) := by
  refine ⟨h.ordered, h.sound, ?_, fun c hc => ?_, fun c hc hmem => ?_⟩
  · refine List.nodup_append.mpr ⟨?_, h.fits.nodup, fun c hc d hd hcd => ?_⟩
    · exact (h.prompt.1.nodup).filter _
    · have := (List.mem_filter.mp hc).2
      simp only [Bool.and_eq_true, decide_eq_true_eq] at this
      exact this.2 (hcd ▸ hd)
  · rcases List.mem_append.mp hc with hc | hc
    · obtain ⟨p, q, hpq, hprompt⟩ := AgentState.promptMessages_split h.ordered
      have hs := h.sound
      obtain ⟨hcall, hno⟩ := List.mem_filter.mp hc
      simp only [Bool.and_eq_true, decide_eq_true_eq] at hno
      intro hans
      rw [hpq] at hs hans
      have hq : c ∈ toolExchange.allCalls q ∧
          (c ∈ answeredIds q → c ∈ answeredIds s.promptMessages) := by
        rcases hprompt with hprompt | ⟨entry, atMs, hprompt⟩
        · rw [hprompt] at hcall ⊢
          exact ⟨hcall, id⟩
        · rw [hprompt] at hcall ⊢
          exact ⟨hcall, fun h => List.mem_append_right _ h⟩
      exact hno.1 (hq.2 (hs.mem_suffix hq.1 hans))
    · exact h.fits.open_ c hc
  · rcases List.mem_append.mp hc with hc | hc
    · exact htail c hc
    · exact h.fits.tail c hc hmem

/-- What a cancelled run needs to leave a tidy log: the calls left without a result are of the
newest message, and no question is open when its unfinished text is salvaged. -/
structure CancelsInPlace (a : AgentActor) (env : Env) (s : AgentState) : Prop where
  tail : ∀ c ∈ missingCalls s, c ∈ toolExchange.tailCalls s.shown
  salvaged : (a.abortedMessage env).isSome = true → s.asks = []

instance (a : AgentActor) (env : Env) (s : AgentState) : Decidable (CancelsInPlace a env s) :=
  decidable_of_iff ((∀ c ∈ missingCalls s, c ∈ toolExchange.tailCalls s.shown) ∧
      ((a.abortedMessage env).isSome = true → s.asks = []))
    ⟨fun h => ⟨h.1, h.2⟩, fun h => ⟨h.tail, h.salvaged⟩⟩

theorem cancelEvents_tidy (h : s.Tidy s.parkedCallIds) (hc : CancelsInPlace a env s) :
    (s.applyAll (a.cancelEvents env s)).Tidy (s.applyAll (a.cancelEvents env s)).parkedCallIds := by
  set repairs := missingToolResults s.promptMessages s.parkedCallIds env.now with hrepairs
  have hasks : (s.applyAll (a.cancelEvents env s)).asks = s.asks := by
    refine (s.applyAll_of_not_queues fun e he => ?_).2
    simp only [cancelEvents, List.mem_append, List.mem_map, List.mem_singleton] at he
    rcases he with (⟨m, -, rfl⟩ | ⟨m, -, rfl⟩) | rfl <;> rfl
  rw [AgentState.parkedCallIds_congr hasks, cancelEvents, AgentState.applyAll_append,
    AgentState.applyAll_append]
  have hrepaired : (s.applyAll (repairs.map .inputMessage)).Tidy s.parkedCallIds := by
    refine Tidy.replies (s := s) ?_ (s.grows_inputs repairs) (missingToolResults_role s env.now)
    rw [hrepairs, answeredIds_missingToolResults]
    exact missingCalls_open h hc.tail
  refine Tidy.still ?_ (AgentState.grows_applyEvent _ (e := .runCancelled env.now) (by simp))
  cases habort : a.abortedMessage env with
  | none => simpa using hrepaired
  | some m =>
    obtain ⟨text, rfl⟩ : ∃ text, m = .assistantText env.abortedId text env.now := by
      unfold abortedMessage at habort
      dsimp only at habort
      split_ifs at habort
      exact ⟨_, (Option.some.inj habort).symm⟩
    have hnil : s.parkedCallIds = [] := by
      rw [AgentState.parkedCallIds, hc.salvaged (by rw [habort]; rfl)]
      rfl
    have hclosed : (s.applyAll (repairs.map .inputMessage)).Tidy [] :=
      hrepaired.subperm List.nil_subperm
    have hsalvaged := hclosed.inert
      (AgentState.grows_applyEvent _
        (e := .messageAborted (.assistantText env.abortedId text env.now)) (by simp))
      (fun m hm => by rw [List.mem_singleton.mp hm]; exact ⟨rfl, rfl⟩) (by simp)
    exact hsalvaged.subperm (by rw [hnil])

theorem concludeRun_leaves {pending : List String} (h : s.Tidy (s.parkedCallIds ++ pending))
    {outcome : RunOutcome} (he : endsWith pending outcome)
    (hc : outcome = .cancelled → CancelsInPlace a env s) :
    Leaves s (a.concludeRun params env s outcome) := by
  have hparked : s.Tidy s.parkedCallIds := h.subperm (List.sublist_append_left _ _).subperm
  cases outcome with
  | completed text => exact (completed_leaves hparked text).congr rfl rfl rfl
  | stopped calls => exact (stopped_leaves h he).congr rfl rfl rfl
  | cancelled =>
    exact (thenDrain_leaves (o := [usageRecorded s])
      (cancelEvents_tidy hparked (hc rfl))).congr rfl rfl rfl
  | failed | alreadyReported => exact leaves_of_tidy rfl hparked

end AgentActor

end Horsie.Agent
