import Horsie.Agent.Drain

/-!
# Nothing accepted is lost

A received message is delivered while it waits in the inbox and once the log shows its content
(`Delivered`). A turn takes the whole inbox out with its first event and records the content with
a later one of the same batch, so every prefix of the journal delivers what it received, unless
the turn is handed to its start hooks in between; and an answer is acknowledged before it is
written. Every execution without these two steps loses nothing (`no_message_lost`).
-/

namespace Horsie.Agent

/-- Whether a message is the input of a turn that shows what this item says, reports and
attaches. -/
structure Carries (m : Message) (item : Incoming) : Prop where
  role : m.role = .user
  text : ∀ t, item.text = some t → Lib.Occurs t m.text
  artifacts : ∀ a ∈ item.artifacts, .artifact a ∈ m.parts
  report : ∀ p, item.report? = some p → .subAgentResult p ∈ m.parts

/-- Whether an item says anything to the model: a request for a summary does not. -/
def Incoming.hasContent (item : Incoming) : Bool := item.text.isSome || item.report?.isSome

namespace AgentState

/-- A received item is still queued, has nothing to say, or is shown by the log. -/
def Delivered (s : AgentState) (item : Incoming) : Prop :=
  item ∈ s.inbox ∨ item.hasContent = false ∨
    ∃ e ∈ s.log, ∃ m, e.body = .llm m ∧ Carries m item

/-- The log shows an answer as the result of the call that asked. -/
def Answered (s : AgentState) (answer : AskAnswer) : Prop :=
  ∃ e ∈ s.log, ∃ m, e.body = .llm m ∧ m.role = .tool ∧
    .toolResult ⟨answer.toolCallId, answer.text, false, []⟩ ∈ m.parts

end AgentState

/-- Whether a turn carries anything the model is to read. -/
def Turn.hasContent (t : Turn) : Bool :=
  t.message.isSome || !t.subagentResults.isEmpty || !t.results.isEmpty

/-! ## What the fold keeps -/

/-- Whether an event leaves every message the log and the inbox hold where it is. -/
def AgentDomainEvent.keeps : AgentDomainEvent → Bool
  | .seeded _ _ | .turnBegan _ _ _ => false
  | .inputMessage _ | .messageComplete _ | .messageAborted _ | .toolComplete _ | .hookRan _ _ _
  | .runComplete _ _ _ _ | .runAborted _ _ _ | .runCancelled _ | .timerArmed _ _
  | .timerCancelled _ _ | .timerFired _ _ _ | .parked _ | .nudged _ | .taskListChanged _ _
  | .lifecycleRecorded _ _ | .compacted _ | .received _ _ | .askRecorded _ _ => true

namespace AgentState

variable (s : AgentState)

theorem recordAsks_log (asks : List AskedQuestion) (atMs : ℕ) :
    s.log <+: (s.recordAsks asks atMs).log := by
  have hfold : ∀ (asks : List AskedQuestion) (s : AgentState),
      s.log <+: (asks.foldl (fun s ask =>
        s.push atMs (.lifecycle (.askRecorded ask.toolCallId ask.question))) s).log := by
    intro asks
    induction asks with
    | nil => exact fun s => List.prefix_refl _
    | cons ask asks ih =>
      intro s
      have h := ih (s.push atMs (.lifecycle (.askRecorded ask.toolCallId ask.question)))
      exact (List.prefix_append _ _).trans h
  exact hfold asks s

theorem recordAsks_inbox (asks : List AskedQuestion) (atMs : ℕ) :
    (s.recordAsks asks atMs).inbox = s.inbox := by
  have hfold : ∀ (asks : List AskedQuestion) (s : AgentState),
      (asks.foldl (fun s ask =>
        s.push atMs (.lifecycle (.askRecorded ask.toolCallId ask.question))) s).inbox =
        s.inbox := by
    intro asks
    induction asks with
    | nil => exact fun s => rfl
    | cons ask asks ih => exact fun s => ih _
  exact hfold asks s

theorem applyEvent_log {e : AgentDomainEvent} (h : ∀ st seed, e ≠ .seeded st seed) :
    s.log <+: (s.applyEvent e).log := by
  cases e with
  | seeded st seed => exact absurd rfl (h st seed)
  | timerFired id next => cases next <;> exact List.prefix_refl _
  | received item => cases item <;> first | exact List.prefix_refl _ | exact List.prefix_append _ _
  | askRecorded asks atMs => exact recordAsks_log _ asks atMs
  | runComplete | runAborted | runCancelled | timerArmed | timerCancelled | parked | nudged =>
    exact List.prefix_refl _
  | inputMessage | messageComplete | messageAborted | toolComplete | hookRan | taskListChanged
  | lifecycleRecorded | compacted | turnBegan => exact List.prefix_append _ _

theorem applyEvent_inbox {e : AgentDomainEvent} (h : e.keeps = true) :
    s.inbox ⊆ (s.applyEvent e).inbox := by
  cases hq : e.queues with
  | false => exact (s.applyEvent_of_not_queues hq).1.symm ▸ List.Subset.refl _
  | true =>
    cases e with
    | received item t =>
      rw [applyEvent_received_inbox]
      exact List.subset_append_left _ _
    | askRecorded asks t => exact (recordAsks_inbox _ asks t).symm ▸ List.Subset.refl _
    | _ => simp [AgentDomainEvent.keeps, AgentDomainEvent.queues] at h hq

theorem applyAll_log {es : List AgentDomainEvent} (h : ∀ e ∈ es, ∀ st seed, e ≠ .seeded st seed) :
    s.log <+: (s.applyAll es).log := by
  induction es generalizing s with
  | nil => exact List.prefix_refl _
  | cons e es ih =>
    exact (s.applyEvent_log (h e List.mem_cons_self)).trans
      (ih _ fun e he => h e (List.mem_cons_of_mem _ he))

variable {s}

theorem Answered.of_log {t : AgentState} {answer : AskAnswer} (h : s.Answered answer)
    (hlog : s.log <+: t.log) : t.Answered answer := by
  obtain ⟨e, he, hm⟩ := h
  exact ⟨e, hlog.subset he, hm⟩

theorem Delivered.of_log {t : AgentState} {item : Incoming} (h : s.Delivered item)
    (hlog : s.log <+: t.log) (hi : item ∈ s.inbox → t.Delivered item) : t.Delivered item := by
  rcases h with h | h | ⟨e, he, hm⟩
  · exact hi h
  · exact .inr (.inl h)
  · exact .inr (.inr ⟨e, hlog.subset he, hm⟩)

end AgentState

/-- A batch that, folded onto `s`, delivers whatever was delivered before and whatever it
receives, and takes nothing off the log. -/
structure Delivers (s : AgentState) (es : List AgentDomainEvent) : Prop where
  delivered : ∀ item, (s.Delivered item ∨ ∃ t, .received item t ∈ es) →
    (s.applyAll es).Delivered item
  log : s.log <+: (s.applyAll es).log

namespace Delivers

variable {s : AgentState}

theorem nil : Delivers s [] where
  delivered item h := by
    rcases h with h | ⟨t, h⟩
    · exact h
    · cases h
  log := List.prefix_refl _

theorem append {es fs : List AgentDomainEvent} (h : Delivers s es)
    (h' : Delivers (s.applyAll es) fs) : Delivers s (es ++ fs) where
  delivered item hi := by
    rw [AgentState.applyAll_append]
    refine h'.delivered item ?_
    rcases hi with hi | ⟨t, hi⟩
    · exact .inl (h.delivered item (.inl hi))
    · rcases List.mem_append.mp hi with hi | hi
      · exact .inl (h.delivered item (.inr ⟨t, hi⟩))
      · exact .inr ⟨t, hi⟩
  log := by
    rw [AgentState.applyAll_append]
    exact h.log.trans h'.log

theorem single {e : AgentDomainEvent} (h : e.keeps = true) : Delivers s [e] where
  delivered item hi := by
    rcases hi with hi | ⟨t, hi⟩
    · refine hi.of_log (s.applyEvent_log ?_) fun hmem => .inl (s.applyEvent_inbox h hmem)
      rintro st seed rfl
      simp [AgentDomainEvent.keeps] at h
    · obtain rfl := List.mem_singleton.mp hi
      exact .inl (by simp)
  log := s.applyEvent_log (by
    rintro st seed rfl
    simp [AgentDomainEvent.keeps] at h)

theorem of_keeps {es : List AgentDomainEvent} (h : ∀ e ∈ es, e.keeps = true) : Delivers s es := by
  induction es generalizing s with
  | nil => exact .nil
  | cons e es ih =>
    exact (single (h e List.mem_cons_self)).append
      (ih fun e he => h e (List.mem_cons_of_mem _ he))

end Delivers

/-! ## What a turn's input shows -/

namespace Turn

/-- A turn that takes the whole queue, with answers or refusals for the questions asked. -/
structure Takes (t : Turn) (inbox : List Incoming) : Prop where
  consumed : t.consumed = inbox.map Incoming.id
  message : t.message = (drain inbox).message
  artifacts : t.artifacts = inbox.flatMap Incoming.artifacts
  reports : t.subagentResults = inbox.filterMap Incoming.report?

theorem takes_of_queued {inbox : List Incoming} {asks : List AskedQuestion} {turn : Turn}
    (h : queuedTurn inbox asks = some turn) : turn.Takes inbox := by
  rw [queuedTurn_eq_some h]
  exact ⟨rfl, rfl, rfl, rfl⟩

theorem takes_of_answered {inbox : List Incoming} {asks : List AskedQuestion}
    {answers : List AskAnswer} {turn : Turn} (h : answeredTurn inbox asks answers = .ok turn) :
    turn.Takes inbox ∧ turn.results = answers.map fun a => ⟨a.toolCallId, a.text, false, []⟩ := by
  rw [answeredTurn_eq_ok h]
  exact ⟨⟨rfl, rfl, rfl, rfl⟩, rfl⟩

variable {t : Turn} {inbox : List Incoming}

theorem message_text (u : UserMessageInput) (now : ℕ) :
    ((AgentInput.userMessage u).toMessage now).text = u.text := by
  have hrest : ((u.artifacts.map ContentPart.artifact) ++
      u.subagentResults.map ContentPart.subAgentResult).filterMap ContentPart.text? = [] := by
    refine List.filterMap_eq_nil_iff.mpr fun p hp => ?_
    rcases List.mem_append.mp hp with hp | hp
    · obtain ⟨a, -, rfl⟩ := List.mem_map.mp hp
      rfl
    · obtain ⟨r, -, rfl⟩ := List.mem_map.mp hp
      rfl
  unfold Message.text AgentInput.toMessage
  dsimp only
  rw [List.append_assoc, List.filterMap_append, hrest, List.append_nil]
  split_ifs with hempty
  · exact (String.isEmpty_iff.mp hempty).symm
  · simp [ContentPart.text?]

variable {item : Incoming}

theorem Takes.text (h : t.Takes inbox) (hi : item ∈ inbox) {x : String}
    (hx : item.text = some x) : ∃ msg, t.message = some msg ∧ Lib.Occurs x msg := by
  have hmem : x ∈ inbox.filterMap Incoming.text := List.mem_filterMap.mpr ⟨item, hi, hx⟩
  refine ⟨mergeSeparator.intercalate (inbox.filterMap Incoming.text), ?_,
    Lib.occurs_intercalate _ hmem⟩
  rw [h.message]
  exact if_pos (by simpa using List.ne_nil_of_mem hmem)

theorem Takes.report (h : t.Takes inbox) (hi : item ∈ inbox)
    {p : SubAgentResultPart} (hp : item.report? = some p) : p ∈ t.subagentResults :=
  h.reports ▸ List.mem_filterMap.mpr ⟨item, hi, hp⟩

theorem Takes.starts (h : t.Takes inbox) (hi : item ∈ inbox)
    (hc : item.hasContent = true) : t.startsAUserTurn = true := by
  rcases Bool.or_eq_true _ _ ▸ hc with hc | hc
  · obtain ⟨x, hx⟩ := Option.isSome_iff_exists.mp hc
    obtain ⟨msg, hmsg, -⟩ := h.text hi hx
    simp [startsAUserTurn, hmsg]
  · obtain ⟨p, hp⟩ := Option.isSome_iff_exists.mp hc
    have hne := List.ne_nil_of_mem (h.report hi hp)
    simp [startsAUserTurn, hne]

theorem not_summariseOnly (h : t.startsAUserTurn = true) : t.summariseOnly = false := by
  simp only [startsAUserTurn, Bool.or_eq_true, Bool.not_eq_true', List.isEmpty_eq_false_iff] at h
  rcases h with h | h
  · obtain ⟨msg, hmsg⟩ := Option.isSome_iff_exists.mp h
    simp [summariseOnly, hmsg]
  · simp [summariseOnly, h]

theorem Takes.carries (h : t.Takes inbox) (hi : item ∈ inbox)
    (hc : item.hasContent = true) (env : Env) :
    ∃ m ∈ t.inputMessages env, Carries m item := by
  have hstarts := h.starts hi hc
  refine ⟨(t.input env.messageId).toMessage env.now, ?_, ?_⟩
  · simp [inputMessages, not_summariseOnly hstarts]
  · rw [input, if_pos hstarts]
    refine ⟨rfl, fun x hx => ?_, fun a ha => ?_, fun p hp => ?_⟩
    · obtain ⟨msg, hmsg, hocc⟩ := h.text hi hx
      rw [message_text, hmsg]
      exact hocc
    · have : a ∈ t.artifacts := h.artifacts ▸ List.mem_flatMap.mpr ⟨item, hi, ha⟩
      simp [AgentInput.toMessage, this]
    · have := h.report hi hp
      simp [AgentInput.toMessage, this]

theorem result_shown (t : Turn) (env : Env) {r : ToolResultInput} (hr : r ∈ t.results) :
    ∃ m ∈ t.inputMessages env, m.role = .tool ∧ r.toPart ∈ m.parts := by
  have hne : t.results.isEmpty = false := List.isEmpty_eq_false_iff.mpr (List.ne_nil_of_mem hr)
  refine ⟨(AgentInput.toolResults t.results).toMessage env.now, ?_, rfl,
    List.mem_map.mpr ⟨r, hr, rfl⟩⟩
  cases hs : t.startsAUserTurn with
  | true => exact List.mem_append_left _ (by simp [recorded, hs, hne])
  | false => exact List.mem_append_right _ (by simp [summariseOnly, input, hs, hne])

end Turn

/-! ## A turn that begins -/

theorem inputs_logged (s : AgentState) {ms : List Message} :
    ∀ m ∈ ms, ∃ e ∈ (s.applyAll (ms.map .inputMessage)).log, e.body = .llm m := by
  induction ms generalizing s with
  | nil => exact fun m hm => absurd hm List.not_mem_nil
  | cons x ms ih =>
    intro m hm
    rcases List.mem_cons.mp hm with rfl | hm
    · have hlog : (s.applyEvent (.inputMessage m)).log <+:
          ((s.applyEvent (.inputMessage m)).applyAll (ms.map .inputMessage)).log :=
        AgentState.applyAll_log _ (by simp)
      exact ⟨_, hlog.subset (List.mem_append_right _ (List.mem_singleton_self _)), rfl⟩
    · exact ih _ m hm

namespace AgentActor

variable {a : AgentActor} {params : AgentParams} {env : Env} {s : AgentState} {turn : Turn}

theorem keeps_of_not_queues {e : AgentDomainEvent} (h : e.queues = false) : e.keeps = true := by
  cases e <;> first | rfl | simp [AgentDomainEvent.queues] at h

theorem startPrepared_keeps (a : AgentActor) (env : Env) (s : AgentState)
    (prepared : PreparedStart) :
    ∀ e ∈ (a.startPrepared env s prepared).events, e.keeps = true := by
  have hhooks : ∀ e ∈ hookEvents s prepared.records env.now, e.keeps = true := fun e he =>
    keeps_of_not_queues (hookEvents_not_queues s _ _ e he)
  intro e he
  unfold startPrepared at he
  cases hab : prepared.abandon with
  | some abandon =>
    simp only [hab] at he
    exact hhooks e he
  | none =>
    simp only [hab, Effect.after_events, List.append_assoc, List.mem_append] at he
    rcases he with he | he | he
    · exact hhooks e he
    · obtain ⟨m, -, rfl⟩ := List.mem_map.mp he
      rfl
    · cases he

theorem beginTurn_log (s : AgentState) (consumed answered : List String) (now : ℕ) :
    s.log <+: (s.applyEvent (.turnBegan consumed answered now)).log :=
  s.applyEvent_log (by simp)

/-- A turn delivers the queue it takes, unless it is handed to its start hooks with something to
say. -/
theorem beginTurn_delivers (ht : turn.Takes s.inbox)
    (hg : ∀ t ∈ (a.beginTurn env s turn).prepares, t.hasContent = false) :
    Delivers s (a.beginTurn env s turn).events := by
  by_cases hp : (a.beginTurn env s turn).prepares = []
  · have hlog : s.log <+: (s.applyAll (a.beginTurn env s turn).events).log := by
      refine s.applyAll_log fun e he => ?_
      rw [beginTurn_events_now hp] at he
      rcases List.mem_cons.mp he with rfl | he
      · simp
      · obtain ⟨m, -, rfl⟩ := List.mem_map.mp he
        simp
    refine ⟨fun item hi => ?_, hlog⟩
    have hi : s.Delivered item := hi.resolve_right fun ⟨t, h⟩ => by
      rw [beginTurn_events_now hp] at h
      simp at h
    refine hi.of_log hlog fun hmem => ?_
    cases hc : item.hasContent with
    | false => exact .inr (.inl hc)
    | true =>
      obtain ⟨m, hm, hcarries⟩ := ht.carries hmem hc env
      rw [beginTurn_events_now hp]
      obtain ⟨e, he, hbody⟩ := inputs_logged
        (s.applyEvent (.turnBegan turn.consumed turn.answered env.now)) m hm
      exact .inr (.inr ⟨e, he, m, hbody, hcarries⟩)
  · obtain ⟨hprep, hevents⟩ := beginTurn_prepares hp
    have hno : turn.hasContent = false := hg turn (by rw [hprep]; exact List.mem_singleton_self _)
    rw [hevents]
    refine ⟨fun item hi => ?_, beginTurn_log s _ _ _⟩
    have hi : s.Delivered item := hi.resolve_right fun ⟨t, h⟩ => by simp at h
    refine hi.of_log (beginTurn_log s _ _ _) fun hmem => .inr (.inl ?_)
    -- a turn with nothing to say took no item with content
    by_contra hc
    have hstarts := ht.starts hmem (by simpa using hc)
    simp only [Turn.hasContent, Bool.or_eq_false_iff] at hno
    rw [Turn.startsAUserTurn, hno.1.1, hno.1.2] at hstarts
    cases hstarts

/-- The answers a turn carries are in the log once it has begun, unless it is handed to its start
hooks. -/
theorem beginTurn_answers (hp : (a.beginTurn env s turn).prepares = []) {r : ToolResultInput}
    (hr : r ∈ turn.results) :
    ∃ e ∈ (s.applyAll (a.beginTurn env s turn).events).log, ∃ m, e.body = .llm m ∧
      m.role = .tool ∧ r.toPart ∈ m.parts := by
  obtain ⟨m, hm, hrole, hpart⟩ := turn.result_shown env hr
  rw [beginTurn_events_now hp]
  obtain ⟨e, he, hbody⟩ := inputs_logged
    (s.applyEvent (.turnBegan turn.consumed turn.answered env.now)) m hm
  exact ⟨e, he, m, hbody, hrole, hpart⟩

theorem tryDrain_delivers (hg : ∀ t ∈ (a.tryDrain env s).prepares, t.hasContent = false) :
    Delivers s (a.tryDrain env s).events := by
  rcases a.tryDrain_cases env s with ⟨h, -⟩ | ⟨turn, -, -, hq, h⟩
  · rw [h]
    exact .nil
  · rw [h] at hg ⊢
    exact beginTurn_delivers (Turn.takes_of_queued hq) hg

theorem thenDrain_delivers {es : List AgentDomainEvent} {o : List AgentOutcome}
    (hes : ∀ e ∈ es, e.keeps = true)
    (hg : ∀ t ∈ (a.thenDrain env s es o).prepares, t.hasContent = false) :
    Delivers s (a.thenDrain env s es o).events :=
  (Delivers.of_keeps hes).append (tryDrain_delivers hg)

/-! ## Every handler -/

theorem endedWithoutResult_delivers
    (hg : ∀ t ∈ (a.endedWithoutResult env s).prepares, t.hasContent = false) :
    Delivers s (a.endedWithoutResult env s).events := by
  unfold endedWithoutResult at hg ⊢
  dsimp only at hg ⊢
  split_ifs at hg ⊢ with hdrained hwork hspent hlast
  · rw [Effect.prepares, persistMaybeSnapshot_tasks] at hg
    rw [persistMaybeSnapshot_events]
    exact tryDrain_delivers hg
  · exact .of_keeps (by simp [park, andSnapshot, AgentDomainEvent.keeps])
  · exact .nil
  all_goals exact thenDrain_delivers (by simp [AgentDomainEvent.keeps]) hg

theorem completed_delivers (text : String)
    (hg : ∀ t ∈ (a.completed params env s text).prepares, t.hasContent = false) :
    Delivers s (a.completed params env s text).events := by
  unfold completed at hg ⊢
  dsimp only at hg ⊢
  split_ifs at hg ⊢ with hres hdrained hpark
  · exact endedWithoutResult_delivers hg
  · rw [Effect.prepares, persistMaybeSnapshot_tasks] at hg
    rw [persistMaybeSnapshot_events]
    exact tryDrain_delivers hg
  · exact .of_keeps (by simp [park, andSnapshot, AgentDomainEvent.keeps])
  · rw [Effect.prepares, persistMaybeSnapshot_tasks] at hg
    rw [persistMaybeSnapshot_events]
    exact tryDrain_delivers hg

theorem stopped_delivers (calls : List StoppedCall)
    (hg : ∀ t ∈ (a.stopped env s calls).prepares, t.hasContent = false) :
    Delivers s (a.stopped env s calls).events := by
  have hcontra : ∀ calls, ∀ e ∈ contradictionEvents calls env.now, e.keeps = true :=
    fun calls e he => keeps_of_not_queues (contradictionEvents_queues calls env.now e he)
  unfold stopped at hg ⊢
  cases hc : interpret calls with
  | output output =>
    simp only [hc] at hg ⊢
    rw [Effect.prepares, persistMaybeSnapshot_tasks] at hg
    rw [persistMaybeSnapshot_events]
    refine thenDrain_delivers (fun e he => ?_) hg
    split_ifs at he
    · cases he
    · rw [List.mem_singleton.mp he]
      rfl
  | ask asks =>
    simp only [hc] at hg ⊢
    exact thenDrain_delivers (o := [.asked asks]) (by simp [AgentDomainEvent.keeps]) hg
  | contradiction calls =>
    simp only [hc, correctContradiction] at hg ⊢
    split_ifs at hg ⊢
    · exact .of_keeps (hcontra _)
    · refine thenDrain_delivers (fun e he => ?_) hg
      rcases List.mem_append.mp he with he | he
      · exact hcontra _ e he
      · rw [List.mem_singleton.mp he]
        rfl

theorem cancelEvents_keeps (a : AgentActor) (env : Env) (s : AgentState) :
    ∀ e ∈ a.cancelEvents env s, e.keeps = true := by
  intro e he
  simp only [cancelEvents, List.mem_append, List.mem_map, List.mem_singleton] at he
  rcases he with (⟨m, -, rfl⟩ | ⟨m, -, rfl⟩) | rfl <;> rfl

theorem concludeRun_delivers (outcome : RunOutcome)
    (hg : ∀ t ∈ (a.concludeRun params env s outcome).prepares, t.hasContent = false) :
    Delivers s (a.concludeRun params env s outcome).events := by
  cases outcome with
  | completed text => exact completed_delivers text hg
  | stopped calls => exact stopped_delivers calls hg
  | cancelled =>
    exact thenDrain_delivers (o := [usageRecorded s]) (a.cancelEvents_keeps env s) hg
  | failed | alreadyReported => exact .nil

theorem handleQueue_delivers {c : QueueCommand}
    (hg : ∀ t ∈ (a.handleQueue env s c).prepares, t.hasContent = false) :
    Delivers s (a.handleQueue env s c).events := by
  cases c with
  | enqueue item ack => exact .single rfl
  | drain => exact tryDrain_delivers hg
  | answer answers =>
    simp only [handleQueue] at hg ⊢
    split_ifs at hg ⊢
    · exact .nil
    · cases hturn : answeredTurn s.inbox s.asks answers with
      | ok turn =>
        simp only [hturn] at hg ⊢
        exact beginTurn_delivers (Turn.takes_of_answered hturn).1 hg
      | error e => exact .nil
  | startPrepared prepared => exact .of_keeps (startPrepared_keeps _ env s prepared)

theorem handleTimer_delivers {c : TimerCommand}
    (hg : ∀ t ∈ (a.handleTimer env s c).prepares, t.hasContent = false) :
    Delivers s (a.handleTimer env s c).events := by
  cases c with
  | armTimer label message kind secs => exact .single rfl
  | listTimers => exact .nil
  | cancelTimer selector =>
    simp only [handleTimer]
    split_ifs
    · exact .nil
    · exact .single rfl
  | timerFired id =>
    simp only [handleTimer, handleTimerFired] at hg ⊢
    cases hfind : s.timers.find? (·.id = id) with
    | none => exact .nil
    | some record =>
      simp only [hfind] at hg ⊢
      refine thenDrain_delivers (by simp [AgentDomainEvent.keeps]) fun t ht => hg t ?_
      simp only [Effect.prepares, List.filterMap_append]
      exact List.mem_append_right _ ht

theorem handleLog_delivers {c : LogCommand}
    (hg : ∀ t ∈ (a.handleLog env s c).prepares, t.hasContent = false) :
    Delivers s (a.handleLog env s c).events := by
  cases c with
  | recordLifecycle event atMs =>
    simp only [handleLog] at hg ⊢
    split_ifs at hg ⊢
    · exact .single rfl
    · exact thenDrain_delivers (by simp [AgentDomainEvent.keeps]) hg
  | recordDelta text => exact .nil
  | hooksRan records =>
    exact .of_keeps fun e he => keeps_of_not_queues (hookEvents_not_queues s records _ e he)

/-- An agent seeded is one nothing has happened to: nothing is taken off its log. -/
theorem handleSeed_delivers (c : SeedCommand) : Delivers s (a.handleSeed env s c).events := by
  cases c with
  | snapshot atSeq => exact .nil
  | seedFrom seeded seed message =>
    simp only [handleSeed]
    split_ifs with hfresh
    · exact .nil
    · simp only [Bool.or_eq_true, Bool.not_eq_true', List.isEmpty_eq_false_iff, not_or,
        not_not] at hfresh
      refine ⟨fun item hi => ?_, by rw [hfresh.1]; exact List.nil_prefix⟩
      rcases hi with (hi | hi | ⟨e, he, -⟩) | ⟨t, hi⟩
      · exact absurd hi (by rw [hfresh.2]; exact List.not_mem_nil)
      · exact .inr (.inl hi)
      · exact absurd he (by rw [hfresh.1]; exact List.not_mem_nil)
      · simp only [List.mem_cons, reduceCtorEq, AgentDomainEvent.received.injEq, List.not_mem_nil,
          or_false, false_or] at hi
        obtain ⟨rfl, -⟩ := hi
        exact .inl (by simp)

theorem handleCommand_delivers {cmd : AgentCommand}
    (hplain : ∀ es, cmd = .run (.persistProgress es) → ∀ e ∈ es, e.queues = false)
    (hg : ∀ t ∈ (a.handleCommand params env s cmd).prepares, t.hasContent = false) :
    Delivers s (a.handleCommand params env s cmd).events := by
  cases cmd with
  | queue c => exact handleQueue_delivers hg
  | run c =>
    cases c with
    | cancel ack =>
      simp only [handleCommand, handleRun]
      split <;> exact .nil
    | persistProgress es => exact .of_keeps fun e he => keeps_of_not_queues (hplain es rfl e he)
    | runFinished report =>
      simp only [handleCommand, handleRun, handleFinished] at hg ⊢
      split_ifs at hg ⊢
      · exact concludeRun_delivers report.outcome hg
      · exact .nil
  | timer c => exact handleTimer_delivers hg
  | taskList action =>
    simp only [handleCommand, handleTaskList]
    split
    · exact .single rfl
    · exact .nil
  | read => exact .nil
  | log c => exact handleLog_delivers hg
  | seed c => exact handleSeed_delivers c
  | shutdown => exact .nil

theorem handleQueue_answer (a : AgentActor) (env : Env) (s : AgentState)
    (answers : List AskAnswer) :
    (a.handleQueue env s (.answer answers)).replies.any Reply.accepts = false ∨
      ∃ turn, answeredTurn s.inbox s.asks answers = .ok turn ∧
        a.handleQueue env s (.answer answers) =
          { a.beginTurn env s turn with replies := [.answer (.ok ())] } := by
  by_cases hb : a.busy = true
  · exact .inl (by simp [handleQueue, hb, Reply.accepts])
  · cases hturn : answeredTurn s.inbox s.asks answers with
    | ok turn => exact .inr ⟨turn, rfl, by simp [handleQueue, hb, hturn]⟩
    | error e => exact .inl (by simp [handleQueue, hb, hturn, Reply.accepts])

/-- The answers a handler acknowledged are in the log it leaves, unless their turn is handed to
its start hooks. -/
theorem acknowledgedBy_answered {cmd : AgentCommand}
    (hg : ∀ t ∈ (a.handleCommand params env s cmd).prepares, t.hasContent = false) :
    ∀ answer ∈ acknowledgedBy cmd (a.handleCommand params env s cmd),
      (s.applyAll (a.handleCommand params env s cmd).events).Answered answer := by
  match cmd with
  | .queue (.answer answers) =>
    intro answer hmem
    change ∀ t ∈ (a.handleQueue env s (.answer answers)).prepares, t.hasContent = false at hg
    change answer ∈
      if (a.handleQueue env s (.answer answers)).replies.any Reply.accepts then answers else []
      at hmem
    change (s.applyAll (a.handleQueue env s (.answer answers)).events).Answered answer
    rcases a.handleQueue_answer env s answers with hno | ⟨turn, hturn, he⟩
    · rw [hno] at hmem
      cases hmem
    · rw [he] at hg hmem ⊢
      have hmem : answer ∈ answers := hmem
      obtain ⟨-, hresults⟩ := Turn.takes_of_answered hturn
      have hr : (⟨answer.toolCallId, answer.text, false, []⟩ : ToolResultInput) ∈
          turn.results := by
        rw [hresults]
        exact List.mem_map.mpr ⟨answer, hmem, rfl⟩
      have hcontent : turn.hasContent = true := by
        simp [Turn.hasContent, List.ne_nil_of_mem hr]
      have hp : (a.beginTurn env s turn).prepares = [] := by
        by_contra hp
        have hturn : turn ∈ (a.beginTurn env s turn).prepares := by
          rw [(beginTurn_prepares hp).1]
          exact List.mem_singleton_self _
        exact absurd (hg turn hturn) (by simp [hcontent])
      exact beginTurn_answers hp hr
  | .queue (.enqueue _ _) | .queue .drain | .queue (.startPrepared _) | .run _ | .timer _
  | .taskList _ | .read | .log _ | .seed _ | .shutdown =>
    exact fun answer hmem => absurd hmem List.not_mem_nil

end AgentActor

/-! ## Every execution -/

namespace World

/-- Everything journaled as received is queued or shown by the log, and so are the answers of
every answer that was acknowledged. -/
structure Delivering (w : World) : Prop where
  received : ∀ item t, .received item t ∈ w.journal → w.state.Delivered item
  answered : ∀ answer ∈ w.acknowledged, w.state.Answered answer

/-- The steps that lose nothing: no handler hands a turn with something to say to its start hooks,
and no process dies having acknowledged an answer it has not written. -/
def Writes (params : AgentParams) (w : World) : Label → Prop
  | .handle env => ∀ mail ∈ w.mailbox.head?,
    ∀ turn ∈ (w.effect params env mail).prepares, turn.hasContent = false
  | .die env => ∀ mail ∈ w.mailbox.head?, acknowledgedBy mail.cmd (w.effect params env mail) = []
  | .load _ _ _ | .send _ | .emit _ _ | .finish _ | .prepared _ => True

instance (params : AgentParams) (w : World) : DecidablePred (w.Writes params)
  | .handle env => inferInstanceAs (Decidable (∀ mail ∈ w.mailbox.head?,
      ∀ turn ∈ (w.effect params env mail).prepares, turn.hasContent = false))
  | .die env => inferInstanceAs (Decidable (∀ mail ∈ w.mailbox.head?,
      acknowledgedBy mail.cmd (w.effect params env mail) = []))
  | .load _ _ _ | .send _ | .emit _ _ | .finish _ | .prepared _ =>
    inferInstanceAs (Decidable True)

end World

variable {params : AgentParams} {w w' : World}

theorem delivering_step (hw : (agentSystem params).Reachable w) (h : w.Delivering) {l : Label}
    (hg : w.Writes params l) (hs : World.Step params w l w') : w'.Delivering := by
  cases hs with
  | load | send | emit | finish | prepared => exact ⟨h.received, h.answered⟩
  | @handle env mail rest _ hm =>
    have hplain := plain_mailbox hw mail (hm ▸ List.mem_cons_self)
    have hg := hg mail (by rw [hm]; rfl)
    have hd : Delivers w.state (w.effect params env mail).events :=
      AgentActor.handleCommand_delivers hplain hg
    refine ⟨fun item t hmem => ?_, fun answer hmem => ?_⟩
    · refine hd.delivered item ?_
      rcases List.mem_append.mp hmem with hmem | hmem
      · exact .inl (h.received item t hmem)
      · exact .inr ⟨t, hmem⟩
    · rcases List.mem_append.mp hmem with hmem | hmem
      · exact (h.answered answer hmem).of_log hd.log
      · exact AgentActor.acknowledgedBy_answered hg answer hmem
  | @die env mail rest _ hm =>
    refine ⟨h.received, fun answer hmem => ?_⟩
    rcases List.mem_append.mp hmem with hmem | hmem
    · exact h.answered answer hmem
    · rw [hg mail (by rw [hm]; rfl)] at hmem
      cases hmem

/-- Along every execution whose steps hand no turn with something to say to its start hooks and
lose no acknowledged answer, every prefix of the journal delivers what it received and
acknowledged. -/
theorem no_message_lost (params : AgentParams) {tr : List (World × Label × World)} {w : World}
    (h : (agentSystem params).Exec World.boot tr w)
    (hg : ∀ x ∈ tr, x.1.Writes params x.2.1) : w.Delivering :=
  h.guarded (fun _ _ _ hw hd hg hs => delivering_step hw hd hg hs) reachable_boot
    ⟨fun _ _ hmem => absurd hmem List.not_mem_nil, fun _ hmem => absurd hmem List.not_mem_nil⟩ hg

/-! ## A message lost -/

/-- A message whose turn is handed to its start hooks, and the process dies before they are
done. -/
def lostLabels : List Label :=
  let env : Env := ⟨0, "m", "a", "t", true⟩
  [.load env true [.queue (.enqueue (.user "u0" "hello" []) false)], .handle env, .handle env,
    .load env true []]

def lostWorld : World := (World.boot.steps? ⟨false, true, false⟩ lostLabels).get (by decide)

/-- The message is neither queued nor in the log, and nothing is left that will bring it back. -/
theorem message_lost :
    (agentSystem ⟨false, true, false⟩).Reachable lostWorld ∧
      .received (.user "u0" "hello" []) 0 ∈ lostWorld.journal ∧
      lostWorld.prepares = [] ∧ lostWorld.mailbox = [] ∧
      ¬ lostWorld.state.Delivered (.user "u0" "hello" []) := by
  refine ⟨reachable_steps? _, .head _, rfl, rfl, ?_⟩
  have hinbox : lostWorld.state.inbox = [] := by decide
  have hlog : ∀ e ∈ lostWorld.state.log, e.body.isLlm = false := by decide
  rintro (h | h | ⟨e, he, m, hbody, -⟩)
  · simp [hinbox] at h
  · simp [Incoming.hasContent, Incoming.text] at h
  · have := hlog e he
    simp [hbody, AgentLogBody.isLlm] at this

/-- An agent without start hooks asks and is answered. -/
def answeredLabels : List Label :=
  let env : Env := ⟨0, "m", "a", "t", false⟩
  [.load env true [.queue (.enqueue (.user "u0" "hello" []) false)], .handle env, .handle env,
    .emit 0 (.messageComplete ⟨"q", .assistant, [.toolCall ⟨"ask", askUserTool, .null⟩], 0, none⟩),
    .handle env, .finish ⟨0, .stopped [⟨askUserTool, "ask", .null⟩], none⟩, .handle env,
    .send (.queue (.answer [⟨"ask", "yes"⟩])), .handle env]

def answeredWorld : World :=
  (World.boot.stepsIf? ⟨false, true, false⟩
    (fun w l => decide (w.Writes ⟨false, true, false⟩ l)) answeredLabels).get (by decide)

theorem no_message_lost_answered :
    answeredWorld.acknowledged = [⟨"ask", "yes"⟩] ∧ answeredWorld.Delivering := by
  obtain ⟨tr, hexec, -, hok⟩ := exec_stepsIf? (Option.some_get _).symm
  exact ⟨by decide, no_message_lost _ hexec fun x hx => of_decide_eq_true (hok x hx)⟩

end Horsie.Agent
