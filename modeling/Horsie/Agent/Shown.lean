import Horsie.Agent.Event
import Horsie.Agent.Repair

/-!
# What the log shows

Every message the log has ever shown, compacted away or not, is `AgentState.shown`; folding an
event appends what the event shows (`grows_applyEvent`). The prompt is a boundary message, if any,
before a suffix of it, so what holds of the whole holds of the prompt (`Tidy.prompt`).
-/

namespace Horsie.Agent

def AgentDomainEvent.shows : AgentDomainEvent → List Message
  | .inputMessage m | .messageComplete m | .messageAborted m => [m]
  | .toolComplete c => [c.message]
  | .hookRan record seq atMs => (translate (hookEntry record seq atMs)).toList
  | .seeded _ _ | .runComplete _ _ _ _ | .runAborted _ _ _ | .runCancelled _ | .timerArmed _ _
  | .timerCancelled _ _ | .timerFired _ _ _ | .parked _ | .nudged _ | .taskListChanged _ _
  | .lifecycleRecorded _ _ | .compacted _ | .received _ _ | .turnBegan _ _ _
  | .askRecorded _ _ => []

/-- Whether an event shows nothing and leaves the questions alone. -/
def AgentDomainEvent.silent : AgentDomainEvent → Bool
  | .runComplete _ _ _ _ | .runAborted _ _ _ | .runCancelled _ | .timerArmed _ _
  | .timerCancelled _ _ | .timerFired _ _ _ | .parked _ | .nudged _ | .taskListChanged _ _
  | .lifecycleRecorded _ _ | .compacted _ | .received _ _ => true
  | .seeded _ _ | .inputMessage _ | .messageComplete _ | .messageAborted _ | .toolComplete _
  | .hookRan _ _ _ | .turnBegan _ _ _ | .askRecorded _ _ => false

namespace AgentState

def shown (s : AgentState) : List Message := s.log.filterMap (·.body.shown?)

/-- The log is numbered in order, below the next number. -/
structure Ordered (s : AgentState) : Prop where
  increasing : s.log.Pairwise (·.seq < ·.seq)
  below : ∀ e ∈ s.log, e.seq < s.nextSeq

/-- `s'` holds the log of `s` and numbered entries after it that show `ms`. -/
def Grows (s s' : AgentState) (ms : List Message) : Prop :=
  ∃ es, s'.log = s.log ++ es ∧ es.map (·.seq) = List.range' s.nextSeq es.length ∧
    s'.nextSeq = s.nextSeq + es.length ∧ es.filterMap (·.body.shown?) = ms

variable {s s' s'' : AgentState} {ms ms' : List Message}

theorem Grows.of_eq (hl : s'.log = s.log) (hn : s'.nextSeq = s.nextSeq) : Grows s s' [] :=
  ⟨[], by simp [hl], rfl, by simp [hn], rfl⟩

theorem Grows.trans (h : Grows s s' ms) (h' : Grows s' s'' ms') : Grows s s'' (ms ++ ms') := by
  obtain ⟨es, hlog, hseq, hnext, hms⟩ := h
  obtain ⟨es', hlog', hseq', hnext', hms'⟩ := h'
  refine ⟨es ++ es', by rw [hlog', hlog, List.append_assoc], ?_, ?_, ?_⟩
  · rw [List.map_append, hseq, hseq', hnext, List.length_append, ← List.range'_append_1]
  · rw [hnext', hnext, List.length_append, Nat.add_assoc]
  · rw [List.filterMap_append, hms, hms']

theorem grows_push (s : AgentState) (t : ℕ) (b : AgentLogBody) :
    Grows s (s.push t b) b.shown?.toList := by
  refine ⟨[⟨s.nextSeq, t, b⟩], rfl, rfl, rfl, ?_⟩
  cases h : b.shown? <;> simp [h]

theorem Grows.shown (h : Grows s s' ms) : s'.shown = s.shown ++ ms := by
  obtain ⟨es, hlog, -, -, hms⟩ := h
  rw [AgentState.shown, hlog, List.filterMap_append, hms]
  rfl

theorem Grows.ordered (h : Grows s s' ms) (hs : s.Ordered) : s'.Ordered := by
  obtain ⟨es, hlog, hseq, hnext, -⟩ := h
  have hmem : ∀ e ∈ es, s.nextSeq ≤ e.seq ∧ e.seq < s.nextSeq + es.length := fun e he => by
    have : e.seq ∈ List.range' s.nextSeq es.length := hseq ▸ List.mem_map_of_mem he
    exact List.mem_range'_1.mp this
  have hpair : es.Pairwise (·.seq < ·.seq) := by
    have := List.pairwise_lt_range' (s := s.nextSeq) (n := es.length)
    rw [← hseq, List.pairwise_map] at this
    exact this
  refine ⟨?_, fun e he => ?_⟩
  · rw [hlog, List.pairwise_append]
    exact ⟨hs.increasing, hpair, fun a ha b hb =>
      lt_of_lt_of_le (hs.below a ha) (hmem b hb).1⟩
  · rw [hlog] at he
    rw [hnext]
    rcases List.mem_append.mp he with he | he
    · exact Nat.lt_add_right _ (hs.below e he)
    · exact (hmem e he).2

theorem grows_recordAsks (s : AgentState) (asks : List AskedQuestion) (atMs : ℕ) :
    Grows s (s.recordAsks asks atMs) [] := by
  have hfold : ∀ (asks : List AskedQuestion) (s : AgentState),
      Grows s (asks.foldl (fun s ask =>
        s.push atMs (.lifecycle (.askRecorded ask.toolCallId ask.question))) s) [] := by
    intro asks
    induction asks with
    | nil => exact fun s => .of_eq rfl rfl
    | cons ask asks ih => exact fun s => (s.grows_push atMs _).trans (ih _)
  exact (hfold asks s).trans (.of_eq rfl rfl)

/-- Folding an event appends what it shows; a seed alone replaces the log. -/
theorem grows_applyEvent (s : AgentState) {e : AgentDomainEvent}
    (h : ∀ st seed, e ≠ .seeded st seed) : Grows s (s.applyEvent e) e.shows := by
  have hpush : ∀ (r : AgentState) (t : ℕ) (b : AgentLogBody), r.log = s.log →
      r.nextSeq = s.nextSeq → Grows s (r.push t b) b.shown?.toList := fun r t b hl hn =>
    (Grows.of_eq hl hn).trans (r.grows_push t b)
  cases e with
  | seeded st seed => exact absurd rfl (h st seed)
  | timerFired id next => cases next <;> exact .of_eq rfl rfl
  | received item => cases item <;> first | exact .of_eq rfl rfl | exact hpush _ _ _ rfl rfl
  | askRecorded asks atMs => exact (Grows.of_eq rfl rfl).trans (grows_recordAsks _ asks atMs)
  | runComplete | runAborted | runCancelled | timerArmed | timerCancelled | parked | nudged =>
    exact .of_eq rfl rfl
  | inputMessage | messageComplete | messageAborted | toolComplete | hookRan | lifecycleRecorded
  | compacted => exact hpush _ _ _ rfl rfl
  | taskListChanged | turnBegan => exact (hpush _ _ _ rfl rfl).trans (.of_eq rfl rfl)

variable {es : List AgentDomainEvent}

theorem grows_applyAll (s : AgentState)
    (h : ∀ e ∈ es, ∀ st seed, e ≠ .seeded st seed) :
    Grows s (s.applyAll es) (es.flatMap (·.shows)) := by
  induction es generalizing s with
  | nil => exact .of_eq rfl rfl
  | cons e es ih =>
    exact (s.grows_applyEvent (h e List.mem_cons_self)).trans
      (ih _ fun e he => h e (List.mem_cons_of_mem _ he))

theorem applyAll_silent (s : AgentState)
    (h : ∀ e ∈ es, e.silent = true) :
    Grows s (s.applyAll es) [] ∧ (s.applyAll es).asks = s.asks := by
  induction es generalizing s with
  | nil => exact ⟨.of_eq rfl rfl, rfl⟩
  | cons e es ih =>
    have he : Grows s (s.applyEvent e) [] ∧ (s.applyEvent e).asks = s.asks := by
      have hs := h e List.mem_cons_self
      have hshows : e.shows = [] := by
        cases e <;> first | rfl | simp [AgentDomainEvent.silent] at hs
      refine ⟨hshows ▸ s.grows_applyEvent ?_, ?_⟩
      · rintro st seed rfl
        simp [AgentDomainEvent.silent] at hs
      · cases hq : e.queues with
        | false => exact (s.applyEvent_of_not_queues hq).2
        | true =>
          cases e with
          | received item t => exact applyEvent_received_asks s item t
          | _ => simp [AgentDomainEvent.silent, AgentDomainEvent.queues] at hs hq
    obtain ⟨hg, ha⟩ := ih (s.applyEvent e) fun e he => h e (List.mem_cons_of_mem _ he)
    exact ⟨he.1.trans hg, ha.trans he.2⟩

/-! ## The prompt -/

theorem filter_eq_dropWhile {l : List AgentLogEntry} (h : l.Pairwise (·.seq < ·.seq)) (n : ℕ) :
    l.filter (n ≤ ·.seq) = l.dropWhile (·.seq < n) := by
  induction l with
  | nil => rfl
  | cons e l ih =>
    obtain ⟨he, hl⟩ := List.pairwise_cons.mp h
    by_cases hn : n ≤ e.seq
    · have hall : ∀ x ∈ e :: l, decide (n ≤ x.seq) = true := by
        intro x hx
        rcases List.mem_cons.mp hx with rfl | hx
        · simpa using hn
        · simpa using hn.trans (he x hx).le
      rw [List.filter_eq_self.mpr hall, List.dropWhile_cons, if_neg (by simpa using hn)]
    · rw [List.filter_cons, if_neg (by simpa using hn), List.dropWhile_cons,
        if_pos (by simpa using hn), ih hl]

theorem boundaryMessage_inert (entry : CompactionEntry) (atMs : ℕ) :
    assistantCalls (boundaryMessage entry atMs) = [] ∧
      (boundaryMessage entry atMs).resultIds = [] := ⟨rfl, rfl⟩

theorem promptMessages_split (h : s.Ordered) :
    ∃ p q, s.shown = p ++ q ∧
      (s.promptMessages = q ∨
        ∃ entry atMs, s.promptMessages = boundaryMessage entry atMs :: q) := by
  set n := (s.lastBoundary.map (·.2.retainedFromSeq)).getD 0 with hn
  refine ⟨(s.log.takeWhile (·.seq < n)).filterMap (·.body.shown?),
    (s.log.dropWhile (·.seq < n)).filterMap (·.body.shown?), ?_, ?_⟩
  · rw [← List.filterMap_append, List.takeWhile_append_dropWhile]
    rfl
  · have hprompt : s.promptMessages =
        (s.lastBoundary.map fun b => boundaryMessage b.2 b.1).toList ++
          (s.log.dropWhile (·.seq < n)).filterMap (·.body.shown?) := by
      rw [← filter_eq_dropWhile h.increasing n]
      rfl
    rw [hprompt]
    cases s.lastBoundary with
    | none => exact .inl rfl
    | some b => exact .inr ⟨b.2, b.1, rfl⟩

/-! ## Tidy states -/

/-- The log is numbered, every tool result it shows is where it belongs, and the calls `pledged`
may still be answered at its end. -/
structure Tidy (s : AgentState) (pledged : List String) : Prop where
  ordered : s.Ordered
  sound : toolExchange.Sound s.shown
  fits : toolExchange.Fits s.shown pledged

instance (s : AgentState) : Decidable s.Ordered :=
  decidable_of_iff (s.log.Pairwise (·.seq < ·.seq) ∧ ∀ e ∈ s.log, e.seq < s.nextSeq)
    ⟨fun h => ⟨h.1, h.2⟩, fun h => ⟨h.increasing, h.below⟩⟩

instance (s : AgentState) (pledged : List String) : Decidable (s.Tidy pledged) :=
  decidable_of_iff (s.Ordered ∧ toolExchange.Sound s.shown ∧ toolExchange.Fits s.shown pledged)
    ⟨fun h => ⟨h.1, h.2.1, h.2.2⟩, fun h => ⟨h.ordered, h.sound, h.fits⟩⟩

variable {pledged as : List String}

theorem Tidy.subperm (h : s.Tidy pledged) (hs : as.Subperm pledged) : s.Tidy as :=
  ⟨h.ordered, h.sound, h.fits.subperm hs⟩

theorem Tidy.grow (h : s.Tidy pledged) (hg : Grows s s' ms)
    (hs : toolExchange.Sound (s.shown ++ ms)) (hf : toolExchange.Fits (s.shown ++ ms) as) :
    s'.Tidy as :=
  ⟨hg.ordered h.ordered, hg.shown ▸ hs, hg.shown ▸ hf⟩

theorem Tidy.still (h : s.Tidy pledged) (hg : Grows s s' []) : s'.Tidy pledged :=
  h.grow hg (by simpa using h.sound) (by simpa using h.fits)

theorem Tidy.replies (h : s.Tidy (answeredIds ms ++ pledged)) (hg : Grows s s' ms)
    (hm : ∀ m ∈ ms, m.role = .tool) : s'.Tidy pledged := by
  have hlist : ∀ (ms : List Message) (l : List Message), (∀ m ∈ ms, m.role = .tool) →
      toolExchange.Sound l → toolExchange.Fits l (answeredIds ms ++ pledged) →
      toolExchange.Sound (l ++ ms) ∧ toolExchange.Fits (l ++ ms) pledged := by
    intro ms
    induction ms with
    | nil => exact fun l _ hs hf => ⟨by simpa using hs, by simpa [answeredIds] using hf⟩
    | cons m ms ih =>
      intro l hm hs hf
      have hreply : toolExchange.reply m = true := decide_eq_true (hm m List.mem_cons_self)
      have hf : toolExchange.Fits l (toolExchange.answers m ++ (answeredIds ms ++ pledged)) := by
        simpa [answeredIds, toolExchange] using hf
      have hrest := ih (l ++ [m]) (fun x hx => hm x (List.mem_cons_of_mem _ hx))
        (hs.snoc_reply hreply (hf.subperm (List.sublist_append_left _ _).subperm))
        (hf.snoc_reply hreply)
      simpa using hrest
  obtain ⟨hs, hf⟩ := hlist ms s.shown hm h.sound h.fits
  exact h.grow hg hs hf

/-- A message that is no reply may be journaled if its calls are new; they are what may be
answered next. -/
theorem Tidy.asker (h : s.Tidy pledged) {m : Message} (hg : Grows s s' [m]) (hr : m.role ≠ .tool)
    (ha : m.resultIds = []) (hnd : (assistantCalls m).Nodup)
    (hnew : ∀ c ∈ assistantCalls m, c ∉ toolExchange.allCalls s.shown)
    (hans : ∀ c ∈ assistantCalls m, c ∉ answeredIds s.shown) : s'.Tidy (assistantCalls m) := by
  refine h.grow hg (h.sound.snoc_asker ha hnd hnew hans)
    ⟨hnd, fun c hc hmem => ?_, fun c hc _ => ?_⟩
  · rw [Lib.Exchange.allAnswers_append] at hmem
    have hnil : toolExchange.allAnswers [m] = [] := by
      simpa [Lib.Exchange.allAnswers, toolExchange] using ha
    rw [hnil, List.append_nil] at hmem
    exact hans c hc hmem
  · rw [Lib.Exchange.tailCalls_concat (by simpa [toolExchange] using hr)]
    exact hc

/-- Messages that neither call nor answer may be journaled while no pledged call is in the log. -/
theorem Tidy.inert (h : s.Tidy pledged) (hg : Grows s s' ms)
    (hm : ∀ m ∈ ms, assistantCalls m = [] ∧ m.resultIds = [])
    (hp : ms ≠ [] → ∀ c ∈ pledged, c ∉ toolExchange.allCalls s.shown) : s'.Tidy pledged := by
  cases ms with
  | nil => exact h.still hg
  | cons k ks =>
    have hcalls : toolExchange.allCalls (k :: ks) = [] :=
      List.flatMap_eq_nil_iff.mpr fun m hmem => (hm m hmem).1
    have hanswers : toolExchange.allAnswers (k :: ks) = [] :=
      List.flatMap_eq_nil_iff.mpr fun m hmem => (hm m hmem).2
    have hsound : ∀ (ms : List Message) (l : List Message),
        (∀ m ∈ ms, assistantCalls m = [] ∧ m.resultIds = []) → toolExchange.Sound l →
        toolExchange.Sound (l ++ ms) := by
      intro ms
      induction ms with
      | nil => exact fun l _ hs => by simpa using hs
      | cons m ms ih =>
        intro l hm hs
        obtain ⟨hc, ha⟩ := hm m List.mem_cons_self
        have hc : toolExchange.calls m = [] := hc
        have := ih (l ++ [m]) (fun x hx => hm x (List.mem_cons_of_mem _ hx))
          (hs.snoc_asker ha (by simp [hc]) (by simp [hc]) (by simp [hc]))
        simpa using this
    refine h.grow hg (hsound _ _ hm h.sound)
      ⟨h.fits.nodup, fun c hc hmem => ?_, fun c hc hmem => ?_⟩
    · rw [Lib.Exchange.allAnswers_append, hanswers, List.append_nil] at hmem
      exact h.fits.open_ c hc hmem
    · rw [Lib.Exchange.allCalls_append, hcalls, List.append_nil] at hmem
      exact absurd hmem (hp (by simp) c hc)

theorem Tidy.prompt (h : s.Tidy pledged) :
    toolExchange.Sound s.promptMessages ∧ toolExchange.Fits s.promptMessages pledged := by
  obtain ⟨p, q, hpq, hprompt⟩ := promptMessages_split h.ordered
  have hs := h.sound
  have hf := h.fits
  rw [hpq] at hs hf
  have hsq := hs.suffix
  have hfq := hf.suffix hs.nodup
  rcases hprompt with hprompt | ⟨entry, atMs, hprompt⟩
  · rw [hprompt]
    exact ⟨hsq, hfq⟩
  · obtain ⟨hc, ha⟩ := boundaryMessage_inert entry atMs
    rw [hprompt]
    exact ⟨hsq.cons hc ha, hfq.cons hc ha⟩

/-! ## Where the prompt starts -/

/-- The log is numbered, and no boundary retains from later than itself. -/
structure Windowed (s : AgentState) : Prop where
  ordered : s.Ordered
  window : ∀ e ∈ s.log, ∀ c ∈ e.body.compaction?, c.retainedFromSeq ≤ e.seq

theorem Windowed.of_eq (h : s.Windowed) (hl : s'.log = s.log) (hn : s'.nextSeq = s.nextSeq) :
    s'.Windowed :=
  ⟨(Grows.of_eq hl hn).ordered h.ordered, hl ▸ h.window⟩

theorem Windowed.push (h : s.Windowed) (t : ℕ) {b : AgentLogBody}
    (hb : ∀ c ∈ b.compaction?, c.retainedFromSeq ≤ s.nextSeq) : (s.push t b).Windowed := by
  refine ⟨(s.grows_push t b).ordered h.ordered, fun e he => ?_⟩
  rcases List.mem_append.mp he with he | he
  · exact h.window e he
  · rw [List.mem_singleton.mp he]
    exact hb

theorem resolveBoundary_le (h : s.Ordered) (id : Option String) :
    (s.resolveBoundary id).2 ≤ s.nextSeq := by
  have hseq : ∀ i : ℕ, (s.log[i]?.map (·.seq)).getD 0 ≤ s.nextSeq := fun i => by
    cases hi : s.log[i]? with
    | none => exact Nat.zero_le _
    | some e => exact (h.below e (List.mem_of_getElem? hi)).le
  unfold resolveBoundary
  split
  · exact le_rfl
  · dsimp only
    split
    · exact le_rfl
    · split
      · exact hseq 0
      · exact hseq _

theorem windowed_recordAsks (h : s.Windowed) (asks : List AskedQuestion) (atMs : ℕ) :
    (s.recordAsks asks atMs).Windowed ∧ (s.recordAsks asks atMs).lastBoundary = s.lastBoundary := by
  have hfold : ∀ (asks : List AskedQuestion) (s : AgentState), s.Windowed →
      (asks.foldl (fun s ask =>
        s.push atMs (.lifecycle (.askRecorded ask.toolCallId ask.question))) s).Windowed ∧
      (asks.foldl (fun s ask =>
        s.push atMs (.lifecycle (.askRecorded ask.toolCallId ask.question))) s).lastBoundary =
          s.lastBoundary := by
    intro asks
    induction asks with
    | nil => exact fun s h => ⟨h, rfl⟩
    | cons ask asks ih =>
      intro s h
      obtain ⟨hw, hb⟩ := ih _ (h.push atMs
        (b := .lifecycle (.askRecorded ask.toolCallId ask.question)) fun c hc => by cases hc)
      exact ⟨hw, hb.trans (by simp [lastBoundary, AgentLogBody.compaction?])⟩
  obtain ⟨hw, hb⟩ := hfold asks s h
  exact ⟨hw.of_eq rfl rfl, hb⟩

theorem windowed_applyEvent (h : s.Windowed) {e : AgentDomainEvent}
    (he : ∀ st seed, e ≠ .seeded st seed) : (s.applyEvent e).Windowed ∧
      ((∀ f, e ≠ .compacted f) → (s.applyEvent e).lastBoundary = s.lastBoundary) := by
  have hpush : ∀ (r : AgentState) (t : ℕ) (b : AgentLogBody), r.log = s.log →
      r.nextSeq = s.nextSeq → b.compaction? = none →
      (r.push t b).Windowed ∧ (r.push t b).lastBoundary = s.lastBoundary := by
    intro r t b hl hn hb
    refine ⟨(h.of_eq hl hn).push t (by simp [hb]), ?_⟩
    simp [lastBoundary, hl, hb]
  have hsame : ∀ r : AgentState, r.log = s.log → r.nextSeq = s.nextSeq →
      r.Windowed ∧ r.lastBoundary = s.lastBoundary := fun r hl hn =>
    ⟨h.of_eq hl hn, by rw [lastBoundary, hl]; rfl⟩
  have hquiet : ∀ r : AgentState, r.Windowed ∧ r.lastBoundary = s.lastBoundary →
      r.Windowed ∧ ((∀ f, e ≠ .compacted f) → r.lastBoundary = s.lastBoundary) :=
    fun r hr => ⟨hr.1, fun _ => hr.2⟩
  cases e with
  | seeded st seed => exact absurd rfl (he st seed)
  | compacted f =>
    refine ⟨?_, fun hf => absurd rfl (hf f)⟩
    refine Windowed.push (s := { s with efficiency := _, contextTokens := f.tokensAfter })
      (h.of_eq rfl rfl) _ fun c hc => ?_
    cases hc
    exact resolveBoundary_le h.ordered _
  | timerFired id next => cases next <;> exact hquiet _ (hsame _ rfl rfl)
  | received item t =>
    cases item with
    | user id text =>
      have hp := hpush { s with efficiency := s.efficiency } t (.lifecycle (.messageQueued id text))
        rfl rfl rfl
      exact hquiet _ ⟨hp.1.of_eq rfl rfl, hp.2⟩
    | subAgent | timer | continue_ | compact | subSession => exact hquiet _ (hsame _ rfl rfl)
  | askRecorded asks atMs => exact hquiet _ (windowed_recordAsks (h.of_eq rfl rfl) asks atMs)
  | runComplete | runAborted | runCancelled | timerArmed | timerCancelled | parked | nudged =>
    exact hquiet _ (hsame _ rfl rfl)
  | inputMessage | messageComplete | messageAborted | toolComplete | hookRan | lifecycleRecorded =>
    exact hquiet _ (hpush _ _ _ rfl rfl rfl)
  | taskListChanged snapshot t =>
    obtain ⟨hw, hb⟩ := hpush { s with efficiency := s.efficiency } t
      (.lifecycle (.taskList snapshot.tasks)) rfl rfl rfl
    exact hquiet _ ⟨hw.of_eq rfl rfl, hb⟩
  | turnBegan consumed answered t =>
    have hp := hpush { s with efficiency := s.efficiency } t (.lifecycle (.turnBegan
      ((s.inbox.filter fun i => i.isUser && decide (i.id ∈ consumed)).map Incoming.id) answered))
      rfl rfl rfl
    exact hquiet _ ⟨hp.1.of_eq rfl rfl, hp.2⟩

/-- While nothing is seeded or compacted, the prompt grows by what the events show. -/
theorem promptMessages_applyAll (h : s.Windowed)
    (hs : ∀ e ∈ es, ∀ st seed, e ≠ .seeded st seed) (hc : ∀ e ∈ es, ∀ f, e ≠ .compacted f) :
    (s.applyAll es).promptMessages = s.promptMessages ++ es.flatMap (·.shows) ∧
      (s.applyAll es).Windowed := by
  have hkeep : (s.applyAll es).Windowed ∧ (s.applyAll es).lastBoundary = s.lastBoundary := by
    induction es generalizing s with
    | nil => exact ⟨h, rfl⟩
    | cons e es ih =>
      obtain ⟨hw, hb⟩ := windowed_applyEvent h (hs e List.mem_cons_self)
      obtain ⟨hw', hb'⟩ := ih hw (fun x hx => hs x (List.mem_cons_of_mem _ hx))
        fun x hx => hc x (List.mem_cons_of_mem _ hx)
      exact ⟨hw', hb'.trans (hb (hc e List.mem_cons_self))⟩
  obtain ⟨ls, hlog, hseq, -, hms⟩ := s.grows_applyAll hs
  refine ⟨?_, hkeep.1⟩
  set n := (s.lastBoundary.map (·.2.retainedFromSeq)).getD 0 with hn
  have hle : n ≤ s.nextSeq := by
    cases hb : s.lastBoundary with
    | none => simp [hn, hb]
    | some b =>
      obtain ⟨e, he, hcb⟩ := List.exists_of_findSome?_eq_some hb
      obtain ⟨c, hce, rfl⟩ := Option.map_eq_some_iff.mp hcb
      have hmem := List.mem_reverse.mp he
      simpa [hn, hb] using (h.window e hmem c hce).trans (h.ordered.below e hmem).le
  have hall : ls.filter (n ≤ ·.seq) = ls := by
    refine List.filter_eq_self.mpr fun e he => ?_
    have : e.seq ∈ List.range' s.nextSeq ls.length := hseq ▸ List.mem_map_of_mem he
    simpa using hle.trans (List.mem_range'_1.mp this).1
  rw [promptMessages, hkeep.2, hlog, List.filter_append, List.filterMap_append, ← hn, hall, hms,
    ← List.append_assoc]
  rfl

/-- The states journals fold to. What seeds an agent is a snapshot of another one. -/
inductive Recorded : AgentState → Prop
  | initial : Recorded .initial
  | event {s : AgentState} {e : AgentDomainEvent} (h : Recorded s)
      (he : ∀ st seed, e ≠ .seeded st seed) : Recorded (s.applyEvent e)
  | seeded {s t : AgentState} (h : Recorded s) (ht : Recorded t) (atSeq : ℕ)
      (seed : Option Message) : Recorded (s.applyEvent (.seeded (t.snapshotAt atSeq) seed))

theorem Windowed.snapshotAt (h : s.Windowed) (atSeq : ℕ) : (s.snapshotAt atSeq).Windowed := by
  refine ⟨⟨h.ordered.increasing.filter _, fun e he => ?_⟩, fun e he =>
    h.window e (List.mem_of_mem_filter he)⟩
  have hlt : e.seq < atSeq := by simpa using List.of_mem_filter he
  exact hlt

theorem Recorded.windowed (h : s.Recorded) : s.Windowed := by
  induction h with
  | initial => exact ⟨⟨.nil, fun _ he => absurd he List.not_mem_nil⟩,
      fun _ he => absurd he List.not_mem_nil⟩
  | event _ he ih => exact (windowed_applyEvent ih he).1
  | seeded _ _ atSeq seed _ ih =>
    cases seed with
    | none => exact ih.snapshotAt atSeq
    | some m => exact (ih.snapshotAt atSeq).push _ fun c hc => by cases hc

end AgentState

end Horsie.Agent
