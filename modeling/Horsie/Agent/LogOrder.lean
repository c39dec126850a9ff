import Horsie.Agent.Shown
import Horsie.Agent.SingleRun
import Horsie.Agent.Writes

/-!
# The numbering of the log

Every entry carries its place in the log as its number, and every hook entry its place among the
hook entries as its id. A hook record is journaled with the number of hook entries it finds, and a
seed, a snapshot of another agent's log up to some place, is adopted only by an agent whose log is
empty; so both numberings survive a seed (`log_numbered`). What an agent of this process journals
is such a journal (`journal_written`).
-/

namespace Horsie.Agent

def AgentLogBody.hook? : AgentLogBody → Option HookEntry
  | .hook h => some h
  | .llm _ | .lifecycle _ | .compaction _ => none

def AgentDomainEvent.hooks : AgentDomainEvent → List HookEntry
  | .hookRan record seq atMs => [hookEntry record seq atMs]
  | .seeded _ _ | .inputMessage _ | .messageComplete _ | .messageAborted _ | .toolComplete _
  | .runComplete _ _ _ _ | .runAborted _ _ _ | .runCancelled _ | .timerArmed _ _
  | .timerCancelled _ _ | .timerFired _ _ _ | .parked _ | .nudged _ | .taskListChanged _ _
  | .lifecycleRecorded _ _ | .compacted _ | .received _ _ | .turnBegan _ _ _
  | .askRecorded _ _ => []

theorem hookEntryId_injective : Function.Injective hookEntryId := by
  intro i j h
  have hij : (toString i).toList = (toString j).toList :=
    congrArg String.toList ((String.append_right_inj "hook:").mp h)
  rw [Nat.toString_eq_repr, Nat.toString_eq_repr, Nat.toList_repr, Nat.toList_repr] at hij
  have hval := congrArg (Nat.ofDigitChars 10 · 0) hij
  simpa only [Nat.ofDigitChars_ten_toDigits] using hval

namespace AgentState

def hooks (s : AgentState) : List HookEntry := s.log.filterMap (·.body.hook?)

/-- The log and its hook entries are numbered by place. -/
structure Numbered (s : AgentState) : Prop where
  seqs : s.log.map (·.seq) = List.range s.nextSeq
  ids : s.hooks.map (·.id) = (List.range s.hooks.length).map hookEntryId

variable {s s' : AgentState}

theorem hookEntryCount_eq (s : AgentState) : s.hookEntryCount = s.hooks.length := by
  rw [hookEntryCount, hooks, List.length_filterMap_eq_countP]
  congr 1
  funext e
  cases e.body <;> rfl

theorem Numbered.length (h : s.Numbered) : s.log.length = s.nextSeq := by
  rw [← List.length_map (·.seq), h.seqs, List.length_range]

/-! ## What an event appends -/

theorem hooks_of_log (h : s'.log = s.log) : s'.hooks = s.hooks := by
  rw [hooks, h, hooks]

theorem hooks_push (s : AgentState) (t : ℕ) (b : AgentLogBody) :
    (s.push t b).hooks = s.hooks ++ b.hook?.toList := by
  cases h : b.hook? <;> simp [hooks, h]

theorem hooks_recordAsks (s : AgentState) (asks : List AskedQuestion) (atMs : ℕ) :
    (s.recordAsks asks atMs).hooks = s.hooks := by
  have hfold : ∀ (asks : List AskedQuestion) (s : AgentState), (asks.foldl (fun s ask =>
      s.push atMs (.lifecycle (.askRecorded ask.toolCallId ask.question))) s).hooks = s.hooks := by
    intro asks
    induction asks with
    | nil => exact fun _ => rfl
    | cons ask asks ih => exact fun s => (ih _).trans (by simp [hooks_push, AgentLogBody.hook?])
  exact (hooks_of_log rfl).trans (hfold asks s)

theorem hooks_applyEvent (s : AgentState) {e : AgentDomainEvent}
    (h : ∀ st seed, e ≠ .seeded st seed) : (s.applyEvent e).hooks = s.hooks ++ e.hooks := by
  have hpush : ∀ (r : AgentState) (t : ℕ) (b : AgentLogBody), r.log = s.log → b.hook? = none →
      (r.push t b).hooks = s.hooks ++ [] := fun r t b hl hb => by
    rw [hooks_push, hooks_of_log hl, hb]
    rfl
  have hsame : ∀ r : AgentState, r.log = s.log → r.hooks = s.hooks ++ [] := fun r hl => by
    rw [hooks_of_log hl, List.append_nil]
  cases e with
  | seeded st seed => exact absurd rfl (h st seed)
  | hookRan record seq atMs => exact hooks_push _ _ _
  | timerFired id next => cases next <;> exact hsame _ rfl
  | received item => cases item <;> first | exact hsame _ rfl | exact hpush s _ _ rfl rfl
  | askRecorded asks atMs => exact (hooks_recordAsks _ asks atMs).trans (hsame _ rfl)
  | runComplete | runAborted | runCancelled | timerArmed | timerCancelled | parked | nudged =>
    exact hsame _ rfl
  | inputMessage | messageComplete | messageAborted | toolComplete | lifecycleRecorded | compacted
  | taskListChanged | turnBegan => exact hpush s _ _ rfl rfl

theorem Numbered.event (h : s.Numbered) {e : AgentDomainEvent}
    (hs : ∀ st seed, e ≠ .seeded st seed)
    (he : ∀ record seq atMs, e = .hookRan record seq atMs → seq = s.hookEntryCount) :
    (s.applyEvent e).Numbered ∧ s.nextSeq ≤ (s.applyEvent e).nextSeq := by
  obtain ⟨es, hlog, hseq, hnext, -⟩ := s.grows_applyEvent hs
  refine ⟨⟨?_, ?_⟩, by omega⟩
  · have happ := List.range'_append_1 (s := 0) (m := s.nextSeq) (n := es.length)
    rw [Nat.zero_add] at happ
    rw [hlog, List.map_append, h.seqs, hseq, hnext, List.range_eq_range', List.range_eq_range',
      happ]
  · rw [s.hooks_applyEvent hs]
    cases e with
    | hookRan record seq atMs =>
      rw [he record seq atMs rfl, hookEntryCount_eq]
      simp [AgentDomainEvent.hooks, hookEntry, h.ids, List.range_succ]
    | _ => simpa [AgentDomainEvent.hooks] using h.ids

/-! ## What a seed carries -/

theorem filter_lt_eq_take {l : List AgentLogEntry} {a m : ℕ}
    (h : l.map (·.seq) = List.range' a m) (n : ℕ) :
    l.filter (·.seq < n) = l.take (n - a) := by
  induction l generalizing a m with
  | nil => simp
  | cons e l ih =>
    obtain _ | m := m
    · simp at h
    · obtain ⟨he, hl⟩ :=
        List.cons.inj ((List.map_cons ..).symm.trans (h.trans (List.range'_succ ..)))
      by_cases hn : e.seq < n
      · have hk : n - a = (n - (a + 1)) + 1 := by omega
        rw [List.filter_cons, if_pos (by simpa using hn), ih hl, hk, List.take_succ_cons]
      · have hk : n - (a + 1) = 0 := by omega
        rw [List.filter_cons, if_neg (by simpa using hn), ih hl, hk, show n - a = 0 by omega]
        rfl

theorem Numbered.snapshotAt_log (h : s.Numbered) (atSeq : ℕ) :
    (s.snapshotAt atSeq).log = s.log.take atSeq := by
  have hseqs := h.seqs
  rw [List.range_eq_range'] at hseqs
  exact filter_lt_eq_take hseqs atSeq

theorem Numbered.snapshotAt (h : s.Numbered) {atSeq : ℕ} (hat : atSeq ≤ s.nextSeq) :
    (s.snapshotAt atSeq).Numbered := by
  have hpre : (s.snapshotAt atSeq).hooks <+: s.hooks := by
    rw [hooks, h.snapshotAt_log]
    exact List.IsPrefix.filterMap _ <| List.take_prefix _ _
  obtain ⟨rest, hrest⟩ := hpre
  have hlen : (s.snapshotAt atSeq).hooks.length ≤ s.hooks.length := by
    rw [← hrest, List.length_append]
    omega
  refine ⟨?_, ?_⟩
  · rw [h.snapshotAt_log, List.map_take, h.seqs, List.take_range, min_eq_left hat]
    rfl
  · have hids := congrArg (List.take (s.snapshotAt atSeq).hooks.length) h.ids
    rw [← List.map_take, ← List.map_take, List.take_range, min_eq_left hlen, ← hrest,
      List.take_left] at hids
    exact hids

theorem Numbered.pushMessage (h : s.Numbered) (m : Message) : (s.pushMessage m).Numbered := by
  refine ⟨?_, ?_⟩
  · simp [AgentState.pushMessage, h.seqs, List.range_succ]
  · rw [AgentState.pushMessage, hooks_push]
    simpa [AgentLogBody.hook?] using h.ids

theorem Numbered.seeded (h : s.Numbered) {t : AgentState} {atSeq : ℕ} (ht : t.Numbered)
    (hat : atSeq ≤ t.nextSeq) (hempty : s.log = []) (seed : Option Message) :
    (s.applyEvent (.seeded (t.snapshotAt atSeq) seed)).Numbered ∧
      s.nextSeq ≤ (s.applyEvent (.seeded (t.snapshotAt atSeq) seed)).nextSeq := by
  have hzero : s.nextSeq = 0 := by
    rw [← h.length, hempty]
    rfl
  refine ⟨?_, hzero ▸ Nat.zero_le _⟩
  cases seed with
  | none => exact ht.snapshotAt hat
  | some m => exact (ht.snapshotAt hat).pushMessage m

end AgentState

/-! ## Journals -/

/-- What an agent journals: a hook record with the number of hook entries it finds, and as a seed
only a snapshot within another journal's log, before anything is in its own. -/
inductive Journaled : List AgentDomainEvent → Prop
  | nil : Journaled []
  | event {es : List AgentDomainEvent} {e : AgentDomainEvent} (h : Journaled es)
      (hs : ∀ st seed, e ≠ .seeded st seed)
      (he : ∀ record seq atMs, e = .hookRan record seq atMs →
        seq = (AgentState.initial.applyAll es).hookEntryCount) : Journaled (es ++ [e])
  | seeded {es fs : List AgentDomainEvent} (h : Journaled es) (hf : Journaled fs) {atSeq : ℕ}
      (hat : atSeq ≤ (AgentState.initial.applyAll fs).nextSeq)
      (hempty : (AgentState.initial.applyAll es).log = []) (seed : Option Message) :
      Journaled (es ++ [.seeded ((AgentState.initial.applyAll fs).snapshotAt atSeq) seed])

/-- Nothing in flight and nothing billed. -/
structure AgentState.Bare (s : AgentState) : Prop where
  asks : s.asks = []
  inbox : s.inbox = []
  timers : s.timers = []
  parked : s.parked = false
  nudges : s.nudges = 0
  turnInFlight : s.turnInFlight = false
  usageTotal : s.usageTotal = .zero
  lastTurnUsage : s.lastTurnUsage = none
  efficiency : s.efficiency = .zero

theorem AgentState.bare_snapshotAt (s : AgentState) (atSeq : ℕ) : (s.snapshotAt atSeq).Bare :=
  ⟨rfl, rfl, rfl, rfl, rfl, rfl, rfl, rfl, rfl⟩

theorem AgentState.Bare.seeded {t : AgentState} (h : t.Bare) (s : AgentState)
    (seed : Option Message) : (s.applyEvent (.seeded t seed)).Bare := by
  cases seed with
  | none => exact h
  | some m =>
    exact ⟨h.asks, h.inbox, h.timers, h.parked, h.nudges, h.turnInFlight, h.usageTotal,
      h.lastTurnUsage, h.efficiency⟩

namespace Journaled

variable {es : List AgentDomainEvent}

theorem applyAll_snoc (es : List AgentDomainEvent) (e : AgentDomainEvent) :
    AgentState.initial.applyAll (es ++ [e]) = (AgentState.initial.applyAll es).applyEvent e := by
  rw [AgentState.applyAll_append]
  rfl

theorem numbered (h : Journaled es) : (AgentState.initial.applyAll es).Numbered := by
  induction h with
  | nil => exact ⟨rfl, rfl⟩
  | event h hs he ih => exact applyAll_snoc _ _ ▸ (ih.event hs he).1
  | seeded h hf hat hempty seed ih ihf =>
    exact applyAll_snoc _ _ ▸ (ih.seeded ihf hat hempty seed).1

variable {fs : List AgentDomainEvent}

theorem cut (h : Journaled es) (hp : fs <+: es) : Journaled fs := by
  induction h with
  | nil => rw [List.prefix_nil.mp hp]; exact .nil
  | event h hs he ih =>
    rcases List.prefix_concat_iff.mp hp with rfl | hp
    · exact .event h hs he
    · exact ih hp
  | seeded h hf hat hempty seed ih =>
    rcases List.prefix_concat_iff.mp hp with rfl | hp
    · exact .seeded h hf hat hempty seed
    · exact ih hp

theorem nextSeq_mono (h : Journaled es) (hp : fs <+: es) :
    (AgentState.initial.applyAll fs).nextSeq ≤ (AgentState.initial.applyAll es).nextSeq := by
  induction h with
  | nil => rw [List.prefix_nil.mp hp]
  | event h hs he ih =>
    rcases List.prefix_concat_iff.mp hp with rfl | hp
    · exact le_rfl
    · exact (ih hp).trans (applyAll_snoc _ _ ▸ (h.numbered.event hs he).2)
  | seeded h hf hat hempty seed ih =>
    rcases List.prefix_concat_iff.mp hp with rfl | hp
    · exact le_rfl
    · exact (ih hp).trans
        (applyAll_snoc _ _ ▸ (h.numbered.seeded hf.numbered hat hempty seed).2)

theorem bare {st : AgentState} {seed : Option Message}
    (h : Journaled es) (hp : fs ++ [.seeded st seed] <+: es) :
    (AgentState.initial.applyAll (fs ++ [.seeded st seed])).Bare := by
  have hfs := h.cut hp
  generalize hgs : fs ++ [AgentDomainEvent.seeded st seed] = gs at hfs
  cases hfs with
  | nil => simp at hgs
  | event _ hs =>
    obtain ⟨-, he⟩ := List.append_inj' hgs rfl
    exact absurd (List.singleton_inj.mp he).symm (hs st seed)
  | seeded _ hf hat hempty seed =>
    rw [applyAll_snoc]
    exact (AgentState.bare_snapshotAt _ _).seeded _ _

end Journaled

/-- The log of every journal: consecutive numbers from the first entry on, below the next one,
which never decreases; hook entries with ids of their own; and no seed brings anything that was in
flight or billed. -/
theorem log_numbered {es : List AgentDomainEvent} (h : Journaled es) :
    (AgentState.initial.applyAll es).log.Pairwise (·.seq < ·.seq) ∧
    (∀ i e first, (AgentState.initial.applyAll es).log[i]? = some e →
      (AgentState.initial.applyAll es).log.head? = some first → e.seq = first.seq + i) ∧
    (∀ e ∈ (AgentState.initial.applyAll es).log,
      e.seq < (AgentState.initial.applyAll es).nextSeq) ∧
    (∀ fs, fs <+: es →
      (AgentState.initial.applyAll fs).nextSeq ≤ (AgentState.initial.applyAll es).nextSeq) ∧
    ((AgentState.initial.applyAll es).hooks.map (·.id)).Nodup ∧
    ∀ fs st seed, fs ++ [.seeded st seed] <+: es →
      (AgentState.initial.applyAll (fs ++ [.seeded st seed])).Bare := by
  have hn := h.numbered
  set s := AgentState.initial.applyAll es
  have hseq : ∀ (i : ℕ) (e : AgentLogEntry), s.log[i]? = some e → e.seq = i := fun i e hi => by
    have hmap : (s.log.map (·.seq))[i]? = some e.seq := by simp [hi]
    rw [hn.seqs] at hmap
    obtain ⟨hlt, hval⟩ := List.getElem?_eq_some_iff.mp hmap
    exact hval.symm.trans (List.getElem_range hlt)
  refine ⟨?_, fun i e first hi hfirst => ?_, fun e he => ?_, fun fs hp => h.nextSeq_mono hp, ?_,
    fun fs st seed hp => h.bare hp⟩
  · have hpair : (s.log.map (·.seq)).Pairwise (· < ·) := hn.seqs ▸ List.pairwise_lt_range
    exact List.pairwise_map.mp hpair
  · rw [List.head?_eq_getElem?] at hfirst
    rw [hseq i e hi, hseq 0 first hfirst, Nat.zero_add]
  · have hmem : e.seq ∈ s.log.map (·.seq) := List.mem_map_of_mem he
    rw [hn.seqs] at hmem
    exact List.mem_range.mp hmem
  · rw [hn.ids]
    exact List.nodup_range.map hookEntryId_injective

/-- A log of one hook record, seeded with the snapshot it yields before it. -/
theorem log_numbered_seeded :
    ((AgentState.initial.applyAll [.seeded ((AgentState.initial.applyAll
      [.hookRan ⟨"p", 0, none, .stop (.ran none)⟩ 0 7]).snapshotAt 1) none,
      .hookRan ⟨"p", 0, none, .stop (.ran none)⟩ 1 8]).hooks.map (·.id)).Nodup :=
  (log_numbered (.event (.seeded .nil
    (.event .nil (by simp) (by rintro _ _ _ ⟨⟩; rfl)) (by decide) rfl none) (by simp)
    (by rintro _ _ _ ⟨⟩; decide))).2.2.2.2.1

/-- Two hook records journaled with one number share their id, and a seed adopted behind a log
lowers the next number. -/
theorem unchecked_events_collide :
    ¬ ((AgentState.initial.applyAll [.hookRan ⟨"p", 0, none, .stop (.ran none)⟩ 0 7,
      .hookRan ⟨"p", 0, none, .stop (.ran none)⟩ 0 8]).hooks.map (·.id)).Nodup ∧
    (AgentState.initial.applyAll [.runCancelled 7, .lifecycleRecorded (.turnEnded .ended) 8,
      .seeded (AgentState.initial.snapshotAt 0) none]).nextSeq <
      (AgentState.initial.applyAll
        [.runCancelled 7, .lifecycleRecorded (.turnEnded .ended) 8]).nextSeq := by
  decide

/-! ## What an agent journals -/

/-- An event that is neither a hook record nor a seed. -/
def AgentDomainEvent.plain : AgentDomainEvent → Bool
  | .seeded _ _ | .hookRan _ _ _ => false
  | .inputMessage _ | .messageComplete _ | .messageAborted _ | .toolComplete _
  | .runComplete _ _ _ _ | .runAborted _ _ _ | .runCancelled _ | .timerArmed _ _
  | .timerCancelled _ _ | .timerFired _ _ _ | .parked _ | .nudged _ | .taskListChanged _ _
  | .lifecycleRecorded _ _ | .compacted _ | .received _ _ | .turnBegan _ _ _
  | .askRecorded _ _ => true

theorem AgentDomainEvent.plain_of_own {e : AgentDomainEvent} (h : e.own = true) :
    e.plain = true := by
  cases e <;> first | rfl | cases h

namespace Journaled

variable {es fs : List AgentDomainEvent}

theorem append_plain (h : Journaled es) (hp : ∀ e ∈ fs, e.plain = true) : Journaled (es ++ fs) := by
  induction fs generalizing es with
  | nil => rwa [List.append_nil]
  | cons e fs ih =>
    have he := hp e List.mem_cons_self
    rw [List.append_cons]
    refine ih (h.event ?_ ?_) fun x hx => hp x (List.mem_cons_of_mem _ hx)
    · rintro st seed rfl
      cases he
    · rintro record seq atMs rfl
      cases he

theorem append_hooks (h : Journaled es) (records : List HookRecord) (now : ℕ) :
    Journaled (es ++ hookEvents (AgentState.initial.applyAll es) records now) := by
  have hall : Journaled (es ++ hookEvents (AgentState.initial.applyAll es) records now) ∧
      (AgentState.initial.applyAll
        (es ++ hookEvents (AgentState.initial.applyAll es) records now)).hookEntryCount =
        (AgentState.initial.applyAll es).hookEntryCount + records.length := by
    induction records using List.reverseRecOn with
    | nil => simpa [hookEvents] using h
    | append_singleton records r ih =>
      obtain ⟨hw, hcount⟩ := ih
      have hsnoc : hookEvents (AgentState.initial.applyAll es) (records ++ [r]) now =
          hookEvents (AgentState.initial.applyAll es) records now ++
            [.hookRan r
              ((AgentState.initial.applyAll es).hookEntryCount + records.length) now] := by
        simp [hookEvents, List.mapIdx_append]
      rw [hsnoc, ← List.append_assoc]
      constructor
      · refine hw.event (by simp) ?_
        rintro record seq atMs ⟨⟩
        exact hcount.symm
      · rw [applyAll_snoc, AgentState.hookEntryCount_eq,
          AgentState.hooks_applyEvent _ (by simp), List.length_append,
          ← AgentState.hookEntryCount_eq, hcount, List.length_append]
        rfl
  exact hall.1

end Journaled

/-- A seed is a snapshot within another journal's log. -/
def AgentCommand.SeedsWritten : AgentCommand → Prop
  | .seed (.seedFrom st _ _) => ∃ fs atSeq, Journaled fs ∧
      atSeq ≤ (AgentState.initial.applyAll fs).nextSeq ∧
      st = (AgentState.initial.applyAll fs).snapshotAt atSeq
  | .queue _ | .run _ | .timer _ | .taskList _ | .read | .log _ | .seed (.snapshot _)
  | .shutdown => True

/-- Every seed a step sends is a snapshot within another journal's log. -/
def World.SeedsWritten (_ : World) : Label → Prop
  | .load _ _ queued => ∀ c ∈ queued, c.SeedsWritten
  | .send c => c.SeedsWritten
  | .emit _ _ | .finish _ | .prepared _ | .handle _ | .die _ => True

def snapshotSystem (params : AgentParams) : Lib.System World Label :=
  (agentSystem params).restrict World.SeedsWritten

/-- What a handler journals in the state `s`: hook records, each with the number of hook entries it
finds, and plain events behind them; or, into an empty log, a seed. -/
inductive Journals (env : Env) (s : AgentState) (cmd : AgentCommand)
    (es : List AgentDomainEvent) : Prop
  | plain (records : List HookRecord) (ps : List AgentDomainEvent)
      (hp : ∀ x ∈ ps, x.plain = true) (he : es = hookEvents s records env.now ++ ps)
  | seed (st : AgentState) (seed : Option Message) (m : Incoming)
      (hc : cmd = .seed (.seedFrom st seed m)) (hlog : s.log = [])
      (he : es = [.seeded st seed, .received m env.now])

theorem AgentActor.handleCommand_journals (a : AgentActor) (params : AgentParams) (env : Env)
    (s : AgentState) {mail : Mail} (hm : Mailed mail) :
    Journals env s mail.cmd (a.handleCommand params env s mail.cmd).events := by
  have hwrites := a.handleCommand_writes params env s mail.cmd
  generalize (a.handleCommand params env s mail.cmd).events = es at hwrites ⊢
  have hplain : ∀ {rest : List AgentDomainEvent}, (∀ x ∈ rest, x.own = true) →
      ∀ x ∈ rest, x.plain = true := fun h x hx => AgentDomainEvent.plain_of_own (h x hx)
  cases hwrites with
  | own h => exact .plain [] es (hplain h) rfl
  | asked report asks rest hc hrun he hrest =>
    exact .plain [] _ (List.forall_mem_cons.mpr ⟨rfl, hplain hrest⟩) he
  | recorded event atMs rest hc he hrest =>
    exact .plain [] _ (List.forall_mem_cons.mpr ⟨rfl, hplain hrest⟩) he
  | hooks records ms he =>
    refine .plain records (ms.map .inputMessage) (fun x hx => ?_) he
    obtain ⟨m, -, rfl⟩ := List.mem_map.mp hx
    rfl
  | progress hc =>
    refine .plain [] es (fun x hx => ?_) rfl
    rcases hm.progress_events hc with ⟨ms, rfl⟩ | ⟨e, pending, pending', rfl, hemits⟩
    · obtain ⟨m, -, rfl⟩ := List.mem_map.mp hx
      rfl
    · rw [List.mem_singleton.mp hx]
      cases e <;> first | rfl | cases hemits
  | seeded st seed m hc hlog hin he => exact .seed st seed m hc hlog he

theorem Journaled.journals {es fs : List AgentDomainEvent} (h : Journaled es) {env : Env}
    {cmd : AgentCommand} (hj : Journals env (AgentState.initial.applyAll es) cmd fs)
    (hs : cmd.SeedsWritten) : Journaled (es ++ fs) := by
  cases hj with
  | plain records ps hp he =>
    rw [he, ← List.append_assoc]
    exact (h.append_hooks records env.now).append_plain hp
  | seed st seed m hc hlog he =>
    rw [hc] at hs
    obtain ⟨gs, atSeq, hgs, hat, rfl⟩ := hs
    rw [he, List.append_cons]
    exact (Journaled.seeded h hgs hat hlog seed).append_plain (by simp [AgentDomainEvent.plain])

section

variable {params : AgentParams} {w : World}

theorem state_eq_journal (hw : (agentSystem params).Reachable w) :
    w.state = AgentState.initial.applyAll w.journal := by
  refine hw.invariant (I := fun w => w.state = AgentState.initial.applyAll w.journal)
    (fun s hs => ?_) fun s l t _ h hs => ?_
  · rw [show s = World.boot from hs]
    rfl
  · cases hs with
    | handle =>
      simp only [World.perform, AgentState.applyAll_append]
      rw [h]
    | load | send | emit | finish | prepared | die => exact h

theorem journal_written (hw : (snapshotSystem params).Reachable w) : Journaled w.journal := by
  have hinv : Journaled w.journal ∧ ∀ m ∈ w.mailbox, m.cmd.SeedsWritten := by
    refine hw.invariant (I := fun w => Journaled w.journal ∧ ∀ m ∈ w.mailbox, m.cmd.SeedsWritten)
      (fun s hs => ?_) fun s l t hr h hs => ?_
    · rw [show s = World.boot from hs]
      exact ⟨.nil, fun m hm => absurd hm List.not_mem_nil⟩
    · obtain ⟨hstep, hseeds⟩ := hs
      have hr := hr.unrestrict
      have hsnoc : ∀ {mail : Mail}, mail.cmd.SeedsWritten →
          ∀ m ∈ s.mailbox ++ [mail], m.cmd.SeedsWritten := by
        intro mail hmail m hm
        rcases List.mem_append.mp hm with hm | hm
        · exact h.2 m hm
        · rwa [List.mem_singleton.mp hm]
      cases hstep with
      | load hq =>
        refine ⟨h.1, fun m hm => ?_⟩
        rcases List.mem_append.mp hm with hm | hm
        · obtain ⟨c, hc, rfl⟩ := List.mem_map.mp hm
          exact hseeds c hc
        · obtain ⟨c, hc, rfl⟩ := List.mem_map.mp hm
          rw [AgentActor.onRecoveryComplete_tells _ _ _ _ c hc]
          trivial
      | send => exact ⟨h.1, hsnoc hseeds⟩
      | emit | finish | prepared => exact ⟨h.1, hsnoc trivial⟩
      | @handle env mail rest _ hm =>
        have hmem : mail ∈ s.mailbox := hm ▸ List.mem_cons_self
        refine ⟨?_, fun m hmem => ?_⟩
        · have hj := s.actor.handleCommand_journals params env s.state (mailed hr mail hmem)
          rw [state_eq_journal hr] at hj
          have hw := h.1.journals hj (h.2 mail hmem)
          rw [← state_eq_journal hr] at hw
          exact hw
        · rcases List.mem_append.mp hmem with hmem | hmem
          · exact h.2 m (hm ▸ List.mem_cons_of_mem _ hmem)
          · obtain ⟨c, hc, rfl⟩ := List.mem_map.mp hmem
            rw [((fence hr).launch params env hm).modest c hc]
            trivial
      | die => exact ⟨h.1, fun m hm => absurd hm List.not_mem_nil⟩
  exact hinv.1

end

end Horsie.Agent
