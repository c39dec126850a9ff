import Horsie.Db.Fence

/-!
# Recovery

A reader recovers `pid`: it reads the latest snapshot, replays the events after it page by page,
and appends at the last number it has seen, while other writers append, save snapshots and delete
what their snapshots cover. The fence compares the last number only. A deletion between the
reader's two reads takes events from under it, and a later event gives it the number the fence
asks for.
-/

namespace Horsie.Db

open Horsie.Lib

variable {P S : Type*}

/-- The events an admitted append adds to the log of `pid`. -/
def Write.gained (w : Write P S) (t : Tables P S) (pid : PersistenceId) : List (JournalEvent P) :=
  match w with
  | .persist pid' events expected fresh =>
    match (t.persist pid' events expected fresh).2 with
    | .ok () => if pid' = pid then insertRows expected events else []
    | .error _ => []
  | .saveSnapshot .. | .deleteEventsBefore .. | .copySnapshot .. | .clear _ => []

inductive Reader (P S : Type*)
  | idle
  | located (found : Option ℕ)
  | loaded (snapshot : Option (S × ℕ))
  /-- It replays the events after `start`. -/
  | replaying (start : ℕ) (page : Page P) (got : List (JournalEvent P))
  | recovered (start : ℕ) (got : List (JournalEvent P))

/-- The number the recovered state ends at. -/
def lastSeen (start : ℕ) (got : List (JournalEvent P)) : ℕ := (got.getLast?.map (·.seq)).getD start

/-- A reader of `pid` and all that was ever appended to its log. -/
structure Recovery (P S : Type*) where
  tables : Tables P S
  persisted : List (JournalEvent P)
  reader : Reader P S

/-- What happens: a step of some writer, or one of the reader's statements. -/
inductive RecoveryAct (P S : Type*)
  | write (w : Write P S)
  | locate
  | load
  | replay
  | poll
  | persist (events : List P) (fresh : ℕ)

variable (pid : PersistenceId)

inductive Recovery.Step : Recovery P S → RecoveryAct P S → Recovery P S → Prop
  | write {r : Recovery P S} {w : Write P S} {t : Tables P S} (hw : w.resets = false)
      (h : (journal P S).Step r.tables w t) :
      Step r (.write w)
        { r with tables := t, persisted := r.persisted ++ w.gained r.tables pid }
  | locate {r : Recovery P S} (hr : r.reader = .idle) :
      Step r .locate { r with reader := .located (r.tables.logId pid) }
  | load {r : Recovery P S} {found : Option ℕ} (hr : r.reader = .located found) :
      Step r .load { r with reader := .loaded (r.tables.latestSnapshot found) }
  | replay {r : Recovery P S} {snapshot : Option (S × ℕ)} (hr : r.reader = .loaded snapshot) :
      Step r .replay { r with
        reader := .replaying (snapshot.elim 0 (·.2))
          (Db.replay (r.tables.logId pid) (snapshot.elim 0 (·.2))) [] }
  | got {r : Recovery P S} {start : ℕ} {page page' : Page P} {got : List (JournalEvent P)}
      {event : JournalEvent P} (hr : r.reader = .replaying start page got)
      (h : page.next r.tables = (some event, page')) :
      Step r .poll { r with reader := .replaying start page' (got ++ [event]) }
  | ended {r : Recovery P S} {start : ℕ} {page page' : Page P} {got : List (JournalEvent P)}
      (hr : r.reader = .replaying start page got) (h : page.next r.tables = (none, page')) :
      Step r .poll { r with reader := .recovered start got }
  | persist {r : Recovery P S} {start : ℕ} {got : List (JournalEvent P)} {events : List P}
      {fresh : ℕ} {t : Tables P S} (hr : r.reader = .recovered start got)
      (h : (journal P S).Step r.tables (.persist pid events (lastSeen start got) fresh) t) :
      Step r (.persist events fresh)
        { tables := t
          persisted := r.persisted ++
            (Write.persist pid events (lastSeen start got) fresh).gained r.tables pid
          reader := .idle }

/-- One reader after another of `pid`, among writers that neither copy nor clear. -/
def recovery : System (Recovery P S) (RecoveryAct P S) where
  Init r := r.tables = .empty ∧ r.persisted = [] ∧ r.reader = .idle
  Step := Recovery.Step pid

/-- The reader's snapshot and the events it was given omit one that was appended before the last
it has seen. -/
def Recovery.Gap (r : Recovery P S) (start : ℕ) (got : List (JournalEvent P)) : Prop :=
  ∃ e ∈ r.persisted, start < e.seq ∧ e.seq < lastSeen start got ∧ e ∉ got

/-- A step at which a reader with a gap is not admitted. -/
def RecoveryAct.Fenced (r : Recovery P S) (a : RecoveryAct P S) : Prop :=
  ∀ start got events fresh, r.reader = .recovered start got → a = .persist events fresh →
    r.Gap start got → events ≠ [] →
      ∃ e, (r.tables.persist pid events (lastSeen start got) fresh).2 = .error e

/-- The reader fetches a page that is empty or begins with the event after its cursor: no event it
still needs was deleted while a later one was there. -/
def RecoveryAct.NoHole (r : Recovery P S) (a : RecoveryAct P S) : Prop :=
  ∀ start page got, r.reader = .replaying start page got → a = .poll → page.buffer = [] →
    page.exhausted = false → (∃ e ∈ r.tables.events page.logId, page.cursor < e.seq) →
      ∃ e ∈ r.tables.events page.logId, e.seq = page.cursor + 1

variable {pid}

/-! ## What the writers do to one log -/

namespace Tables

variable {t : Tables P S} {w : Write P S}

theorem surviving_eq {log : JournalLog} (h : t.logs pid = some log) :
    t.surviving pid = t.events log.logId := by
  rw [surviving, h]
  rfl

theorem Opens.surviving_eq {fresh : ℕ} {log : JournalLog} (hwf : t.WellFormed)
    (hfresh : t.Unused fresh) (h : t.Opens pid fresh log) :
    t.surviving pid = t.events log.logId := by
  rcases h with h | ⟨h, rfl⟩
  · exact Tables.surviving_eq h
  · rw [hwf.orphan _ hfresh, surviving, h]
    rfl

section

variable {pid' : PersistenceId} {fresh lastSeq : ℕ} {log : JournalLog}
  {events : List (JournalEvent P)} {snapshots : ℕ → Option (S × ℕ)}

theorem surviving_write (hwf : t.WellFormed) (hfresh : t.Unused fresh)
    (hlog : t.Opens pid' fresh log) :
    Tables.surviving ⟨Function.update t.logs pid' (some ⟨log.logId, lastSeq⟩),
      Function.update t.events log.logId events, snapshots⟩ pid =
        if pid = pid' then events else t.surviving pid := by
  split_ifs with hpid
  · subst hpid
    simp only [surviving, Function.update_self, Option.elim_some]
  · simp only [surviving, Function.update_of_ne hpid]
    cases h : t.logs pid with
    | none => rfl
    | some log' =>
      have hne : log'.logId ≠ log.logId := fun hid => hpid (hwf.owner hfresh hlog h hid)
      simp only [Option.elim_some, Function.update_of_ne hne]

theorem lastSeq_write (evs : ℕ → List (JournalEvent P)) : Tables.lastSeq
    ⟨Function.update t.logs pid' (some ⟨log.logId, lastSeq⟩), evs, snapshots⟩ pid =
      if pid = pid' then lastSeq else t.lastSeq pid := by
  split_ifs with hpid
  · subst hpid
    simp only [Tables.lastSeq, Function.update_self, Option.elim_some]
  · simp only [Tables.lastSeq, Function.update_of_ne hpid]

end

/-- The log of `pid` gained the events `gained` under the next numbers, and nothing else is new. -/
structure Extends (t t' : Tables P S) (pid : PersistenceId) (gained : List (JournalEvent P)) :
    Prop where
  lastSeq : t'.lastSeq pid = t.lastSeq pid + gained.length
  seqs : gained.map (·.seq) = List.range' (t.lastSeq pid + 1) gained.length
  surviving : ∀ e ∈ t'.surviving pid, e ∈ t.surviving pid ∨ e ∈ gained

theorem Extends.nothing {t' : Tables P S} (hlast : t'.lastSeq pid = t.lastSeq pid)
    (hsub : ∀ e ∈ t'.surviving pid, e ∈ t.surviving pid) : Extends t t' pid [] :=
  ⟨hlast, rfl, fun e he => .inl (hsub e he)⟩

theorem Extends.refl (t : Tables P S) (pid : PersistenceId) : Extends t t pid [] :=
  .nothing rfl fun _ he => he

/-- What a write does to the log of one actor. -/
theorem extends_run (hwf : t.WellFormed) (hw : w.resets = false)
    (hfresh : ∀ fresh, w.fresh? = some fresh → t.Unused fresh) (pid : PersistenceId) :
    Extends t (w.run t) pid (w.gained t pid) := by
  cases w with
  | persist pid' events expected fresh =>
    replace hfresh : t.Unused fresh := hfresh _ rfl
    unfold Write.run Write.gained
    simp only [insertRows_eq]
    rcases t.persist_cases pid' events expected fresh with
      ⟨rfl, hres⟩ | ⟨-, e, hres⟩ | ⟨log, hlog, rfl, hres⟩
    · simp only [hres]
      have hnil : (if pid' = pid then number expected ([] : List P) else []) = [] := ite_self _
      rw [hnil]
      exact .refl t pid
    · simp only [hres]
      exact .refl t pid
    · simp only [hres]
      by_cases hpid : pid' = pid
      · subst hpid
        rw [if_pos rfl]
        refine ⟨?_, ?_, ?_⟩
        · rw [lastSeq_write, if_pos rfl, hlog.lastSeq_eq, length_number]
        · rw [hlog.lastSeq_eq, map_seq_number, length_number]
        · rw [surviving_write hwf hfresh hlog, if_pos rfl, hlog.surviving_eq hwf hfresh]
          exact fun e he => List.mem_append.mp he
      · rw [if_neg hpid]
        refine .nothing ?_ ?_
        · rw [lastSeq_write, if_neg (Ne.symm hpid)]
        · rw [surviving_write hwf hfresh hlog, if_neg (Ne.symm hpid)]
          exact fun e he => he
  | saveSnapshot pid' state seqNr fresh =>
    replace hfresh : t.Unused fresh := hfresh _ rfl
    unfold Write.run Write.gained
    rcases t.saveSnapshot_cases pid' state seqNr fresh with hres | ⟨log, hlog, rfl, hres⟩
    · simp only [hres]
      exact .refl t pid
    · simp only [hres]
      refine .nothing ?_ ?_
      · rw [lastSeq_write]
        split_ifs with hpid
        · rw [hpid, hlog.lastSeq_eq]
        · rfl
      · rw [surviving_write hwf hfresh hlog]
        split_ifs with hpid
        · rw [hpid, hlog.surviving_eq hwf hfresh]
          exact fun e he => he
        · exact fun e he => he
  | deleteEventsBefore found seqNr =>
    refine .nothing ?_ ?_
    · cases found <;> rfl
    · cases found with
      | none => exact fun e he => he
      | some logId =>
        intro e he
        obtain ⟨log, hlog, he⟩ := mem_surviving he
        replace hlog : t.logs pid = some log := hlog
        rw [surviving_eq hlog]
        have he' : e ∈ Function.update t.events logId
            ((t.events logId).filter (seqNr < ·.seq)) log.logId := he
        by_cases hid : log.logId = logId
        · rw [hid, Function.update_self] at he'
          rw [hid]
          exact List.mem_of_mem_filter he'
        · rwa [Function.update_of_ne hid] at he'
  | copySnapshot => cases hw
  | clear => cases hw

end Tables

/-! ## A reader without a gap -/

theorem take_range' (s n k : ℕ) : (List.range' s n).take k = List.range' s (min k n) := by
  rcases Nat.le_total n k with h | h
  · rw [List.take_range'_of_length_le h, min_eq_right h]
  · rw [List.take_range'_of_length_ge h, min_eq_left h]

theorem Contiguous.map_seq_page {events : List (JournalEvent P)} {lastSeq cursor : ℕ} (limit : ℕ)
    (h : Contiguous events lastSeq)
    (hnext : (∃ e ∈ events, cursor < e.seq) → ∃ e ∈ events, e.seq = cursor + 1) :
    (page JournalEvent.seq events cursor limit).map (·.seq) =
      List.range' (cursor + 1) (page JournalEvent.seq events cursor limit).length := by
  by_cases habove : ∃ e ∈ events, cursor < e.seq
  · obtain ⟨e, he, heq⟩ := hnext habove
    have hsorted := h.strictlySorted
    obtain ⟨first, -, hseq⟩ := h
    have hmem : e.seq ∈ events.map (·.seq) := List.mem_map_of_mem he
    rw [hseq, heq, List.mem_range'_1] at hmem
    have hrows : (above JournalEvent.seq events cursor).map (·.seq) =
        List.range' (cursor + 1) (events.length - (cursor + 1 - (first + 1))) := by
      have hfilter : (events.filter (cursor < ·.seq)).map (·.seq) =
          (events.map (·.seq)).filter (cursor < ·) := by
        rw [List.filter_map]
        rfl
      rw [above_of_sorted (hsorted.imp Nat.le_of_lt), hfilter, hseq, filter_lt_range']
      congr 1
      omega
    have hlen := congrArg List.length hrows
    rw [List.length_map, List.length_range'] at hlen
    rw [page, List.map_take, hrows, List.length_take, hlen, take_range']
  · have hnil : page JournalEvent.seq events cursor limit = [] := by
      rw [List.eq_nil_iff_forall_not_mem]
      intro e he
      exact habove ⟨e, mem_of_mem_page he⟩
    rw [hnil]
    rfl

theorem advance_of_map_seq {rows : List (JournalEvent P)} {cursor : ℕ}
    (h : rows.map (·.seq) = List.range' (cursor + 1) rows.length) :
    advance JournalEvent.seq cursor rows = cursor + rows.length := by
  induction rows generalizing cursor with
  | nil => rfl
  | cons e rows ih =>
    rw [List.map_cons, List.length_cons, List.range'_succ, List.cons.injEq] at h
    show advance JournalEvent.seq (max cursor e.seq) rows = _
    rw [h.1, max_eq_right (Nat.le_succ cursor), ih h.2, List.length_cons]
    omega

/-- The events follow `start` one by one, and were all appended. -/
def Whole (persisted : List (JournalEvent P)) (start : ℕ) (events : List (JournalEvent P)) : Prop :=
  events.map (·.seq) = List.range' (start + 1) events.length ∧ ∀ e ∈ events, e ∈ persisted

theorem Whole.lastSeen {persisted got : List (JournalEvent P)} {start : ℕ}
    (h : Whole persisted start got) : lastSeen start got = start + got.length := by
  rw [Db.lastSeen, ← List.getLast?_map, h.1, List.getLast?_range']
  split_ifs with hnil
  · rw [hnil]
    rfl
  · simp only [Option.getD_some]
    omega

theorem Whole.append {persisted more : List (JournalEvent P)} {start : ℕ}
    {events : List (JournalEvent P)} (h : Whole persisted start events) :
    Whole (persisted ++ more) start events :=
  ⟨h.1, fun e he => List.mem_append_left _ (h.2 e he)⟩

namespace Recovery

variable {r r' : Recovery P S} {a : RecoveryAct P S}

/-- What the reader holds has no hole. -/
def ReaderWhole (pid : PersistenceId) (r : Recovery P S) : Prop :=
  match r.reader with
  | .idle | .located _ | .loaded _ => True
  | .replaying start page got =>
    Whole r.persisted start (got ++ page.buffer) ∧
      page.cursor = start + (got ++ page.buffer).length ∧
      (page.exhausted = false → ∃ log, r.tables.logs pid = some log ∧ log.logId = page.logId)
  | .recovered start got => Whole r.persisted start got

/-- All numbers up to the last were given once, what survives was appended, and the reader holds no
hole. -/
structure Inv (pid : PersistenceId) (r : Recovery P S) : Prop where
  tables : (journal P S).Reachable r.tables
  persisted : r.persisted.map (·.seq) = List.range' 1 (r.tables.lastSeq pid)
  surviving : ∀ e ∈ r.tables.surviving pid, e ∈ r.persisted
  reader : r.ReaderWhole pid

theorem Inv.not_gap (h : r.Inv pid) {start : ℕ} {got : List (JournalEvent P)}
    (hr : r.reader = .recovered start got) : ¬ r.Gap start got := by
  have hreader := h.reader
  unfold ReaderWhole at hreader
  simp only [hr] at hreader
  rintro ⟨e, he, hlo, hhi, hout⟩
  rw [hreader.lastSeen] at hhi
  have hmem : e.seq ∈ got.map (·.seq) := by
    rw [hreader.1, List.mem_range'_1]
    omega
  obtain ⟨e', he', hseq⟩ := List.mem_map.mp hmem
  have hnodup : (r.persisted.map (·.seq)).Nodup := by
    rw [h.persisted]
    exact List.nodup_range'
  have heq : e' = e := List.inj_on_of_nodup_map hnodup (hreader.2 e' he') he hseq
  exact hout (heq ▸ he')

theorem Inv.write (h : r.Inv pid) {w : Write P S} {t : Tables P S} (hw : w.resets = false)
    (hs : (journal P S).Step r.tables w t) {reader : Reader P S}
    (hreader : ReaderWhole pid ⟨t, r.persisted ++ w.gained r.tables pid, reader⟩) :
    Inv pid ⟨t, r.persisted ++ w.gained r.tables pid, reader⟩ := by
  have hext := Tables.extends_run (wellFormed_of_reachable h.tables) hw hs.1 pid
  rw [← hs.2] at hext
  refine ⟨h.tables.step hs, ?_, fun e he => ?_, hreader⟩
  · show (r.persisted ++ w.gained r.tables pid).map (·.seq) = List.range' 1 (t.lastSeq pid)
    rw [List.map_append, h.persisted, hext.seqs, hext.lastSeq, Nat.add_comm _ 1,
      List.range'_append_1]
  · rcases hext.surviving e he with he | he
    · exact List.mem_append_left _ (h.surviving e he)
    · exact List.mem_append_right _ he

theorem ReaderWhole.write (h : r.ReaderWhole pid) {w : Write P S} {t : Tables P S}
    (hw : w.resets = false) (hs : (journal P S).Step r.tables w t) :
    ReaderWhole pid ⟨t, r.persisted ++ w.gained r.tables pid, r.reader⟩ := by
  unfold ReaderWhole at *
  cases hr : r.reader with
  | idle | located _ | loaded _ => trivial
  | recovered start got =>
    simp only [hr] at h ⊢
    exact h.append
  | replaying start page got =>
    simp only [hr] at h ⊢
    refine ⟨h.1.append, h.2.1, fun hex => ?_⟩
    obtain ⟨log, hlog, hid⟩ := h.2.2 hex
    rcases Tables.logs_run (w := w) hlog with ⟨n, hn⟩ | ⟨hres, -⟩
    · exact ⟨⟨log.logId, n⟩, by rw [hs.2]; exact hn, hid⟩
    · rw [hw] at hres
      cases hres

theorem Inv.poll (h : r.Inv pid) {start : ℕ} {page : Page P} {got : List (JournalEvent P)}
    {y : Replaying P S} (hr : r.reader = .replaying start page got)
    (hg : RecoveryAct.NoHole r .poll)
    (hs : Replaying.Step ⟨r.tables, page, got, false⟩ none y) :
    Whole r.persisted start y.read ∧ y.page.cursor = start + y.read.length ∧
      (y.page.exhausted = false →
        ∃ log, r.tables.logs pid = some log ∧ log.logId = y.page.logId) := by
  have hreader := h.reader
  unfold ReaderWhole at hreader
  simp only [hr] at hreader
  obtain ⟨hwhole, hcursor, hlog⟩ := hreader
  rcases Replaying.step_cases hs with ⟨w, hl, -⟩ | ⟨-, hid, -, hpoll, -⟩
  · exact absurd hl.symm (Option.some_ne_none _)
  rcases hpoll with ⟨hread, hcur, hex⟩ | ⟨hex, hread, hbuf, hcur, -⟩
  · rw [hread, hcur, hex, hid]
    exact ⟨hwhole, hcursor, hlog⟩
  · obtain ⟨log, hlog, hlogId⟩ := hlog hex
    rw [hbuf, List.append_nil] at hwhole hcursor
    have hcont : Contiguous (r.tables.events page.logId) log.lastSeq :=
      hlogId ▸ (wellFormed_of_reachable h.tables).contiguous _ _ hlog
    have hrows := hcont.map_seq_page replayPageRows (hg start page got hr rfl hbuf hex)
    have hread' : y.read = got ++ Lib.page JournalEvent.seq (r.tables.events page.logId)
        page.cursor replayPageRows := by
      rw [hread, Page.fetch, hbuf]
      rfl
    generalize hpage : Lib.page JournalEvent.seq (r.tables.events page.logId) page.cursor
      replayPageRows = rows at hrows hread'
    have hmem : ∀ e ∈ rows, e ∈ r.persisted := by
      intro e he
      rw [← hpage] at he
      refine h.surviving e ?_
      rw [Tables.surviving_eq hlog, hlogId]
      exact (mem_of_mem_page he).1
    refine ⟨⟨?_, ?_⟩, ?_, fun _ => ⟨log, hlog, hlogId.trans hid.symm⟩⟩
    · rw [hread', List.map_append, hwhole.1, hrows, hcursor, List.length_append,
        Nat.add_right_comm, List.range'_append_1]
    · rw [hread']
      intro e he
      rcases List.mem_append.mp he with he | he
      · exact hwhole.2 e he
      · exact hmem e he
    · rw [hcur, Page.fetch, hpage, hread', List.length_append]
      show advance JournalEvent.seq page.cursor rows = start + (got.length + rows.length)
      rw [advance_of_map_seq hrows, hcursor, Nat.add_assoc]

theorem Inv.step (h : r.Inv pid) (hg : RecoveryAct.NoHole r a) (hs : Step pid r a r') :
    r'.Inv pid := by
  have hreader := h.reader
  cases hs with
  | write hw hs => exact h.write hw hs (hreader.write hw hs)
  | locate hr => exact ⟨h.tables, h.persisted, h.surviving, trivial⟩
  | load hr => exact ⟨h.tables, h.persisted, h.surviving, trivial⟩
  | @replay snapshot hr =>
    refine ⟨h.tables, h.persisted, h.surviving, ?_⟩
    unfold ReaderWhole
    unfold Tables.logId
    cases hlog : r.tables.logs pid with
    | none => exact ⟨⟨rfl, fun e he => absurd he List.not_mem_nil⟩, rfl, fun h => by cases h⟩
    | some log =>
      exact ⟨⟨rfl, fun e he => absurd he List.not_mem_nil⟩, rfl, fun _ => ⟨log, rfl, rfl⟩⟩
  | @got start page page' got event hr hs =>
    exact ⟨h.tables, h.persisted, h.surviving, h.poll hr hg (.got rfl hs)⟩
  | @ended start page page' got hr hs =>
    have hpoll := h.poll hr hg (.ended rfl hs)
    have hend := (Replaying.step_cases (.ended (r := ⟨r.tables, page, got, false⟩) rfl hs))
    refine ⟨h.tables, h.persisted, h.surviving, ?_⟩
    rcases hend with ⟨w, hl, -⟩ | ⟨-, -, -, -, hend⟩
    · exact absurd hl.symm (Option.some_ne_none _)
    · obtain ⟨hbuf, -⟩ := hend rfl
      have hread : got ++ page'.buffer = got := by
        rw [show page'.buffer = [] from hbuf, List.append_nil]
      have hwhole := hpoll.1
      rw [Replaying.read] at hwhole
      simp only [hread] at hwhole
      exact hwhole
  | persist hr hs => exact h.write rfl hs trivial

end Recovery

/-- Where no deletion comes between a reader's reads, a reader that is admitted has read every event
that was appended before the last it has seen. -/
theorem recovered_without_gap {x y : Recovery P S}
    {tr : List (Recovery P S × RecoveryAct P S × Recovery P S)} (hx : (recovery pid).Init x)
    (h : (recovery pid).Exec x tr y) (hg : ∀ z ∈ tr, z.2.1.NoHole z.1) :
    ∀ z ∈ tr, z.2.1.Fenced pid z.1 := by
  intro z hz start got events fresh hr ha hgap hne
  obtain ⟨pre, hpre, hmem, hstep⟩ := h.before hz
  have hinv : z.1.Inv pid := by
    refine hpre.guarded (G := fun r a => RecoveryAct.NoHole r a)
      (fun r a r' _ hinv hg hs => hinv.step hg hs) (.init hx) ?_ fun w hw => hg w (hmem w hw)
    obtain ⟨htables, hpersisted, hreader⟩ := hx
    refine ⟨by rw [htables]; exact .init rfl, by rw [hpersisted, htables]; rfl, ?_, ?_⟩
    · rw [htables]
      exact fun e he => absurd he List.not_mem_nil
    · unfold Recovery.ReaderWhole
      rw [hreader]
      trivial
  exact absurd hgap (hinv.not_gap hr)

/-! ## Tables of a single log -/

/-- The tables when `pid` is the only actor that ever appended, under the log id 0. -/
def oneLog (pid : PersistenceId) (lastSeq : ℕ) (events : List (JournalEvent P))
    (snapshot : Option (S × ℕ)) : Tables P S where
  logs := Function.update (fun _ => none) pid (some ⟨0, lastSeq⟩)
  events := Function.update (fun _ => []) 0 events
  snapshots := Function.update (fun _ => none) 0 snapshot

section

variable {lastSeq fresh : ℕ} {events : List (JournalEvent P)} {snapshot : Option (S × ℕ)}

theorem oneLog_unused (h : fresh ≠ 0) :
    (oneLog pid lastSeq events snapshot : Tables P S).Unused fresh := by
  intro pid' log hlog
  simp only [oneLog, Function.update_apply] at hlog
  split_ifs at hlog
  cases hlog
  exact h.symm

variable {batch : List P}

theorem persist_oneLog (h : batch ≠ []) :
    (oneLog pid lastSeq events snapshot : Tables P S).persist pid batch lastSeq fresh =
      (oneLog pid (lastSeq + batch.length) (events ++ number lastSeq batch) snapshot, .ok ()) := by
  simp [Tables.persist, Tables.logForWrite, oneLog, h, insertRows_eq]

theorem persist_empty (h : batch ≠ []) :
    (Tables.empty : Tables P S).persist pid batch 0 0 =
      (oneLog pid batch.length (number 0 batch) none, .ok ()) := by
  simp [Tables.persist, Tables.logForWrite, Tables.empty, oneLog, h, insertRows_eq]

theorem saveSnapshot_oneLog {state : S} :
    (oneLog pid lastSeq events snapshot : Tables P S).saveSnapshot pid state lastSeq fresh =
      (oneLog pid lastSeq events (some (state, lastSeq)), .ok ()) := by
  simp [Tables.saveSnapshot, Tables.logForWrite, Tables.admitWriter, oneLog]

theorem deleteEventsBefore_oneLog {seqNr : ℕ} :
    (oneLog pid lastSeq events snapshot : Tables P S).deleteEventsBefore (some 0) seqNr =
      oneLog pid lastSeq (events.filter (seqNr < ·.seq)) snapshot := by
  simp [Tables.deleteEventsBefore, oneLog]

theorem gained_of_ok {t t' : Tables P S} {expected : ℕ}
    (h : t.persist pid batch expected fresh = (t', .ok ())) :
    (Write.persist pid batch expected fresh : Write P S).gained t pid = number expected batch := by
  simp only [Write.gained, h, if_true, insertRows_eq]

theorem Recovery.Step.appended {t t' : Tables P S} {persisted : List (JournalEvent P)}
    {reader : Reader P S} {expected : ℕ} (hfresh : t.Unused fresh)
    (h : t.persist pid batch expected fresh = (t', .ok ())) :
    Step pid ⟨t, persisted, reader⟩ (.write (.persist pid batch expected fresh))
      ⟨t', persisted ++ number expected batch, reader⟩ := by
  have hs : (journal P S).Step t (.persist pid batch expected fresh) t' :=
    ⟨fun f hf => Option.some.inj hf ▸ hfresh, by rw [Write.run, h]⟩
  have hstep := @Recovery.Step.write _ _ pid ⟨t, persisted, reader⟩ _ _ rfl hs
  rw [gained_of_ok h] at hstep
  exact hstep

theorem Recovery.Step.admitted {t t' : Tables P S} {persisted got : List (JournalEvent P)}
    {start : ℕ} (hfresh : t.Unused fresh)
    (h : t.persist pid batch (lastSeen start got) fresh = (t', .ok ())) :
    Step pid ⟨t, persisted, .recovered start got⟩ (.persist batch fresh)
      ⟨t', persisted ++ number (lastSeen start got) batch, .idle⟩ := by
  have hs : (journal P S).Step t (.persist pid batch (lastSeen start got) fresh) t' :=
    ⟨fun f hf => Option.some.inj hf ▸ hfresh, by rw [Write.run, h]⟩
  have hstep := Recovery.Step.persist (r := ⟨t, persisted, .recovered start got⟩) rfl hs
  rw [gained_of_ok h] at hstep
  exact hstep

theorem next_oneLog {event : JournalEvent P} {start : ℕ} (h : start < event.seq)
    (t : Tables P S) (ht : t.events 0 = [event]) :
    (⟨0, start, [], false⟩ : Page P).next t = (some event, ⟨0, max start event.seq, [], true⟩) := by
  have hpage : Lib.page JournalEvent.seq [event] start 1000 = [event] := by
    rw [Lib.page, above_of_sorted (List.pairwise_singleton _ _)]
    simp [h]
  simp [Page.next, Page.fetch, ht, hpage, advance, replayPageRows]

end

/-! ## A log that is folded into its snapshot -/

def sessionId : PersistenceId := ⟨"session", "s"⟩

def two : List (JournalEvent ℕ) := [⟨1, 10⟩, ⟨2, 11⟩]

/-- Both events are deleted, and a snapshot of them was saved. -/
def foldedLog : Tables ℕ ℕ := oneLog sessionId 2 [] (some (21, 2))

/-- A third event was appended behind them. -/
def extendedLog : Tables ℕ ℕ := oneLog sessionId 3 [⟨3, 12⟩] (some (21, 2))

def three : List (JournalEvent ℕ) := [⟨1, 10⟩, ⟨2, 11⟩, ⟨3, 12⟩]

section

variable (reader : Reader ℕ ℕ)

/-- Two events are appended, folded into a snapshot and deleted. -/
theorem exec_folded : ∃ tr, (recovery sessionId).Exec ⟨.empty, [], reader⟩ tr
    ⟨foldedLog, two, reader⟩ ∧ ∀ z ∈ tr, ∃ w, z.2.1 = .write w := by
  have happend : Recovery.Step sessionId ⟨.empty, [], reader⟩
      (.write (.persist sessionId [10, 11] 0 0))
      ⟨oneLog sessionId 2 [⟨1, 10⟩, ⟨2, 11⟩] none, two, reader⟩ :=
    .appended (fun _ _ h => absurd h.symm (Option.some_ne_none _))
      (persist_empty (List.cons_ne_nil _ _))
  have hsave : Recovery.Step sessionId ⟨oneLog sessionId 2 [⟨1, 10⟩, ⟨2, 11⟩] none, two, reader⟩
      (.write (.saveSnapshot sessionId 21 2 1))
      ⟨oneLog sessionId 2 [⟨1, 10⟩, ⟨2, 11⟩] (some (21, 2)), two, reader⟩ :=
    .write (w := .saveSnapshot sessionId 21 2 1) rfl
      ⟨fun f hf => Option.some.inj hf ▸ oneLog_unused (by decide), by
        rw [Write.run, saveSnapshot_oneLog]⟩
  have hdelete : Recovery.Step sessionId
      ⟨oneLog sessionId 2 [⟨1, 10⟩, ⟨2, 11⟩] (some (21, 2)), two, reader⟩
      (.write (.deleteEventsBefore (some 0) 2)) ⟨foldedLog, two, reader⟩ :=
    .write (w := .deleteEventsBefore (some 0) 2) rfl
      ⟨fun f hf => absurd hf.symm (Option.some_ne_none _), by
        rw [Write.run, deleteEventsBefore_oneLog]
        rfl⟩
  refine ⟨_, (((System.Exec.nil (M := recovery sessionId)).snoc happend).snoc hsave).snoc hdelete,
    ?_⟩
  simp

theorem step_extended : Recovery.Step sessionId ⟨foldedLog, two, reader⟩
    (.write (.persist sessionId [12] 2 2)) ⟨extendedLog, three, reader⟩ :=
  .appended (oneLog_unused (by decide)) (persist_oneLog (List.cons_ne_nil _ _))

end

section

variable {start : ℕ}

/-- The reader replays the third event from any place before it. -/
theorem step_fetched (h : start < 3) : Recovery.Step sessionId
    ⟨extendedLog, three, .replaying start ⟨0, start, [], false⟩ []⟩ .poll
    ⟨extendedLog, three, .replaying start ⟨0, 3, [], true⟩ [⟨3, 12⟩]⟩ := by
  have hnext : (⟨0, start, [], false⟩ : Page ℕ).next extendedLog =
      (some ⟨3, 12⟩, ⟨0, max start 3, [], true⟩) := next_oneLog h extendedLog rfl
  rw [Nat.max_eq_right h.le] at hnext
  exact .got (r := ⟨extendedLog, three, .replaying start ⟨0, start, [], false⟩ []⟩) rfl hnext

theorem step_replayed : Recovery.Step sessionId
    ⟨extendedLog, three, .replaying start ⟨0, 3, [], true⟩ [⟨3, 12⟩]⟩ .poll
    ⟨extendedLog, three, .recovered start [⟨3, 12⟩]⟩ :=
  .ended (r := ⟨extendedLog, three, .replaying start ⟨0, 3, [], true⟩ [⟨3, 12⟩]⟩) rfl rfl

/-- What the recovered actor writes next is accepted. -/
theorem extended_persist : extendedLog.persist sessionId [13]
    (lastSeen start [(⟨3, 12⟩ : JournalEvent ℕ)]) 3 =
      (oneLog sessionId 4 [⟨3, 12⟩, ⟨4, 13⟩] (some (21, 2)), .ok ()) :=
  persist_oneLog (List.cons_ne_nil _ _)

theorem step_admitted : Recovery.Step sessionId
    ⟨extendedLog, three, .recovered start [⟨3, 12⟩]⟩ (.persist [13] 3)
    ⟨oneLog sessionId 4 [⟨3, 12⟩, ⟨4, 13⟩] (some (21, 2)), three ++ [⟨4, 13⟩], .idle⟩ :=
  .admitted (oneLog_unused (by decide)) extended_persist

end

/-- The deletion comes before the reader looks for a snapshot: it is given the third event after
the snapshot of the first two, and admitted. -/
theorem recovered_without_gap_compacted : ∃ (x y : Recovery ℕ ℕ)
    (tr : List (Recovery ℕ ℕ × RecoveryAct ℕ ℕ × Recovery ℕ ℕ)),
    (recovery ⟨"session", "s"⟩).Init x ∧ (recovery ⟨"session", "s"⟩).Exec x tr y ∧
      y.tables.lastSeq ⟨"session", "s"⟩ = 4 ∧
      ∀ z ∈ tr, z.2.1.Fenced ⟨"session", "s"⟩ z.1 := by
  obtain ⟨tr, hfolded, hwrites⟩ := exec_folded .idle
  have hlocate : Recovery.Step sessionId ⟨foldedLog, two, .idle⟩ .locate
      ⟨foldedLog, two, .located (some 0)⟩ :=
    .locate (r := ⟨foldedLog, two, .idle⟩) rfl
  have hload : Recovery.Step sessionId ⟨foldedLog, two, .located (some 0)⟩ .load
      ⟨foldedLog, two, .loaded (some (21, 2))⟩ :=
    .load (r := ⟨foldedLog, two, .located (some 0)⟩) rfl
  have hreplay : Recovery.Step sessionId ⟨extendedLog, three, .loaded (some (21, 2))⟩ .replay
      ⟨extendedLog, three, .replaying 2 ⟨0, 2, [], false⟩ []⟩ :=
    .replay (r := ⟨extendedLog, three, .loaded (some (21, 2))⟩) rfl
  have hexec := ((((((hfolded.snoc hlocate).snoc hload).snoc (step_extended _)).snoc
    hreplay).snoc (step_fetched (by decide))).snoc step_replayed).snoc step_admitted
  have hinit : (recovery (P := ℕ) (S := ℕ) sessionId).Init ⟨.empty, [], .idle⟩ := ⟨rfl, rfl, rfl⟩
  refine ⟨_, _, _, hinit, hexec, rfl, recovered_without_gap hinit hexec ?_⟩
  simp only [List.forall_mem_append, List.forall_mem_singleton]
  refine ⟨⟨⟨⟨⟨⟨⟨fun z hz => ?_, ?_⟩, ?_⟩, ?_⟩, ?_⟩, ?_⟩, ?_⟩, ?_⟩
  case refine_1 =>
    obtain ⟨w, hw⟩ := hwrites z hz
    intro start page got hr ha
    rw [hw] at ha
    cases ha
  all_goals intro start page got hr ha hbuf hex
  case refine_6 =>
    obtain ⟨rfl, rfl, rfl⟩ : start = 2 ∧ page = ⟨0, 2, [], false⟩ ∧ got = [] := by
      simpa [eq_comm] using hr
    exact fun _ => ⟨⟨3, 12⟩, by simp [extendedLog, oneLog], rfl⟩
  case refine_7 =>
    obtain ⟨rfl, rfl, rfl⟩ : start = 2 ∧ page = ⟨0, 3, [], true⟩ ∧ got = [⟨3, 12⟩] := by
      simpa [eq_comm] using hr
    cases hex
  all_goals cases ha

/-- Two events are appended after the reader has looked for a snapshot, a snapshot of both is saved
and both are deleted, a third is appended: the reader is given the third only, and admitted. -/
theorem admitted_with_gap : ¬ ∀ (x y : Recovery ℕ ℕ)
    (tr : List (Recovery ℕ ℕ × RecoveryAct ℕ ℕ × Recovery ℕ ℕ)),
    (recovery ⟨"session", "s"⟩).Init x → (recovery ⟨"session", "s"⟩).Exec x tr y →
      ∀ z ∈ tr, z.2.1.Fenced ⟨"session", "s"⟩ z.1 := by
  intro hall
  have hlocate : Recovery.Step (P := ℕ) (S := ℕ) sessionId ⟨.empty, [], .idle⟩ .locate
      ⟨.empty, [], .located none⟩ :=
    .locate rfl
  have hload : Recovery.Step (P := ℕ) (S := ℕ) sessionId ⟨.empty, [], .located none⟩ .load
      ⟨.empty, [], .loaded none⟩ :=
    .load (r := ⟨.empty, [], .located none⟩) rfl
  obtain ⟨tr, hfolded, -⟩ := exec_folded (.loaded none)
  have hreplay : Recovery.Step sessionId ⟨extendedLog, three, .loaded none⟩ .replay
      ⟨extendedLog, three, .replaying 0 ⟨0, 0, [], false⟩ []⟩ :=
    .replay (r := ⟨extendedLog, three, .loaded none⟩) rfl
  have hread := (((System.Exec.nil (M := recovery sessionId)).snoc hlocate).snoc hload).trans hfolded
  have hexec := ((((hread.snoc (step_extended _)).snoc hreplay).snoc
    (step_fetched (by decide))).snoc step_replayed).snoc step_admitted
  have hfenced := hall _ _ _ ⟨rfl, rfl, rfl⟩ hexec _
    (List.mem_append_right _ (List.mem_singleton_self _)) 0 [⟨3, 12⟩] [13] 3 rfl rfl
    ⟨⟨1, 10⟩, by simp [three], by decide, by decide, by simp⟩ (List.cons_ne_nil _ _)
  obtain ⟨e, he⟩ := hfenced
  have hok : (extendedLog.persist sessionId [13] (lastSeen 0 [(⟨3, 12⟩ : JournalEvent ℕ)]) 3).2 =
    .ok () := congrArg Prod.snd extended_persist
  cases hok.symm.trans he

end Horsie.Db
