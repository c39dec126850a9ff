import Horsie.Db.Journal

/-!
# The journal fence

What each transaction leaves, the invariant over any order of them, and what a replay returns: the
surviving events above its cursor, in order and each once, on tables that rest and, page by page,
on tables that other writers change.
-/

namespace Horsie.Db

open Horsie.Lib

variable {P S : Type*}

namespace Tables

variable {t : Tables P S} {pid : PersistenceId} {log : JournalLog} {fresh : ℕ}

/-! ## What the transactions leave -/

/-- An append of nothing, a stale one, or one whose writer knew the last number and whose batch
follows it. -/
theorem persist_cases (t : Tables P S) (pid : PersistenceId) (events : List P)
    (expected fresh : ℕ) :
    events = [] ∧ t.persist pid events expected fresh = (t, .ok ()) ∨
    t.lastSeq pid ≠ expected ∧ (∃ e, t.persist pid events expected fresh = (t, .error e)) ∨
    ∃ log, t.Opens pid fresh log ∧ log.lastSeq = expected ∧
      t.persist pid events expected fresh =
        (⟨Function.update t.logs pid (some ⟨log.logId, expected + events.length⟩),
          Function.update t.events log.logId (t.events log.logId ++ number expected events),
          t.snapshots⟩, .ok ()) := by
  obtain ⟨log, hlog, hopen⟩ := t.logForWrite_eq pid fresh
  unfold persist
  rw [hopen, hlog.lastSeq_eq]
  cases events with
  | nil => exact .inl ⟨rfl, rfl⟩
  | cons event events =>
    by_cases hseq : log.lastSeq = expected
    · refine .inr (.inr ⟨log, hlog, hseq, ?_⟩)
      simp only [List.isEmpty_cons, Bool.false_eq_true, if_false, hseq, if_true,
        Nat.add_sub_cancel, insertRows_eq, Function.update_idem]
    · refine .inr (.inl ⟨hseq, conflictError log expected, ?_⟩)
      simp only [List.isEmpty_cons, Bool.false_eq_true, if_false, if_neg hseq]

/-- An append changes nothing, or the writer knew the last number and its batch follows it. -/
theorem persist_unchanged_or (t : Tables P S) (pid : PersistenceId) (events : List P)
    (expected fresh : ℕ) :
    (t.persist pid events expected fresh).1 = t ∨
    ∃ log, t.Opens pid fresh log ∧ log.lastSeq = expected ∧
      (t.persist pid events expected fresh).1 =
        ⟨Function.update t.logs pid (some ⟨log.logId, expected + events.length⟩),
          Function.update t.events log.logId (t.events log.logId ++ number expected events),
          t.snapshots⟩ := by
  rcases t.persist_cases pid events expected fresh with
    ⟨-, hres⟩ | ⟨-, e, hres⟩ | ⟨log, hlog, hseq, hres⟩
  · exact .inl (by rw [hres])
  · exact .inl (by rw [hres])
  · exact .inr ⟨log, hlog, hseq, by rw [hres]⟩

theorem persist_of_stale {events : List P} {expected : ℕ} (h : expected ≠ t.lastSeq pid) :
    (t.persist pid events expected fresh).1 = t := by
  rcases t.persist_unchanged_or pid events expected fresh with hsame | ⟨log, hlog, hseq, -⟩
  · exact hsame
  · exact absurd (hseq.symm.trans hlog.lastSeq_eq.symm) h

/-- A snapshot changes nothing, or the writer knew the last number; no event changes. -/
theorem saveSnapshot_cases (t : Tables P S) (pid : PersistenceId) (state : S)
    (seqNr fresh : ℕ) :
    (t.saveSnapshot pid state seqNr fresh).1 = t ∨
    ∃ log, t.Opens pid fresh log ∧ log.lastSeq = seqNr ∧
      (t.saveSnapshot pid state seqNr fresh).1 =
        ⟨Function.update t.logs pid (some ⟨log.logId, seqNr⟩),
          Function.update t.events log.logId (t.events log.logId),
          Function.update t.snapshots log.logId (some (state, seqNr))⟩ := by
  obtain ⟨log, hlog, hopen⟩ := t.logForWrite_eq pid fresh
  unfold saveSnapshot admitWriter
  rw [hopen]
  by_cases hseq : log.lastSeq = seqNr
  · refine .inr ⟨log, hlog, hseq, ?_⟩
    subst hseq
    simp only [if_true, Function.update_eq_self]
  · exact .inl (by simp only [if_neg hseq])

theorem copySnapshot_cases (t : Tables P S) (src dst : PersistenceId) (fresh : ℕ) :
    (t.copySnapshot src dst fresh).1 = t ∨
    ∃ log state seq, t.Opens dst fresh log ∧
      (t.copySnapshot src dst fresh).1 =
        ⟨Function.update t.logs dst (some ⟨log.logId, seq⟩),
          Function.update t.events log.logId [],
          Function.update t.snapshots log.logId (some (state, seq))⟩ := by
  obtain ⟨log, hlog, hopen⟩ := t.logForWrite_eq dst fresh
  unfold copySnapshot
  rw [hopen]
  cases t.latestSnapshot (t.logId src) with
  | none => exact .inl rfl
  | some found =>
    refine .inr ⟨log, found.1, found.2, hlog, ?_⟩
    simp only [Function.update_idem]

/-! ## The invariant -/

theorem WellFormed.persist (hwf : t.WellFormed) (hfresh : t.Unused fresh) (events : List P)
    (expected : ℕ) : (t.persist pid events expected fresh).1.WellFormed := by
  rcases t.persist_unchanged_or pid events expected fresh with hsame | ⟨log, hlog, rfl, hres⟩
  · rw [hsame]
    exact hwf
  · rw [hres]
    exact hwf.write hfresh hlog ((hwf.opened hfresh hlog).append_number events) _

theorem WellFormed.saveSnapshot (hwf : t.WellFormed) (hfresh : t.Unused fresh) (state : S)
    (seqNr : ℕ) : (t.saveSnapshot pid state seqNr fresh).1.WellFormed := by
  rcases t.saveSnapshot_cases pid state seqNr fresh with hsame | ⟨log, hlog, rfl, hres⟩
  · rw [hsame]
    exact hwf
  · rw [hres]
    exact hwf.write hfresh hlog (hwf.opened hfresh hlog) _

theorem WellFormed.copySnapshot (hwf : t.WellFormed) (hfresh : t.Unused fresh)
    (src dst : PersistenceId) : (t.copySnapshot src dst fresh).1.WellFormed := by
  rcases t.copySnapshot_cases src dst fresh with hsame | ⟨log, state, seq, hlog, hres⟩
  · rw [hsame]
    exact hwf
  · rw [hres]
    exact hwf.write hfresh hlog (.nil seq) _

theorem WellFormed.deleteEventsBefore (hwf : t.WellFormed) (found : Option ℕ) (seqNr : ℕ) :
    (t.deleteEventsBefore found seqNr).WellFormed := by
  cases found with
  | none => exact hwf
  | some logId =>
    refine ⟨hwf.ids, fun pid log hlog => ?_, fun id hunused => ?_⟩
    · show Contiguous (Function.update t.events logId _ log.logId) log.lastSeq
      by_cases hid : log.logId = logId
      · rw [hid, Function.update_self, ← hid]
        exact (hwf.contiguous _ _ hlog).filter seqNr
      · rw [Function.update_of_ne hid]
        exact hwf.contiguous _ _ hlog
    · show Function.update t.events logId _ id = []
      by_cases hid : id = logId
      · rw [hid, Function.update_self, ← hid, hwf.orphan _ hunused]
        rfl
      · rw [Function.update_of_ne hid]
        exact hwf.orphan _ hunused

theorem WellFormed.clear (hwf : t.WellFormed) (found : Option ℕ) : (t.clear found).WellFormed := by
  cases found with
  | none => exact hwf
  | some logId =>
    have hkept : ∀ pid log, (t.clear (some logId)).logs pid = some log →
        t.logs pid = some log ∧ log.logId ≠ logId := by
      intro pid log h
      obtain ⟨h, hne⟩ := Option.filter_eq_some_iff.mp h
      exact ⟨h, by simpa using hne⟩
    refine ⟨fun pid pid' log log' h h' hid => ?_, fun pid log h => ?_, fun id hunused => ?_⟩
    · exact hwf.ids _ _ _ _ (hkept _ _ h).1 (hkept _ _ h').1 hid
    · obtain ⟨h, hne⟩ := hkept _ _ h
      show Contiguous (Function.update t.events logId [] log.logId) log.lastSeq
      rw [Function.update_of_ne hne]
      exact hwf.contiguous _ _ h
    · show Function.update t.events logId [] id = []
      by_cases hid : id = logId
      · rw [hid, Function.update_self]
      · rw [Function.update_of_ne hid]
        refine hwf.orphan _ fun pid log h hlog => ?_
        refine hunused pid log (Option.filter_eq_some_iff.mpr ⟨h, ?_⟩) hlog
        rw [decide_eq_true_eq, hlog]
        exact hid

theorem WellFormed.run (hwf : t.WellFormed) {w : Write P S}
    (hfresh : ∀ fresh, w.fresh? = some fresh → t.Unused fresh) : (w.run t).WellFormed := by
  cases w with
  | persist pid events expected fresh => exact hwf.persist (hfresh _ rfl) events expected
  | saveSnapshot pid state seqNr fresh => exact hwf.saveSnapshot (hfresh _ rfl) state seqNr
  | deleteEventsBefore found seqNr => exact hwf.deleteEventsBefore found seqNr
  | copySnapshot src dst fresh => exact hwf.copySnapshot (hfresh _ rfl) src dst
  | clear found => exact hwf.clear found

/-- Whatever the id, the events under it are in the order of their numbers. -/
theorem WellFormed.strictlySorted (hwf : t.WellFormed) (logId : ℕ) :
    (t.events logId).Pairwise (·.seq < ·.seq) := by
  by_cases h : t.Unused logId
  · rw [hwf.orphan _ h]
    exact .nil
  · unfold Unused at h
    push Not at h
    obtain ⟨pid, log, hlog, rfl⟩ := h
    exact (hwf.contiguous _ _ hlog).strictlySorted

/-- Only a copy and a clear move `last_seq` back. -/
theorem lastSeq_le_run {w : Write P S} (hw : w.resets = false) (pid : PersistenceId) :
    t.lastSeq pid ≤ (w.run t).lastSeq pid := by
  have hupdate : ∀ (pid' : PersistenceId) (fresh n : ℕ) (log : JournalLog)
      (events : ℕ → List (JournalEvent P)) (snapshots : ℕ → Option (S × ℕ)),
      t.Opens pid' fresh log → log.lastSeq ≤ n →
        t.lastSeq pid ≤ Tables.lastSeq
          ⟨Function.update t.logs pid' (some ⟨log.logId, n⟩), events, snapshots⟩ pid := by
    intro pid' fresh n log events snapshots hlog hn
    by_cases hpid : pid = pid'
    · subst hpid
      rw [hlog.lastSeq_eq]
      simpa only [lastSeq, Function.update_self, Option.elim_some] using hn
    · simp only [lastSeq, Function.update_of_ne hpid]
      exact le_rfl
  cases w with
  | persist pid' events expected fresh =>
    show t.lastSeq pid ≤ (t.persist pid' events expected fresh).1.lastSeq pid
    rcases t.persist_unchanged_or pid' events expected fresh with
      hsame | ⟨log, hlog, hseq, hres⟩
    · rw [hsame]
    · rw [hres]
      exact hupdate _ _ _ _ _ _ hlog (by omega)
  | saveSnapshot pid' state seqNr fresh =>
    show t.lastSeq pid ≤ (t.saveSnapshot pid' state seqNr fresh).1.lastSeq pid
    rcases t.saveSnapshot_cases pid' state seqNr fresh with hsame | ⟨log, hlog, hseq, hres⟩
    · rw [hsame]
    · rw [hres]
      exact hupdate _ _ _ _ _ _ hlog hseq.le
  | deleteEventsBefore found seqNr => cases found <;> exact le_rfl
  | copySnapshot => cases hw
  | clear => cases hw

end Tables

theorem wellFormed_of_reachable {t : Tables P S} (h : (journal P S).Reachable t) :
    t.WellFormed := by
  refine h.invariant (fun t ht => ?_) fun t w t' _ hwf hstep => ?_
  · rw [ht]
    exact .empty
  · rw [hstep.2]
    exact hwf.run hstep.1

/-! ## Replays of tables at rest -/

namespace Page

variable {t : Tables P S} {page page' : Page P} {event : JournalEvent P}

/-- What the stream has still to return, if nobody writes. -/
def remaining (page : Page P) (t : Tables P S) : List (JournalEvent P) :=
  page.buffer ++
    if page.exhausted then [] else above JournalEvent.seq (t.events page.logId) page.cursor

theorem remaining_fetch (hwf : t.WellFormed) (h : page.exhausted = false) :
    (page.fetch t).remaining t = page.remaining t := by
  have happend := @above_eq_page_append _ JournalEvent.seq (t.events page.logId) page.cursor
    replayPageRows (hwf.strictlySorted page.logId)
  unfold remaining fetch
  simp only [h, Bool.false_or, Bool.false_eq_true, if_false, List.append_assoc,
    decide_eq_true_eq]
  congr 1
  split_ifs with hshort
  · rw [List.append_nil, above_eq_page hshort]
  · exact happend.symm

theorem next_of_buffer {rest : List (JournalEvent P)} (h : page.buffer = event :: rest) :
    page.next t = (some event, { page with buffer := rest }) := by
  unfold next
  rw [h]

theorem next_of_nil (h : page.buffer = []) (hex : page.exhausted = false) :
    page.next t = match (page.fetch t).buffer with
      | event :: rest => (some event, { page.fetch t with buffer := rest })
      | [] => (none, page.fetch t) := by
  unfold next
  rw [h, hex]
  rfl

theorem remaining_of_next_some (hwf : t.WellFormed) (h : page.next t = (some event, page')) :
    page.remaining t = event :: page'.remaining t := by
  cases hbuf : page.buffer with
  | cons first rest =>
    rw [next_of_buffer hbuf] at h
    obtain ⟨rfl, rfl⟩ : first = event ∧ { page with buffer := rest } = page' := by simpa using h
    unfold remaining
    rw [hbuf]
    rfl
  | nil =>
    cases hex : page.exhausted with
    | true => simp [next, hbuf, hex] at h
    | false =>
      rw [next_of_nil hbuf hex] at h
      rw [← remaining_fetch hwf hex]
      cases hfetch : (page.fetch t).buffer with
      | nil => simp [hfetch] at h
      | cons first rest =>
        rw [hfetch] at h
        obtain ⟨rfl, rfl⟩ : first = event ∧ { page.fetch t with buffer := rest } = page' := by
          simpa using h
        unfold remaining
        rw [hfetch]
        rfl

theorem remaining_of_next_none (h : page.next t = (none, page')) : page.remaining t = [] := by
  cases hbuf : page.buffer with
  | cons first rest => simp [next_of_buffer hbuf] at h
  | nil =>
    cases hex : page.exhausted with
    | true => simp [remaining, hbuf, hex]
    | false =>
      rw [next_of_nil hbuf hex] at h
      cases hfetch : (page.fetch t).buffer with
      | cons first rest => simp [hfetch] at h
      | nil =>
        -- an empty page is a short one
        have hrows : Lib.page JournalEvent.seq (t.events page.logId) page.cursor
            replayPageRows = [] := (List.append_eq_nil_iff.mp hfetch).2
        have hall : above JournalEvent.seq (t.events page.logId) page.cursor = [] := by
          rw [above_eq_page (by rw [hrows]; exact replayPageRows_pos), hrows]
        simp [remaining, hbuf, hall]

/-- Polled often enough, a stream over tables at rest returns what it has to return and ends. -/
theorem collect_eq (hwf : t.WellFormed) {fuel : ℕ} (h : (page.remaining t).length < fuel) :
    page.collect t fuel = some (page.remaining t) := by
  induction fuel generalizing page with
  | zero => exact absurd h (Nat.not_lt_zero _)
  | succ fuel ih =>
    unfold collect
    rcases hnext : page.next t with ⟨_ | event, rest⟩
    · rw [remaining_of_next_none hnext]
    · rw [remaining_of_next_some hwf hnext] at h ⊢
      rw [List.length_cons] at h
      simp only [ih (Nat.lt_of_succ_lt_succ h), Option.map_some]

end Page

/-- A replay over tables at rest: the surviving events above the cursor, as they are. -/
theorem remaining_replay {t : Tables P S} (hwf : t.WellFormed) (pid : PersistenceId)
    (afterSeq : ℕ) : (replay (t.logId pid) afterSeq).remaining t =
      (t.surviving pid).filter (afterSeq < ·.seq) := by
  unfold Tables.logId Tables.surviving
  cases t.logs pid with
  | none => rfl
  | some log =>
    exact above_of_sorted ((hwf.strictlySorted log.logId).imp Nat.le_of_lt)

/-! ## Replays between writes -/

/-- A replay under way: what the stream has returned, and whether it has ended. -/
structure Replaying (P S : Type*) where
  tables : Tables P S
  page : Page P
  got : List (JournalEvent P)
  ended : Bool

/-- A poll of the stream, or a transaction of some writer. -/
inductive Replaying.Step : Replaying P S → Option (Write P S) → Replaying P S → Prop
  | write {r : Replaying P S} {w : Write P S} {t : Tables P S}
      (h : (journal P S).Step r.tables w t) :
      Step r (some w) { r with tables := t }
  | got {r : Replaying P S} {event : JournalEvent P} {page : Page P} (hr : r.ended = false)
      (h : r.page.next r.tables = (some event, page)) :
      Step r none { r with page := page, got := r.got ++ [event] }
  | ended {r : Replaying P S} {page : Page P} (hr : r.ended = false)
      (h : r.page.next r.tables = (none, page)) : Step r none { r with page := page, ended := true }

/-- One replay of `pid` after `afterSeq`, among any writes. -/
def replaying (pid : PersistenceId) (afterSeq : ℕ) :
    System (Replaying P S) (Option (Write P S)) where
  Init r := (journal P S).Reachable r.tables ∧ r.page = replay (r.tables.logId pid) afterSeq ∧
    r.got = [] ∧ r.ended = false
  Step := Replaying.Step

namespace Replaying

variable {pid : PersistenceId} {afterSeq : ℕ} {r r' x y : Replaying P S}
  {l : Option (Write P S)} {e : JournalEvent P} {tr : List _}

def read (r : Replaying P S) : List (JournalEvent P) := r.got ++ r.page.buffer

theorem step_cases (h : Step r l r') :
    (∃ w, l = some w ∧ (journal P S).Step r.tables w r'.tables ∧ r'.page = r.page ∧
      r'.got = r.got ∧ r'.ended = r.ended) ∨
    (r'.tables = r.tables ∧ r'.page.logId = r.page.logId ∧ r.ended = false ∧
      ((r'.read = r.read ∧ r'.page.cursor = r.page.cursor ∧
          r'.page.exhausted = r.page.exhausted) ∨
        (r.page.exhausted = false ∧ r'.read = r.got ++ (r.page.fetch r.tables).buffer ∧
          r.page.buffer = [] ∧ r'.page.cursor = (r.page.fetch r.tables).cursor ∧
          r'.page.exhausted = (r.page.fetch r.tables).exhausted)) ∧
      (r'.ended = true → r'.page.buffer = [] ∧ r'.page.exhausted = true)) := by
  cases h with
  | write h => exact .inl ⟨_, rfl, h, rfl, rfl, rfl⟩
  | @got event page hr h =>
    refine .inr ⟨rfl, ?_⟩
    have hend : ∀ {p : Prop}, r.ended = true → p := fun he => by simp [hr] at he
    cases hbuf : r.page.buffer with
    | cons first rest =>
      rw [Page.next_of_buffer hbuf] at h
      obtain ⟨rfl, rfl⟩ : first = event ∧ { r.page with buffer := rest } = page := by simpa using h
      exact ⟨rfl, hr, .inl ⟨by simp [read, hbuf], rfl, rfl⟩, hend⟩
    | nil =>
      cases hex : r.page.exhausted with
      | true => simp [Page.next, hbuf, hex] at h
      | false =>
        rw [Page.next_of_nil hbuf hex] at h
        cases hfetch : (r.page.fetch r.tables).buffer with
        | nil => simp [hfetch] at h
        | cons first rest =>
          rw [hfetch] at h
          obtain ⟨rfl, rfl⟩ : first = event ∧
              { r.page.fetch r.tables with buffer := rest } = page := by
            simpa using h
          exact ⟨rfl, hr, .inr ⟨rfl, by simp [read], rfl, rfl, rfl⟩, hend⟩
  | @ended page hr h =>
    refine .inr ⟨rfl, ?_⟩
    cases hbuf : r.page.buffer with
    | cons first rest => simp [Page.next_of_buffer hbuf] at h
    | nil =>
      cases hex : r.page.exhausted with
      | true =>
        obtain rfl : r.page = page := by simpa [Page.next, hbuf, hex] using h
        exact ⟨rfl, hr, .inl ⟨rfl, rfl, hex⟩, fun _ => ⟨hbuf, hex⟩⟩
      | false =>
        rw [Page.next_of_nil hbuf hex] at h
        cases hfetch : (r.page.fetch r.tables).buffer with
        | cons first rest => simp [hfetch] at h
        | nil =>
          rw [hfetch] at h
          obtain rfl : r.page.fetch r.tables = page := by simpa using h
          have hrows : Lib.page JournalEvent.seq (r.tables.events r.page.logId) r.page.cursor
              replayPageRows = [] := (List.append_eq_nil_iff.mp hfetch).2
          have hex' : (r.page.fetch r.tables).exhausted = true := by
            simp [Page.fetch, hrows, replayPageRows_pos]
          exact ⟨rfl, hr, .inr ⟨rfl, by simp [read, hfetch], rfl, rfl, rfl⟩,
            fun _ => ⟨hfetch, hex'⟩⟩

theorem tables_of_step (h : Step r l r') (hr : (journal P S).Reachable r.tables) :
    (journal P S).Reachable r'.tables := by
  rcases step_cases h with ⟨w, -, hw, -⟩ | ⟨heq, -⟩
  · exact hr.step hw
  · rw [heq]
    exact hr

/-- What holds of a replay between writes: it has read numbers that grow, each of an event that
survived when it was read; and an event above its cursor that survives is read or still ahead. -/
structure Sound (afterSeq : ℕ) (x : Replaying P S)
    (tr : List (Replaying P S × Option (Write P S) × Replaying P S))
    (r : Replaying P S) : Prop where
  reachable : (journal P S).Reachable r.tables
  logId : r.page.logId = x.page.logId
  cursor : afterSeq ≤ r.page.cursor
  sorted : r.read.Pairwise (·.seq < ·.seq)
  mem : ∀ e ∈ r.read, afterSeq < e.seq ∧ e.seq ≤ r.page.cursor ∧
    ∃ z ∈ tr, e ∈ z.1.tables.events x.page.logId
  all : x.page.exhausted = false → ∀ e, afterSeq < e.seq → e ∈ x.tables.events x.page.logId →
    (∀ z ∈ tr, e ∈ z.2.2.tables.events x.page.logId) →
      e ∈ r.read ∨ r.page.exhausted = false ∧ r.page.cursor < e.seq
  ended : r.ended = true → r.page.buffer = [] ∧ r.page.exhausted = true

theorem Sound.init (hx : (replaying pid afterSeq).Init x) : Sound afterSeq x [] x := by
  obtain ⟨hreach, hpage, hgot, hended⟩ := hx
  have hstart : x.page.buffer = [] ∧ x.page.cursor = afterSeq := by
    rw [hpage]
    cases x.tables.logId pid <;> exact ⟨rfl, rfl⟩
  have hread : x.read = [] := by rw [read, hgot, hstart.1]; rfl
  refine ⟨hreach, rfl, hstart.2.ge, by rw [hread]; exact .nil, fun e he => ?_,
    fun hex e he _ _ => .inr ⟨hex, by rw [hstart.2]; exact he⟩, fun he => ?_⟩
  · rw [hread] at he
    cases he
  · rw [hended] at he
    cases he

theorem Sound.step (h : Sound afterSeq x tr r) (hexec : (replaying pid afterSeq).Exec x tr r)
    (hs : Step r l r') : Sound afterSeq x (tr ++ [(r, l, r')]) r' := by
  have hlast : ∀ e, e ∈ x.tables.events x.page.logId →
      (∀ z ∈ tr, e ∈ z.2.2.tables.events x.page.logId) → e ∈ r.tables.events x.page.logId :=
    fun e he hz => hexec.last (P := fun r => e ∈ r.tables.events x.page.logId) he hz
  have hreach := tables_of_step hs h.reachable
  have hmem : ∀ e ∈ r.read, afterSeq < e.seq ∧ e.seq ≤ r.page.cursor ∧
      ∃ z ∈ tr ++ [(r, l, r')], e ∈ z.1.tables.events x.page.logId := fun e he => by
    obtain ⟨ha, hc, z, hz, hze⟩ := h.mem e he
    exact ⟨ha, hc, z, List.mem_append_left _ hz, hze⟩
  rcases step_cases hs with ⟨w, -, -, hpage, hgot, hend⟩ | ⟨-, hlog, hr, hpoll, hend⟩
  · have hread : r'.read = r.read := by rw [read, read, hpage, hgot]
    refine ⟨hreach, by rw [hpage]; exact h.logId, by rw [hpage]; exact h.cursor,
      by rw [hread]; exact h.sorted, by rw [hread, hpage]; exact hmem, ?_,
      by rw [hend, hpage]; exact h.ended⟩
    intro hex e ha he hz
    rw [hread, hpage]
    exact h.all hex e ha he fun z hz' => hz z (List.mem_append_left _ hz')
  rcases hpoll with ⟨hread, hcursor, hex'⟩ | ⟨hex', hread, hbuf, hcursor, hex''⟩
  · refine ⟨hreach, hlog.trans h.logId, by rw [hcursor]; exact h.cursor,
      by rw [hread]; exact h.sorted, by rw [hread, hcursor]; exact hmem, ?_, hend⟩
    intro hex e ha he hz
    rw [hread, hcursor, hex']
    exact h.all hex e ha he fun z hz' => hz z (List.mem_append_left _ hz')
  · -- one page was fetched behind what had been read
    have hwf := (wellFormed_of_reachable h.reachable).strictlySorted x.page.logId
    have hrows : r'.read = r.read ++ Lib.page JournalEvent.seq
        (r.tables.events x.page.logId) r.page.cursor replayPageRows := by
      rw [hread, read, hbuf, Page.fetch, hbuf, h.logId]
      simp
    have hadv : r'.page.cursor = advance JournalEvent.seq r.page.cursor (Lib.page JournalEvent.seq
        (r.tables.events x.page.logId) r.page.cursor replayPageRows) := by
      rw [hcursor, Page.fetch, h.logId]
    refine ⟨hreach, hlog.trans h.logId, ?_, ?_, ?_, ?_, hend⟩
    · rw [hadv]
      exact h.cursor.trans le_advance
    · rw [hrows, List.pairwise_append]
      refine ⟨h.sorted, page_strictlySorted hwf, fun a ha b hb => ?_⟩
      exact (h.mem a ha).2.1.trans_lt (mem_of_mem_page hb).2
    · intro e he
      rw [hrows] at he
      rcases List.mem_append.mp he with he | he
      · obtain ⟨ha, hc, hz⟩ := hmem e he
        exact ⟨ha, by rw [hadv]; exact hc.trans le_advance, hz⟩
      · obtain ⟨hin, hc⟩ := mem_of_mem_page he
        exact ⟨h.cursor.trans_lt hc, by rw [hadv]; exact key_le_advance he,
          _, List.mem_append_right _ (List.mem_singleton_self _), hin⟩
    · intro hex e ha he hz
      have hz' : ∀ z ∈ tr, e ∈ z.2.2.tables.events x.page.logId :=
        fun z hz' => hz z (List.mem_append_left _ hz')
      rw [hrows, hadv]
      rcases h.all hex e ha he hz' with hin | ⟨-, hc⟩
      · exact .inl (List.mem_append_left _ hin)
      by_cases hout : e ∈ Lib.page JournalEvent.seq (r.tables.events x.page.logId) r.page.cursor
          replayPageRows
      · exact .inl (List.mem_append_right _ hout)
      · refine .inr ⟨?_, advance_lt_of_notMem_page hwf (hlast e he hz') hc hout⟩
        have hfull : ¬ (Lib.page JournalEvent.seq (r.tables.events x.page.logId) r.page.cursor
            replayPageRows).length < replayPageRows := fun hshort =>
          hout (mem_page_of_length_lt hshort (hlast e he hz') hc)
        rw [hex'', Page.fetch, h.logId]
        simp [hex', hfull]

theorem sound_of_exec (hx : (replaying pid afterSeq).Init x)
    (h : (replaying pid afterSeq).Exec x tr y) : Sound afterSeq x tr y := by
  induction h with
  | nil => exact .init hx
  | snoc h hs ih => exact ih.step h hs

end Replaying

/-! ## The fence -/

namespace Tables

variable {t : Tables P S} {pid : PersistenceId}

theorem WellFormed.surviving (hwf : t.WellFormed) (pid : PersistenceId) :
    Contiguous (t.surviving pid) (t.lastSeq pid) := by
  unfold Tables.surviving lastSeq
  cases h : t.logs pid with
  | none => exact .nil 0
  | some log => exact hwf.contiguous _ _ h

theorem update_opened {pid' : PersistenceId} {fresh n : ℕ} {log opened : JournalLog}
    (h : t.logs pid = some log) (hopen : t.Opens pid' fresh opened) :
    ∃ n', Function.update t.logs pid' (some ⟨opened.logId, n⟩) pid = some ⟨log.logId, n'⟩ := by
  by_cases hpid : pid = pid'
  · subst hpid
    rcases hopen with hopen | ⟨hopen, -⟩
    · have hsame : opened = log := Option.some.inj (hopen.symm.trans h)
      exact ⟨n, by rw [Function.update_self, hsame]⟩
    · exact absurd (h.symm.trans hopen) (Option.some_ne_none _)
  · exact ⟨log.lastSeq, by rw [Function.update_of_ne hpid, h]⟩

theorem logs_run {w : Write P S} {log : JournalLog} (h : t.logs pid = some log) :
    (∃ n, (w.run t).logs pid = some ⟨log.logId, n⟩) ∨
      w.resets = true ∧ (w.run t).logs pid = none := by
  cases w with
  | persist pid' events expected fresh =>
    left
    show ∃ n, (t.persist pid' events expected fresh).1.logs pid = some ⟨log.logId, n⟩
    rcases t.persist_unchanged_or pid' events expected fresh with
      heq | ⟨opened, hopen, -, hres⟩
    · rw [heq]
      exact ⟨_, h⟩
    · rw [hres]
      exact update_opened h hopen
  | saveSnapshot pid' state seqNr fresh =>
    left
    show ∃ n, (t.saveSnapshot pid' state seqNr fresh).1.logs pid = some ⟨log.logId, n⟩
    rcases t.saveSnapshot_cases pid' state seqNr fresh with heq | ⟨opened, hopen, -, hres⟩
    · rw [heq]
      exact ⟨_, h⟩
    · rw [hres]
      exact update_opened h hopen
  | deleteEventsBefore found seqNr => cases found <;> exact .inl ⟨_, h⟩
  | copySnapshot src dst fresh =>
    left
    show ∃ n, (t.copySnapshot src dst fresh).1.logs pid = some ⟨log.logId, n⟩
    rcases t.copySnapshot_cases src dst fresh with heq | ⟨opened, state, seq, hopen, hres⟩
    · rw [heq]
      exact ⟨_, h⟩
    · rw [hres]
      exact update_opened h hopen
  | clear found =>
    cases found with
    | none => exact .inl ⟨_, h⟩
    | some logId =>
      show (∃ n, (t.logs pid).filter (·.logId ≠ logId) = some ⟨log.logId, n⟩) ∨
        _ ∧ (t.logs pid).filter (·.logId ≠ logId) = none
      rw [h, Option.filter_some]
      split_ifs
      · exact .inl ⟨_, rfl⟩
      · exact .inr ⟨rfl, rfl⟩

theorem logId_run {w : Write P S} {log log' : JournalLog} (h : t.logs pid = some log)
    (h' : (w.run t).logs pid = some log') : log'.logId = log.logId := by
  rcases logs_run (w := w) h with ⟨n, hn⟩ | ⟨-, hnone⟩
  · have heq : log' = ⟨log.logId, n⟩ := Option.some.inj (h'.symm.trans hn)
    rw [heq]
  · exact absurd (h'.symm.trans hnone) (Option.some_ne_none _)

theorem mem_surviving {e : JournalEvent P} (h : e ∈ t.surviving pid) :
    ∃ log, t.logs pid = some log ∧ e ∈ t.events log.logId := by
  unfold surviving at h
  cases hlog : t.logs pid with
  | none =>
    rw [hlog] at h
    cases h
  | some log =>
    rw [hlog] at h
    exact ⟨log, rfl, h⟩

end Tables

theorem Replaying.mem_events {pid : PersistenceId} {afterSeq : ℕ} {x y : Replaying P S}
    {tr : List _} {e : JournalEvent P} {log : JournalLog}
    (h : (replaying pid afterSeq).Exec x tr y) (hlog : x.tables.logs pid = some log)
    (he : ∀ z ∈ tr, e ∈ z.2.2.tables.surviving pid) :
    (∃ log', y.tables.logs pid = some log' ∧ log'.logId = log.logId) ∧
      ∀ z ∈ tr, e ∈ z.2.2.tables.events log.logId := by
  induction h with
  | nil => exact ⟨⟨log, hlog, rfl⟩, fun z hz => absurd hz List.not_mem_nil⟩
  | @snoc tr t l u h hs ih =>
    simp only [List.forall_mem_append, List.forall_mem_singleton] at he ⊢
    obtain ⟨⟨log₁, hlog₁, hid₁⟩, hall⟩ := ih he.1
    obtain ⟨log₂, hlog₂, hmem⟩ := Tables.mem_surviving he.2
    have hid₂ : log₂.logId = log.logId := by
      rcases Replaying.step_cases hs with ⟨w, -, hw, -⟩ | ⟨heq, -⟩
      · rw [hw.2] at hlog₂
        exact (Tables.logId_run hlog₁ hlog₂).trans hid₁
      · rw [heq, hlog₁] at hlog₂
        exact (congrArg JournalLog.logId (Option.some.inj hlog₂)).symm.trans hid₁
    exact ⟨⟨log₂, hlog₂, hid₂⟩, hall, hid₂ ▸ hmem⟩

/-- The journal's fence, over any order of the writers' transactions: the surviving numbers of a
log are consecutive and end at `last_seq`; a stale append changes nothing; only a copy or a clear
moves `last_seq` back; and a replay returns what survives above its cursor, all of it and nothing
else, also where writes come between its pages. -/
theorem journal_fence (pid : PersistenceId) :
    (∀ t : Tables P S, (journal P S).Reachable t →
      ((t.surviving pid).map (·.seq)).Nodup ∧ Contiguous (t.surviving pid) (t.lastSeq pid)) ∧
    (∀ (t : Tables P S) (events : List P) (expected fresh : ℕ), expected ≠ t.lastSeq pid →
      (t.persist pid events expected fresh).1 = t) ∧
    (∀ (t : Tables P S) (w : Write P S) (t' : Tables P S), (journal P S).Step t w t' →
      w.resets = false → t.lastSeq pid ≤ t'.lastSeq pid) ∧
    (∀ t : Tables P S, (journal P S).Reachable t → ∀ afterSeq, ∃ polls, ∀ fuel ≥ polls,
      (replay (t.logId pid) afterSeq).collect t fuel =
        some ((t.surviving pid).filter (afterSeq < ·.seq))) ∧
    (∀ (afterSeq : ℕ) (x y : Replaying P S) (tr : List _), (replaying pid afterSeq).Init x →
      (replaying pid afterSeq).Exec x tr y → y.ended = true →
        y.got.Pairwise (·.seq < ·.seq) ∧
        (∀ e ∈ y.got, afterSeq < e.seq ∧ ∃ z ∈ tr, e ∈ z.1.tables.events x.page.logId) ∧
        ∀ e, afterSeq < e.seq → e ∈ x.tables.surviving pid →
          (∀ z ∈ tr, e ∈ z.2.2.tables.surviving pid) → e ∈ y.got) := by
  refine ⟨fun t ht => ?_, fun t events expected fresh h => Tables.persist_of_stale h,
    fun t w t' hstep hw => ?_, fun t ht afterSeq => ?_, fun afterSeq x y tr hx h hend => ?_⟩
  · have hcont := (wellFormed_of_reachable ht).surviving pid
    refine ⟨?_, hcont⟩
    obtain ⟨first, -, hseq⟩ := hcont
    rw [hseq]
    exact List.nodup_range'
  · rw [hstep.2]
    exact Tables.lastSeq_le_run hw pid
  · have hwf := wellFormed_of_reachable ht
    refine ⟨((replay (t.logId pid) afterSeq).remaining t).length + 1, fun fuel hfuel => ?_⟩
    rw [Page.collect_eq hwf hfuel, remaining_replay hwf]
  · have hsound := Replaying.sound_of_exec hx h
    obtain ⟨hbuf, hex⟩ := hsound.ended hend
    have hread : y.read = y.got := by rw [Replaying.read, hbuf, List.append_nil]
    have hsorted := hsound.sorted
    have hmem := hsound.mem
    rw [hread] at hsorted hmem
    refine ⟨hsorted, fun e he => ⟨(hmem e he).1, (hmem e he).2.2⟩, fun e ha he hz => ?_⟩
    obtain ⟨log, hlog, hin⟩ := Tables.mem_surviving he
    have hpage : x.page = ⟨log.logId, afterSeq, [], false⟩ := by
      rw [hx.2.1, Tables.logId, hlog]
      rfl
    have hall := (Replaying.mem_events h hlog hz).2
    have hout := hsound.all (by rw [hpage]) e ha (by rw [hpage]; exact hin)
      (by rw [hpage]; exact hall)
    rw [hread, hex] at hout
    exact hout.resolve_right fun h => absurd h.1 (by decide)

end Horsie.Db
