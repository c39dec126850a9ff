import Mathlib.Data.List.Range
import Horsie.Lib.Keyset
import Horsie.Lib.Transition

/-!
# The journal

The journal of the server's actors: a log of numbered events for each persistence id, the
allocator `last_seq` of its numbers, and at most one snapshot. `Tables` are the three tables of
`0017_journal.sql`; an operation that is one transaction is a function on them, and one that looks
its log id up in a statement of its own takes the id it found. A replay reads the log page by page
(`Page.next`), with any writes between two pages.
-/

namespace Horsie.Db

open Horsie.Lib

structure PersistenceId where
  kind : String
  id : String
deriving DecidableEq

inductive JournalError
  | conflict (pid : String) (expected actual : ℕ)
  | noSnapshot (src : PersistenceId)
deriving DecidableEq

/-- A row of `journal_logs`. -/
structure JournalLog where
  logId : ℕ
  lastSeq : ℕ
deriving DecidableEq

/-- A row of `journal_events`, under its log's id. -/
structure JournalEvent (P : Type*) where
  seq : ℕ
  payload : P
deriving DecidableEq

/-- The journal's tables: the logs by persistence id, the events and the snapshot by log id. -/
structure Tables (P S : Type*) where
  logs : PersistenceId → Option JournalLog
  events : ℕ → List (JournalEvent P)
  snapshots : ℕ → Option (S × ℕ)

variable {P S : Type*}

def replayPageRows : ℕ := 1000

/-- Rows per `INSERT` statement. -/
def insertChunkRows : ℕ := 1000

theorem replayPageRows_pos : 0 < replayPageRows := by decide

/-- `events.chunks(n)`. -/
def chunks (n : ℕ) (events : List P) : List (List P) :=
  if _h : events = [] ∨ n = 0 then [] else events.take n :: chunks n (events.drop n)
termination_by events.length
decreasing_by
  have hpos : 0 < events.length := List.length_pos_iff.mpr fun he => _h (.inl he)
  have hn : 0 < n := Nat.pos_of_ne_zero fun hn => _h (.inr hn)
  rw [List.length_drop]
  omega

/-- The rows of one `INSERT`: the chunk's events under consecutive numbers. -/
def insertChunk (base chunkIndex : ℕ) (chunk : List P) : List (JournalEvent P) :=
  let chunkBase := base + chunkIndex * insertChunkRows
  chunk.zipIdx.map fun (payload, offset) => ⟨chunkBase + offset + 1, payload⟩

def insertRows (base : ℕ) (events : List P) : List (JournalEvent P) :=
  (chunks insertChunkRows events).zipIdx.flatMap fun (chunk, chunkIndex) =>
    insertChunk base chunkIndex chunk

namespace Tables

variable (t : Tables P S) (pid : PersistenceId)

/-- The id of the log of `pid`, if it has one. -/
def logId : Option ℕ := (t.logs pid).map (·.logId)

/-- The events of `pid` that no compaction has deleted. -/
def surviving : List (JournalEvent P) := (t.logs pid).elim [] fun log => t.events log.logId

/-- The number the log of `pid` ends at. -/
def lastSeq : ℕ := (t.logs pid).elim 0 (·.lastSeq)

/-- The log of `pid`, created under the id `fresh` if absent. -/
def logForWrite (fresh : ℕ) : Tables P S × JournalLog :=
  match t.logs pid with
  | some log => (t, log)
  | none => ({ t with logs := Function.update t.logs pid (some ⟨fresh, 0⟩) }, ⟨fresh, 0⟩)

def conflictError (log : JournalLog) (expected : ℕ) : JournalError :=
  .conflict s!"log {log.logId}" expected log.lastSeq

/-- `admit`: whether a writer that expects the log to end at `expected` is admitted. -/
def admitWriter (log : JournalLog) (expected : ℕ) : Except JournalError Unit :=
  if log.lastSeq = expected then .ok () else .error (conflictError log expected)

/-- Append a batch. A rejected writer's transaction is dropped with all it did. -/
def persist (events : List P) (expectedLastSeq fresh : ℕ) :
    Tables P S × Except JournalError Unit :=
  if events.isEmpty then (t, .ok ()) else
  let (tx, log) := t.logForWrite pid fresh
  -- the fence and the allocation are one `UPDATE`
  if log.lastSeq = expectedLastSeq then
    let lastSeq := log.lastSeq + events.length
    let base := lastSeq - events.length
    ({ tx with
        logs := Function.update tx.logs pid (some ⟨log.logId, lastSeq⟩)
        events := Function.update tx.events log.logId
          (tx.events log.logId ++ insertRows base events) }, .ok ())
  else (t, .error (conflictError log expectedLastSeq))

def saveSnapshot (state : S) (seqNr fresh : ℕ) : Tables P S × Except JournalError Unit :=
  let (tx, log) := t.logForWrite pid fresh
  match admitWriter log seqNr with
  | .error e => (t, .error e)
  | .ok () =>
    ({ tx with snapshots := Function.update tx.snapshots log.logId (some (state, seqNr)) }, .ok ())

/-- The snapshot of a log whose id has been looked up. -/
def latestSnapshot (found : Option ℕ) : Option (S × ℕ) := found.bind t.snapshots

/-- The events up to `seqNr` of a log whose id has been looked up are deleted; `last_seq` stays. -/
def deleteEventsBefore (found : Option ℕ) (seqNr : ℕ) : Tables P S :=
  match found with
  | none => t
  | some logId =>
    { t with
      events := Function.update t.events logId ((t.events logId).filter (seqNr < ·.seq)) }

/-- The destination starts with an empty log at the source's snapshot. -/
def copySnapshot (src dst : PersistenceId) (fresh : ℕ) : Tables P S × Except JournalError Unit :=
  match t.latestSnapshot (t.logId src) with
  | none => (t, .error (.noSnapshot src))
  | some (state, seq) =>
    let (tx, log) := t.logForWrite dst fresh
    ({ logs := Function.update tx.logs dst (some ⟨log.logId, seq⟩)
       events := Function.update tx.events log.logId []
       snapshots := Function.update tx.snapshots log.logId (some (state, seq)) }, .ok ())

/-- All rows of a log whose id has been looked up are deleted. -/
def clear (found : Option ℕ) : Tables P S :=
  match found with
  | none => t
  | some logId =>
    { logs := fun pid => (t.logs pid).filter (·.logId ≠ logId)
      events := Function.update t.events logId []
      snapshots := Function.update t.snapshots logId none }

end Tables

/-! ## Replays -/

/-- One replay's position. -/
structure Page (P : Type*) where
  logId : ℕ
  cursor : ℕ
  buffer : List (JournalEvent P)
  exhausted : Bool

namespace Page

/-- Fetch the next page and advance the cursor. A short page means the log is drained. -/
def fetch (page : Page P) (t : Tables P S) : Page P :=
  let rows := Lib.page JournalEvent.seq (t.events page.logId) page.cursor replayPageRows
  { page with
    exhausted := page.exhausted || decide (rows.length < replayPageRows)
    cursor := advance JournalEvent.seq page.cursor rows
    buffer := page.buffer ++ rows }

def next (page : Page P) (t : Tables P S) : Option (JournalEvent P) × Page P :=
  match page.buffer with
  | event :: rest => (some event, { page with buffer := rest })
  | [] =>
    if page.exhausted then (none, page) else
    let fetched := page.fetch t
    match fetched.buffer with
    | event :: rest => (some event, { fetched with buffer := rest })
    -- a page with no row is a short one: the stream ends
    | [] => (none, fetched)

/-- The rest of the stream over tables that do not change, in at most `fuel` polls. -/
def collect (t : Tables P S) : ℕ → Page P → Option (List (JournalEvent P))
  | 0, _ => none
  | fuel + 1, page =>
    match page.next t with
    | (none, _) => some []
    | (some event, rest) => (collect t fuel rest).map (event :: ·)

end Page

/-- The stream of the events after `afterSeq` of a log whose id has been looked up. -/
def replay (found : Option ℕ) (afterSeq : ℕ) : Page P :=
  match found with
  | some logId => ⟨logId, afterSeq, [], false⟩
  -- the empty stream
  | none => ⟨0, afterSeq, [], true⟩

/-! ## Writers -/

/-- A transaction of some writer on some log. `fresh` is the id the database gives a new log, and
`found` the id an earlier statement found. -/
inductive Write (P S : Type*)
  | persist (pid : PersistenceId) (events : List P) (expectedLastSeq fresh : ℕ)
  | saveSnapshot (pid : PersistenceId) (state : S) (seqNr fresh : ℕ)
  | deleteEventsBefore (found : Option ℕ) (seqNr : ℕ)
  | copySnapshot (src dst : PersistenceId) (fresh : ℕ)
  | clear (found : Option ℕ)

namespace Write

def run (t : Tables P S) : Write P S → Tables P S
  | persist pid events expected fresh => (t.persist pid events expected fresh).1
  | saveSnapshot pid state seqNr fresh => (t.saveSnapshot pid state seqNr fresh).1
  | deleteEventsBefore found seqNr => t.deleteEventsBefore found seqNr
  | copySnapshot src dst fresh => (t.copySnapshot src dst fresh).1
  | clear found => t.clear found

def fresh? : Write P S → Option ℕ
  | persist _ _ _ fresh | saveSnapshot _ _ _ fresh | copySnapshot _ _ fresh => some fresh
  | deleteEventsBefore .. | clear _ => none

/-- The transactions that may move `last_seq` back. -/
def resets : Write P S → Bool
  | copySnapshot .. | clear _ => true
  | persist .. | saveSnapshot .. | deleteEventsBefore .. => false

end Write

namespace Tables

def Unused (t : Tables P S) (logId : ℕ) : Prop :=
  ∀ pid log, t.logs pid = some log → log.logId ≠ logId

def empty : Tables P S := ⟨fun _ => none, fun _ => [], fun _ => none⟩

end Tables

/-- Any number of writers, each transaction whole. A new log gets an id that is not in use; one
database may give the id of a log that was cleared again. -/
def journal (P S : Type*) : System (Tables P S) (Write P S) where
  Init t := t = .empty
  Step t w t' := (∀ fresh, w.fresh? = some fresh → t.Unused fresh) ∧ t' = w.run t

/-! ## The numbers of a batch -/

/-- The events under consecutive numbers, the first after `base`. -/
def number (base : ℕ) (events : List P) : List (JournalEvent P) :=
  (events.zipIdx base).map fun (payload, i) => ⟨i + 1, payload⟩

theorem map_seq_number (base : ℕ) (events : List P) :
    (number base events).map (·.seq) = List.range' (base + 1) events.length := by
  induction events generalizing base with
  | nil => rfl
  | cons event events ih =>
    rw [List.length_cons, List.range'_succ, ← ih (base + 1)]
    rfl

@[simp] theorem length_number (base : ℕ) (events : List P) :
    (number base events).length = events.length := by
  rw [number, List.length_map, List.length_zipIdx]

theorem number_append (base : ℕ) (xs ys : List P) :
    number base (xs ++ ys) = number base xs ++ number (base + xs.length) ys := by
  rw [number, List.zipIdx_append, List.map_append]
  rfl

theorem insertChunk_eq (base chunkIndex : ℕ) (chunk : List P) :
    insertChunk base chunkIndex chunk = number (base + chunkIndex * insertChunkRows) chunk := by
  unfold insertChunk number
  rw [List.zipIdx_eq_map_add (l := chunk) (i := base + chunkIndex * insertChunkRows), List.map_map]
  rfl

theorem insertRows_eq (base : ℕ) (events : List P) :
    insertRows base events = number base events := by
  have hchunks : ∀ (len chunkIndex : ℕ) (events : List P), events.length = len →
      ((chunks insertChunkRows events).zipIdx chunkIndex).flatMap
        (fun x => insertChunk base x.2 x.1) =
          number (base + chunkIndex * insertChunkRows) events := by
    intro len
    induction len using Nat.strong_induction_on with
    | h len ih =>
      intro chunkIndex events hlen
      rw [chunks]
      split_ifs with hstop
      · obtain rfl := hstop.resolve_right (by decide)
        rfl
      · obtain ⟨hne, -⟩ := not_or.mp hstop
        have hpos : 0 < events.length := List.length_pos_iff.mpr hne
        have hrows : 0 < insertChunkRows := by decide
        have hdrop : (events.drop insertChunkRows).length < len := by
          rw [List.length_drop]
          omega
        rw [List.zipIdx_cons, List.flatMap_cons, ih _ hdrop (chunkIndex + 1) _ rfl, insertChunk_eq]
        conv_rhs => rw [← List.take_append_drop insertChunkRows events, number_append]
        congr 1
        by_cases hlast : events.length ≤ insertChunkRows
        · rw [List.drop_of_length_le hlast]
          simp only [number, List.zipIdx_nil, List.map_nil]
        · rw [List.length_take, min_eq_left (Nat.le_of_not_le hlast), Nat.succ_mul, Nat.add_assoc]
  have h := hchunks _ 0 events rfl
  rw [Nat.zero_mul, Nat.add_zero] at h
  exact h

/-! ## The invariant -/

/-- The events' numbers are consecutive and end at `lastSeq`. -/
def Contiguous (events : List (JournalEvent P)) (lastSeq : ℕ) : Prop :=
  ∃ first, first + events.length = lastSeq ∧
    events.map (·.seq) = List.range' (first + 1) events.length

theorem Contiguous.nil (lastSeq : ℕ) : Contiguous ([] : List (JournalEvent P)) lastSeq :=
  ⟨lastSeq, rfl, rfl⟩

variable {events : List (JournalEvent P)} {lastSeq : ℕ}

theorem Contiguous.append_number
    (h : Contiguous events lastSeq) (batch : List P) :
    Contiguous (events ++ number lastSeq batch) (lastSeq + batch.length) := by
  obtain ⟨first, hlen, hseq⟩ := h
  refine ⟨first, by rw [List.length_append, length_number]; omega, ?_⟩
  rw [List.map_append, hseq, map_seq_number, List.length_append, length_number, ← hlen,
    Nat.add_right_comm, List.range'_append_1]

theorem filter_lt_range' (m s n : ℕ) :
    (List.range' s n).filter (m < ·) = List.range' (s + (m + 1 - s)) (n - (m + 1 - s)) := by
  induction n generalizing s with
  | zero => rw [Nat.zero_sub]; rfl
  | succ n ih =>
    rw [List.range'_succ, List.filter_cons, ih (s + 1)]
    by_cases h : m < s
    · have hs : m + 1 - s = 0 := by omega
      have hs' : m + 1 - (s + 1) = 0 := by omega
      rw [if_pos (decide_eq_true h), hs, hs']
      rfl
    · rw [if_neg (by rw [decide_eq_true_eq]; exact h)]
      congr 1 <;> omega

theorem Contiguous.filter
    (h : Contiguous events lastSeq) (seqNr : ℕ) :
    Contiguous (events.filter (seqNr < ·.seq)) lastSeq := by
  obtain ⟨first, hlen, hseq⟩ := h
  have hmap : (events.filter (seqNr < ·.seq)).map (·.seq) =
      List.range' (first + 1 + (seqNr + 1 - (first + 1)))
        (events.length - (seqNr + 1 - (first + 1))) := by
    rw [← filter_lt_range', ← hseq, List.filter_map]
    rfl
  have hrest : (events.filter (seqNr < ·.seq)).length =
      events.length - (seqNr + 1 - (first + 1)) := by
    rw [← List.length_map (f := (·.seq)), hmap, List.length_range']
  by_cases hall : seqNr ≤ lastSeq
  · refine ⟨first + (seqNr + 1 - (first + 1)), by omega, ?_⟩
    rw [hmap, hrest]
    congr 1
    omega
  · have hnil : events.filter (seqNr < ·.seq) = [] := List.length_eq_zero_iff.mp (by omega)
    rw [hnil]
    exact .nil lastSeq

theorem Contiguous.strictlySorted
    (h : Contiguous events lastSeq) : events.Pairwise (·.seq < ·.seq) := by
  obtain ⟨first, -, hseq⟩ := h
  have hlt := List.pairwise_lt_range' (s := first + 1) (n := events.length)
  rw [← hseq, List.pairwise_map] at hlt
  exact hlt

namespace Tables

variable {t : Tables P S} {pid : PersistenceId} {log : JournalLog} {fresh : ℕ}

/-- `log` is what a writer finds for `pid`, or creates. -/
def Opens (t : Tables P S) (pid : PersistenceId) (fresh : ℕ) (log : JournalLog) : Prop :=
  t.logs pid = some log ∨ t.logs pid = none ∧ log = ⟨fresh, 0⟩

theorem logForWrite_eq (t : Tables P S) (pid : PersistenceId) (fresh : ℕ) :
    ∃ log, t.Opens pid fresh log ∧
      t.logForWrite pid fresh =
        ({ t with logs := Function.update t.logs pid (some log) }, log) := by
  unfold logForWrite
  cases h : t.logs pid with
  | some log =>
    have hsame : Function.update t.logs pid (some log) = t.logs :=
      Function.update_eq_self_iff.mpr h.symm
    exact ⟨log, .inl h, by rw [hsame]⟩
  | none => exact ⟨_, .inr ⟨h, rfl⟩, rfl⟩

theorem Opens.lastSeq_eq (h : t.Opens pid fresh log) : t.lastSeq pid = log.lastSeq := by
  unfold lastSeq
  rcases h with h | ⟨h, rfl⟩ <;> rw [h] <;> rfl

/-- Each log has an id of its own, its events are contiguous up to `last_seq`, and an id without a
log has no events. -/
structure WellFormed (t : Tables P S) : Prop where
  ids : ∀ pid pid' log log', t.logs pid = some log → t.logs pid' = some log' →
    log.logId = log'.logId → pid = pid'
  contiguous : ∀ pid log, t.logs pid = some log → Contiguous (t.events log.logId) log.lastSeq
  orphan : ∀ logId, t.Unused logId → t.events logId = []

theorem WellFormed.empty : (Tables.empty : Tables P S).WellFormed where
  ids _ _ _ _ h := absurd h.symm (Option.some_ne_none _)
  contiguous _ _ h := absurd h.symm (Option.some_ne_none _)
  orphan _ _ := rfl

theorem WellFormed.owner (hwf : t.WellFormed) (hfresh : t.Unused fresh)
    (hlog : t.Opens pid fresh log) {pid' : PersistenceId} {log' : JournalLog}
    (h : t.logs pid' = some log') (hid : log'.logId = log.logId) : pid' = pid := by
  rcases hlog with hlog | ⟨-, rfl⟩
  · exact hwf.ids _ _ _ _ h hlog hid
  · exact absurd hid (hfresh _ _ h)

theorem WellFormed.opened (hwf : t.WellFormed) (hfresh : t.Unused fresh)
    (hlog : t.Opens pid fresh log) : Contiguous (t.events log.logId) log.lastSeq := by
  rcases hlog with hlog | ⟨-, rfl⟩
  · exact hwf.contiguous _ _ hlog
  · rw [hwf.orphan _ hfresh]
    exact .nil 0

theorem WellFormed.write (hwf : t.WellFormed) (hfresh : t.Unused fresh)
    (hlog : t.Opens pid fresh log) {lastSeq : ℕ} {events : List (JournalEvent P)}
    (hevents : Contiguous events lastSeq) (snapshots : ℕ → Option (S × ℕ)) :
    WellFormed ⟨Function.update t.logs pid (some ⟨log.logId, lastSeq⟩),
      Function.update t.events log.logId events, snapshots⟩ where
  ids := by
    intro p q logp logq hp hq hid
    simp only [Function.update_apply] at hp hq
    split_ifs at hp hq with hpp hqq hqq
    · rw [hpp, hqq]
    · cases hp
      exact absurd (hwf.owner hfresh hlog hq hid.symm) hqq
    · cases hq
      exact absurd (hwf.owner hfresh hlog hp hid) hpp
    · exact hwf.ids _ _ _ _ hp hq hid
  contiguous := by
    intro p logp hp
    simp only [Function.update_apply] at hp
    split_ifs at hp with hpp
    · cases hp
      simpa only [Function.update_self] using hevents
    · have hne : logp.logId ≠ log.logId := fun hid => hpp (hwf.owner hfresh hlog hp hid)
      simpa only [Function.update_of_ne hne] using hwf.contiguous _ _ hp
  orphan := by
    intro logId hunused
    have hne : logId ≠ log.logId := fun h =>
      hunused pid ⟨log.logId, lastSeq⟩ (by simp only [Function.update_self]) h.symm
    simp only [Function.update_of_ne hne]
    refine hwf.orphan _ fun p logp hp hid => ?_
    by_cases hpp : p = pid
    · subst hpp
      rcases hlog with hlog | ⟨hlog, -⟩
      · rw [hlog] at hp
        exact hne (hid.symm.trans (congrArg JournalLog.logId (Option.some.inj hp).symm))
      · exact absurd (hp.symm.trans hlog) (Option.some_ne_none _)
    · exact hunused p logp (by simpa only [Function.update_of_ne hpp] using hp) hid

end Tables

end Horsie.Db
