import Horsie.Lib.Keyset
import Horsie.Lib.Transition

/-!
# The event log's store

The tables `event_log` and `event_log_offsets`, with appends as transactions of several inserts
among any others. On PostgreSQL an id is drawn before its transaction commits, a transaction id is
fixed at the first write, and a read admits only rows of transactions older than every running one.
On SQLite the writers take turns.

A reader is a consumer group of a stream. `handed` records the ids it was handed.
-/

namespace Horsie.EventLog

open Horsie.Lib

inductive Dialect
  | sqlite
  | postgres
deriving DecidableEq

/-- A row of `event_log`. -/
structure Row (P : Type*) where
  id : ℕ
  stream : String
  eventId : String
  payload : P
  xid : ℕ
deriving DecidableEq

/-- An open write transaction and the rows it has inserted. -/
structure Tx (P : Type*) where
  xid : Option ℕ
  rows : List (Row P)

abbrev Group := String × String

structure Log (P : Type*) where
  committed : List (Row P)
  running : List (Tx P)
  nextId : ℕ
  nextXid : ℕ
  offsets : Group → Option ℕ
  looked : List (Group × ℕ)
  handed : List (Group × ℕ)

variable {P E : Type*}

namespace Log

variable (s : Log P)

def empty : Log P := ⟨[], [], 1, 1, fun _ => none, [], []⟩

def rows : List (Row P) := s.committed ++ s.running.flatMap (·.rows)

/-- `pg_snapshot_xmin(pg_current_snapshot())`: the oldest running transaction. -/
def xmin : ℕ := ((s.running.filterMap (·.xid)).min?).getD s.nextXid

/-- The gate of a read. -/
def admits (d : Dialect) (row : Row P) : Bool :=
  match d with
  | .sqlite => true
  | .postgres => decide (row.xid < s.xmin)

def visible (d : Dialect) (stream : String) : List (Row P) :=
  s.committed.filter fun row => decide (row.stream = stream) && s.admits d row

def page (d : Dialect) (stream : String) (cursor limit : ℕ) : List (Row P) :=
  Lib.page Row.id (s.visible d stream) cursor limit

def read (decode : P → Option E) (d : Dialect) (stream : String) (cursor limit : ℕ) :
    List (ℕ × E) :=
  (s.page d stream cursor limit).filterMap fun row => (decode row.payload).map (row.id, ·)

def conflicts (rows : List (Row P)) (stream eventId : String) : Bool :=
  rows.any fun row => decide (row.stream = stream) && decide (row.eventId = eventId)

def insert (tx : Tx P) (stream eventId : String) (payload : P) : Tx P :=
  let xid := tx.xid.getD s.nextXid
  ⟨some xid, if conflicts (s.committed ++ tx.rows) stream eventId then tx.rows
    else tx.rows ++ [⟨s.nextId, stream, eventId, payload, xid⟩]⟩

/-- A write of another kind: it fixes the transaction's id. -/
def touch (tx : Tx P) : Tx P := ⟨some (tx.xid.getD s.nextXid), tx.rows⟩

/-- The next transaction id once `tx` has written. -/
def nextXidAfter (tx : Tx P) : ℕ := if tx.xid.isNone then s.nextXid + 1 else s.nextXid

/-- A cursor never goes back. -/
def ack (group : Group) (upTo : ℕ) : Group → Option ℕ :=
  Function.update s.offsets group (some (((s.offsets group).elim upTo) (max · upTo)))

/-- What every one of `groups` has acked is dropped; one that has acked nothing pins the log. -/
def trim (stream : String) (groups : List String) : List (Row P) :=
  match (groups.mapM fun group => s.offsets (stream, group)).bind List.min? with
  | none => s.committed
  | some floor => s.committed.filter fun row =>
    !(decide (row.stream = stream) && decide (row.id ≤ floor))

end Log

/-- What happens to the log: a statement of some transaction, or an operation of some group. -/
inductive Act (P : Type*)
  | begin
  | insert (stream eventId : String) (payload : P)
  | touch
  | commit
  | abort
  | look (group : Group)
  | read (group : Group) (cursor limit : ℕ)
  | ack (group : Group) (upTo : ℕ)
  | trim (stream : String) (groups : List String)

inductive Step (decode : P → Option E) (d : Dialect) : Log P → Act P → Log P → Prop
  | begin {s : Log P} (h : d = .sqlite → s.running = []) :
      Step decode d s .begin { s with running := s.running ++ [⟨none, []⟩] }
  | insert {s : Log P} {pre post : List (Tx P)} {tx : Tx P} {stream eventId : String} {payload : P}
      (h : s.running = pre ++ tx :: post)
      (hwait : ∀ other ∈ pre ++ post, Log.conflicts other.rows stream eventId = false) :
      Step decode d s (.insert stream eventId payload) { s with
        running := pre ++ s.insert tx stream eventId payload :: post
        nextId := s.nextId + 1
        nextXid := s.nextXidAfter tx }
  | touch {s : Log P} {pre post : List (Tx P)} {tx : Tx P} (h : s.running = pre ++ tx :: post) :
      Step decode d s .touch { s with
        running := pre ++ s.touch tx :: post
        nextXid := s.nextXidAfter tx }
  | commit {s : Log P} {pre post : List (Tx P)} {tx : Tx P} (h : s.running = pre ++ tx :: post) :
      Step decode d s .commit { s with
        committed := s.committed ++ tx.rows
        running := pre ++ post }
  | abort {s : Log P} {pre post : List (Tx P)} {tx : Tx P} (h : s.running = pre ++ tx :: post) :
      Step decode d s .abort { s with running := pre ++ post }
  | look {s : Log P} (group : Group) :
      Step decode d s (.look group) { s with
        looked := s.looked ++ [(group, (s.offsets group).getD 0)] }
  | read {s : Log P} {group : Group} {cursor : ℕ} (limit : ℕ) (h : (group, cursor) ∈ s.looked) :
      Step decode d s (.read group cursor limit) { s with
        handed := s.handed ++ (s.read decode d group.1 cursor limit).map fun x => (group, x.1) }
  | ack {s : Log P} {group : Group} {upTo : ℕ} (h : (group, upTo) ∈ s.handed) :
      Step decode d s (.ack group upTo) { s with offsets := s.ack group upTo }
  | trim {s : Log P} (stream : String) (groups : List String) :
      Step decode d s (.trim stream groups) { s with committed := s.trim stream groups }

/-- Any number of writers, and of groups that read, ack and trim. -/
def eventLog (decode : P → Option E) (d : Dialect) : System (Log P) (Act P) where
  Init s := s = .empty
  Step := Step decode d

/-! ## What the log promises -/

/-- No cursor has passed an event in the log that decodes and that its group was not handed. -/
def SkipsNothing (decode : P → Option E) (s : Log P) : Prop :=
  ∀ group cursor, s.offsets group = some cursor → ∀ row ∈ s.committed, row.stream = group.1 →
    (decode row.payload).isSome → row.id ≤ cursor → (group, row.id) ∈ s.handed

/-- A read returns nothing only when its group was handed every event that decodes and that the
gate admits. -/
def Act.EmptyMeansDone (decode : P → Option E) (d : Dialect) (s : Log P) (a : Act P) : Prop :=
  ∀ group cursor limit, a = .read group cursor limit → s.read decode d group.1 cursor limit = [] →
    ∀ row ∈ s.visible d group.1, (decode row.payload).isSome → (group, row.id) ∈ s.handed

/-- A read hands out no id above that of an event of the stream that the gate still hides: one of a
running transaction, or of one younger than a running one. -/
def Act.InOrder (decode : P → Option E) (d : Dialect) (s : Log P) (a : Act P) : Prop :=
  ∀ group cursor limit, a = .read group cursor limit →
    ∀ x ∈ s.read decode d group.1 cursor limit, ∀ row ∈ s.rows, row.stream = group.1 →
      (decode row.payload).isSome → cursor < row.id → row ∉ s.visible d group.1 → x.1 < row.id

/-- A page above which an event decodes holds one that does. -/
def Act.PageDecodes (decode : P → Option E) (d : Dialect) (s : Log P) (a : Act P) : Prop :=
  ∀ group cursor limit, a = .read group cursor limit →
    (∃ row ∈ s.visible d group.1, cursor < row.id ∧ (decode row.payload).isSome) →
      s.read decode d group.1 cursor limit ≠ []

end Horsie.EventLog
