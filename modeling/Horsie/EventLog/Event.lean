import Mathlib
import Horsie.EventLog.Store
import Horsie.Lib.Escape

/-!
# Event identity

The id of an event is its kind and the fields that tell it from others, escaped and joined; the log
drops an append under an id it has. The id tells any two events apart that differ in these fields.
An observation of a run has no field beyond the state it reports: a run that comes back to a state
is observed under the id of the first time.
-/

namespace Horsie.EventLog

open Horsie.Lib

inductive ProjectEvent
  | agentRunObserved (sessionId agentId : String) (preset : Option String) (status : String)
      (startedAt : ℤ) (endedAt : Option ℤ)
  | agentParked (sessionId agentId question : String) (choices : List String) (multiple : Bool)
      (toolCallId : String)
  | agentResumed (sessionId agentId : String) (atMs : ℤ)
deriving DecidableEq

/-- `p.replace('\\', r"\\").replace(':', r"\:")` of each segment, joined by `:`. -/
def join (parts : List String) : String :=
  String.ofList (joined '\\' ':' (parts.map String.toList))

inductive EventKey
  | agentRun (sessionId agentId status : String) (endedAt : Option ℤ)
  | agentParked (sessionId agentId toolCallId : String)
  | agentResumed (sessionId agentId : String) (atMs : ℤ)
deriving DecidableEq

namespace ProjectEvent

/-- What the log dedups on. -/
def id : ProjectEvent → String
  | agentRunObserved sessionId agentId _ status _ endedAt =>
    join ["agent-run", sessionId, agentId, status, (endedAt.map toString).getD ""]
  | agentParked sessionId agentId _ _ _ toolCallId =>
    join ["agent-parked", sessionId, agentId, toolCallId]
  | agentResumed sessionId agentId atMs =>
    join ["agent-resumed", sessionId, agentId, toString atMs]

def key : ProjectEvent → EventKey
  | agentRunObserved sessionId agentId _ status _ endedAt =>
    .agentRun sessionId agentId status endedAt
  | agentParked sessionId agentId _ _ _ toolCallId => .agentParked sessionId agentId toolCallId
  | agentResumed sessionId agentId atMs => .agentResumed sessionId agentId atMs

end ProjectEvent

theorem join_injective {ps qs : List String} (hp : ps ≠ []) (hq : qs ≠ [])
    (h : join ps = join qs) : ps = qs := by
  have hjoined := joined_injective (by decide : '\\' ≠ ':') (mt List.map_eq_nil_iff.mp hp)
    (mt List.map_eq_nil_iff.mp hq) (String.ofList_injective h)
  exact List.map_injective_iff.mpr (fun _ _ => String.toList_inj.mp) hjoined

theorem endedAt_injective {a b : Option ℤ}
    (h : (a.map toString).getD "" = (b.map toString).getD "") : a = b := by
  have hne : ∀ n : ℤ, toString n ≠ "" := by
    intro n hn
    cases n with
    | ofNat n => exact Nat.repr_ne_empty hn
    | negSucc n =>
      have hminus : "-" ++ (n + 1).repr = "" := hn
      simpa using congrArg String.toList hminus
  cases a with
  | none =>
    cases b with
    | none => rfl
    | some b => exact absurd h.symm (hne b)
  | some a =>
    cases b with
    | none => exact absurd h (hne a)
    | some b => exact congrArg some (Int.repr_injective h)

namespace ProjectEvent

/-- Two events share an id exactly if they share the fields that identify them. -/
theorem id_eq_iff (e e' : ProjectEvent) : e.id = e'.id ↔ e.key = e'.key := by
  constructor
  · intro h
    cases e <;> cases e' <;>
      have hparts := join_injective (List.cons_ne_nil _ _) (List.cons_ne_nil _ _) h <;>
      simp only [List.cons.injEq, and_true] at hparts
    case agentRunObserved.agentRunObserved =>
      obtain ⟨-, hsession, hagent, hstatus, hended⟩ := hparts
      rw [key, key, hsession, hagent, hstatus, endedAt_injective hended]
    case agentParked.agentParked =>
      obtain ⟨-, hsession, hagent, hcall⟩ := hparts
      rw [key, key, hsession, hagent, hcall]
    case agentResumed.agentResumed =>
      obtain ⟨-, hsession, hagent, hat⟩ := hparts
      rw [key, key, hsession, hagent, Int.repr_injective hat]
    all_goals exact absurd hparts.1 (by decide)
  · intro h
    cases e <;> cases e' <;> simp only [key, EventKey.agentRun.injEq, EventKey.agentParked.injEq,
      EventKey.agentResumed.injEq, reduceCtorEq] at h <;> simp only [id, h]

end ProjectEvent

/-! ## Appends -/

namespace Log

variable (s : Log ProjectEvent) (stream : String)

def appendLoop (s : Log ProjectEvent) (tx : Tx ProjectEvent) :
    List ProjectEvent → Log ProjectEvent × Tx ProjectEvent
  | [] => (s, tx)
  | event :: events =>
    appendLoop { s with nextId := s.nextId + 1, nextXid := s.nextXidAfter tx }
      (s.insert tx stream event.id event) events

/-- One append, with no other transaction between its inserts. -/
def append (events : List ProjectEvent) : Log ProjectEvent :=
  if events.isEmpty then s else
  let (s, tx) := appendLoop stream s ⟨none, []⟩ events
  { s with committed := s.committed ++ tx.rows }

def appendAll : List (List ProjectEvent) → Log ProjectEvent :=
  List.foldl (fun s events => s.append stream events) s

end Log

def eventIds (stream : String) (rows : List (Row ProjectEvent)) : List String :=
  (rows.filter (·.stream = stream)).map (·.eventId)

/-- The events of a list that are the first under their id, where the ids `seen` are taken. -/
def firsts (seen : List String) : List ProjectEvent → List ProjectEvent
  | [] => []
  | event :: events =>
    if event.id ∈ seen then firsts seen events else event :: firsts (event.id :: seen) events

theorem firsts_congr {seen seen' : List String} (h : ∀ id, id ∈ seen ↔ id ∈ seen')
    (events : List ProjectEvent) : firsts seen events = firsts seen' events := by
  induction events generalizing seen seen' with
  | nil => rfl
  | cons event events ih =>
    have hcons : ∀ id, id ∈ event.id :: seen ↔ id ∈ event.id :: seen' := fun id => by
      rw [List.mem_cons, List.mem_cons, h id]
    rw [firsts, firsts, ih h, ih hcons, if_congr (h event.id) rfl rfl]

theorem firsts_append (seen : List String) (xs ys : List ProjectEvent) :
    firsts seen (xs ++ ys) = firsts seen xs ++ firsts (seen ++ xs.map (·.id)) ys := by
  induction xs generalizing seen with
  | nil => rw [List.map_nil, List.append_nil]; rfl
  | cons x xs ih =>
    rw [List.cons_append, firsts, firsts, ih, ih]
    split_ifs with hx
    · congr 1
      refine firsts_congr (fun id => ?_) ys
      rw [List.map_cons, List.mem_append, List.mem_append, List.mem_cons]
      constructor
      · exact fun h => h.imp_right .inr
      · rintro (h | rfl | h)
        · exact .inl h
        · exact .inl hx
        · exact .inr h
    · rw [List.cons_append]
      congr 2
      refine firsts_congr (fun id => ?_) ys
      simp only [List.map_cons, List.mem_append, List.mem_cons]
      tauto

/-- Nothing is dropped exactly if no id is taken and none is repeated. -/
theorem firsts_eq_self_iff (seen : List String) (events : List ProjectEvent) :
    firsts seen events = events ↔
      (events.map (·.id)).Nodup ∧ ∀ event ∈ events, event.id ∉ seen := by
  have hlen : ∀ (seen : List String) (events : List ProjectEvent),
      (firsts seen events).length ≤ events.length := by
    intro seen events
    induction events generalizing seen with
    | nil => exact le_rfl
    | cons event events ih =>
      rw [firsts]
      split_ifs
      · exact (ih seen).trans (Nat.le_succ _)
      · exact Nat.succ_le_succ (ih _)
  induction events generalizing seen with
  | nil => simp [firsts]
  | cons event events ih =>
    rw [firsts, List.map_cons, List.nodup_cons, List.forall_mem_cons]
    split_ifs with hseen
    · constructor
      · intro h
        have hle := hlen seen events
        rw [h, List.length_cons] at hle
        omega
      · exact fun h => absurd hseen h.2.1
    · rw [List.cons.injEq]
      refine (and_congr_right fun _ => ih (event.id :: seen)).trans ?_
      simp only [List.mem_cons, not_or, List.mem_map, not_exists, not_and, true_and]
      constructor
      · rintro ⟨hnodup, hall⟩
        exact ⟨⟨fun x hx hid => (hall x hx).1 hid, hnodup⟩, hseen, fun x hx => (hall x hx).2⟩
      · rintro ⟨⟨hout, hnodup⟩, -, hall⟩
        exact ⟨hnodup, fun x hx => ⟨hout x hx, hall x hx⟩⟩

variable {rows : List (Row ProjectEvent)} {stream : String}

theorem conflicts_iff {id : String} :
    Log.conflicts rows stream id = true ↔ id ∈ eventIds stream rows := by
  rw [Log.conflicts, List.any_eq_true, eventIds, List.mem_map]
  constructor
  · rintro ⟨row, hrow, h⟩
    rw [Bool.and_eq_true, decide_eq_true_eq, decide_eq_true_eq] at h
    exact ⟨row, List.mem_filter.mpr ⟨hrow, decide_eq_true h.1⟩, h.2⟩
  · rintro ⟨row, hrow, rfl⟩
    obtain ⟨hrow, hstream⟩ := List.mem_filter.mp hrow
    exact ⟨row, hrow, by rw [Bool.and_eq_true]; exact ⟨hstream, decide_eq_true rfl⟩⟩

def Holds (stream : String) (rows : List (Row ProjectEvent)) (events : List ProjectEvent) : Prop :=
  rows.map (·.payload) = events ∧ ∀ row ∈ rows, row.stream = stream ∧ row.eventId = row.payload.id

theorem Holds.append {rows' : List (Row ProjectEvent)}
    {events events' : List ProjectEvent} (h : Holds stream rows events)
    (h' : Holds stream rows' events') : Holds stream (rows ++ rows') (events ++ events') :=
  ⟨by rw [List.map_append, h.1, h'.1],
    fun row hrow => (List.mem_append.mp hrow).elim (h.2 row) (h'.2 row)⟩

theorem Holds.eventIds
    {events : List ProjectEvent} (h : Holds stream rows events) :
    eventIds stream rows = events.map (·.id) := by
  have hall : rows.filter (·.stream = stream) = rows :=
    List.filter_eq_self.mpr fun row hrow => decide_eq_true (h.2 row hrow).1
  rw [EventLog.eventIds, hall, ← h.1, List.map_map]
  exact List.map_congr_left fun row hrow => (h.2 row hrow).2

theorem eventIds_append (stream : String) (rows rows' : List (Row ProjectEvent)) :
    eventIds stream (rows ++ rows') = eventIds stream rows ++ eventIds stream rows' := by
  rw [eventIds, List.filter_append, List.map_append]
  rfl

namespace Log

variable {s : Log ProjectEvent} {stream : String}

/-- A transaction's inserts add a row for each event that is the first under its id. -/
theorem appendLoop_rows (events : List ProjectEvent) (s : Log ProjectEvent)
    (tx : Tx ProjectEvent) :
    (appendLoop stream s tx events).1.committed = s.committed ∧
      ∃ new, (appendLoop stream s tx events).2.rows = tx.rows ++ new ∧
        Holds stream new (firsts (eventIds stream (s.committed ++ tx.rows)) events) := by
  induction events generalizing s tx with
  | nil =>
    exact ⟨rfl, [], (List.append_nil _).symm, rfl, fun row hrow => absurd hrow List.not_mem_nil⟩
  | cons event events ih =>
    rw [appendLoop]
    obtain ⟨hcommitted, new, hnew, hholds⟩ :=
      ih { s with nextId := s.nextId + 1, nextXid := s.nextXidAfter tx }
        (s.insert tx stream event.id event)
    refine ⟨hcommitted, ?_⟩
    rw [hnew]
    by_cases hid : event.id ∈ eventIds stream (s.committed ++ tx.rows)
    · have hrows : (s.insert tx stream event.id event).rows = tx.rows := by
        simp only [insert, conflicts_iff.mpr hid, if_true]
      rw [hrows] at hholds ⊢
      rw [firsts, if_pos hid]
      exact ⟨new, rfl, hholds⟩
    · have hone : ∃ row, (s.insert tx stream event.id event).rows = tx.rows ++ [row] ∧
          Holds stream [row] [event] := by
        refine ⟨⟨s.nextId, stream, event.id, event, tx.xid.getD s.nextXid⟩, ?_, rfl,
          List.forall_mem_singleton.mpr ⟨rfl, rfl⟩⟩
        have hno : conflicts (s.committed ++ tx.rows) stream event.id = false :=
          Bool.eq_false_iff.mpr fun h => hid (conflicts_iff.mp h)
        simp only [insert, hno, Bool.false_eq_true, if_false]
      obtain ⟨row, hrows, hrow⟩ := hone
      rw [hrows] at hholds ⊢
      refine ⟨row :: new, by rw [List.append_assoc]; rfl, ?_⟩
      rw [firsts, if_neg hid]
      have hseen : ∀ id, id ∈ eventIds stream (s.committed ++ (tx.rows ++ [row])) ↔
          id ∈ event.id :: eventIds stream (s.committed ++ tx.rows) := fun id => by
        rw [← List.append_assoc, eventIds_append, hrow.eventIds, List.mem_append, List.mem_cons,
          List.map_singleton, List.mem_singleton]
        exact Or.comm
      rw [firsts_congr hseen] at hholds
      exact hrow.append hholds

theorem append_committed (s : Log ProjectEvent) (stream : String) (events : List ProjectEvent) :
    ∃ new, (s.append stream events).committed = s.committed ++ new ∧
      Holds stream new (firsts (eventIds stream s.committed) events) := by
  unfold append
  cases events with
  | nil => exact ⟨[], (List.append_nil _).symm, rfl, fun row hrow => absurd hrow List.not_mem_nil⟩
  | cons event events =>
    obtain ⟨hcommitted, new, hnew, hholds⟩ :=
      appendLoop_rows (event :: events) s ⟨none, []⟩
    rw [List.append_nil] at hholds
    refine ⟨new, ?_, hholds⟩
    simp only [List.isEmpty_cons, Bool.false_eq_true, if_false]
    rw [hcommitted, hnew, List.nil_append]

theorem mem_eventIds_append {events : List ProjectEvent} {id : String} :
    id ∈ eventIds stream (s.append stream events).committed ↔
      id ∈ eventIds stream s.committed ++ events.map (·.id) := by
  have hfirsts : ∀ (seen : List String) (events : List ProjectEvent),
      id ∈ seen ++ (firsts seen events).map (·.id) ↔ id ∈ seen ++ events.map (·.id) := by
    intro seen events
    induction events generalizing seen with
    | nil => rfl
    | cons event events ih =>
      rw [firsts]
      split_ifs with hseen
      · rw [ih, List.map_cons, List.mem_append, List.mem_append, List.mem_cons]
        constructor
        · exact fun h => h.imp_right .inr
        · rintro (h | rfl | h)
          · exact .inl h
          · exact .inl hseen
          · exact .inr h
      · have hrest := ih (event.id :: seen)
        simp only [List.map_cons, List.mem_append, List.mem_cons] at hrest ⊢
        tauto
  obtain ⟨new, hnew, hholds⟩ := s.append_committed stream events
  rw [hnew, eventIds_append, hholds.eventIds]
  exact hfirsts _ events

/-- Appends add a row for each event that is the first under its id, however they are batched. -/
theorem appendAll_committed (batches : List (List ProjectEvent)) (s : Log ProjectEvent) :
    ∃ new, (s.appendAll stream batches).committed = s.committed ++ new ∧
      Holds stream new (firsts (eventIds stream s.committed) batches.flatten) := by
  induction batches generalizing s with
  | nil => exact ⟨[], (List.append_nil _).symm, rfl, fun row hrow => absurd hrow List.not_mem_nil⟩
  | cons events batches ih =>
    obtain ⟨new, hnew, hholds⟩ := s.append_committed stream events
    obtain ⟨more, hmore, hrest⟩ := ih (s.append stream events)
    refine ⟨new ++ more, ?_, ?_⟩
    · show ((s.append stream events).appendAll stream batches).committed = _
      rw [hmore, hnew, List.append_assoc]
    · rw [firsts_congr (fun id => mem_eventIds_append) batches.flatten] at hrest
      rw [List.flatten_cons, firsts_append]
      exact hholds.append hrest

end Log

/-! ## A run's observations -/

structure ObservedRun where
  sessionId : String
  agentId : String
  preset : Option String
  startedAt : ℤ

def ObservedRun.observed (run : ObservedRun) (state : String × Option ℤ) : ProjectEvent :=
  .agentRunObserved run.sessionId run.agentId run.preset state.1 run.startedAt state.2

theorem ObservedRun.id_observed_injective (run : ObservedRun) {a b : String × Option ℤ}
    (h : (run.observed a).id = (run.observed b).id) : a = b := by
  have hkey := (ProjectEvent.id_eq_iff _ _).mp h
  simp only [observed, ProjectEvent.key, EventKey.agentRun.injEq, true_and] at hkey
  exact Prod.ext hkey.1 hkey.2

def ObservedRun.events (run : ObservedRun) (batches : List (List (String × Option ℤ))) :
    List (List ProjectEvent) := batches.map fun states => states.map run.observed

theorem ObservedRun.flatten_events (run : ObservedRun)
    (batches : List (List (String × Option ℤ))) :
    (run.events batches).flatten = batches.flatten.map run.observed := by
  rw [events, List.map_flatten]

section

variable (run : ObservedRun) (s : Log ProjectEvent) (stream : String)
  (batches : List (List (String × Option ℤ)))

/-- Every observation has a row of its own, in their order. -/
def EachAppended : Prop :=
  ∃ new, (s.appendAll stream (run.events batches)).committed = s.committed ++ new ∧
    new.map (·.payload) = batches.flatten.map run.observed

/-- An observation sent again adds no row. -/
def ResentDropped : Prop :=
  ∀ state ∈ batches.flatten,
    ((s.appendAll stream (run.events batches)).append stream [run.observed state]).committed =
      (s.appendAll stream (run.events batches)).committed

/-- The id tells apart what the identifying fields tell apart, and nothing else. -/
def IdInjective : Prop := ∀ e e' : ProjectEvent, e.id = e'.id ↔ e.key = e'.key

variable {run s stream batches}

theorem eachAppended_iff (hnew : ∀ state, (run.observed state).id ∉ eventIds stream s.committed) :
    EachAppended run s stream batches ↔ batches.flatten.Nodup := by
  obtain ⟨new, hcommitted, hpayload, -⟩ := s.appendAll_committed (run.events batches)
  rw [run.flatten_events] at hpayload
  have hids : ((batches.flatten.map run.observed).map (·.id)).Nodup ↔ batches.flatten.Nodup := by
    rw [List.map_map]
    exact List.nodup_map_iff fun a b h => run.id_observed_injective h
  have hself := firsts_eq_self_iff (eventIds stream s.committed) (batches.flatten.map run.observed)
  constructor
  · rintro ⟨new', hcommitted', hpayload'⟩
    have heq : new = new' := List.append_cancel_left (hcommitted.symm.trans hcommitted')
    rw [heq, hpayload'] at hpayload
    exact hids.mp (hself.mp hpayload.symm).1
  · intro hnodup
    refine ⟨new, hcommitted, hpayload.trans (hself.mpr ⟨hids.mpr hnodup, fun event hevent => ?_⟩)⟩
    obtain ⟨state, -, rfl⟩ := List.mem_map.mp hevent
    exact hnew state

theorem mem_eventIds_appendAll {id : String} (batches : List (List ProjectEvent))
    (s : Log ProjectEvent) (h : id ∈ batches.flatten.map (·.id)) :
    id ∈ eventIds stream (s.appendAll stream batches).committed := by
  have hkeep : ∀ (batches : List (List ProjectEvent)) (s : Log ProjectEvent),
      id ∈ eventIds stream s.committed →
        id ∈ eventIds stream (s.appendAll stream batches).committed := by
    intro batches s hin
    obtain ⟨new, hnew, -⟩ := s.appendAll_committed batches
    rw [hnew, eventIds_append]
    exact List.mem_append_left _ hin
  induction batches generalizing s with
  | nil => cases h
  | cons events batches ih =>
    rw [List.flatten_cons, List.map_append] at h
    rcases List.mem_append.mp h with h | h
    · exact hkeep batches (s.append stream events)
        (Log.mem_eventIds_append.mpr (List.mem_append_right _ h))
    · exact ih (s.append stream events) h

theorem resentDropped : ResentDropped run s stream batches := by
  intro state hstate
  have hin : (run.observed state).id ∈
      eventIds stream (s.appendAll stream (run.events batches)).committed := by
    refine mem_eventIds_appendAll _ _ ?_
    rw [run.flatten_events]
    exact List.mem_map_of_mem (List.mem_map_of_mem hstate)
  obtain ⟨new, hcommitted, hpayload, -⟩ :=
    (s.appendAll stream (run.events batches)).append_committed stream [run.observed state]
  rw [firsts, if_pos hin] at hpayload
  rw [hcommitted, List.map_eq_nil_iff.mp hpayload, List.append_nil]

/-- Of a run the log has no row of: every observation gets a row of its own, one sent again gets
none, and ids tell events apart, exactly if the run never comes back to a state it has left. -/
theorem event_identity (hnew : ∀ state, (run.observed state).id ∉ eventIds stream s.committed) :
    (EachAppended run s stream batches ∧ ResentDropped run s stream batches ∧ IdInjective) ↔
      batches.flatten.Nodup :=
  ⟨fun h => (eachAppended_iff hnew).mp h.1,
    fun h => ⟨(eachAppended_iff hnew).mpr h, resentDropped, ProjectEvent.id_eq_iff⟩⟩

end

/-- A run that starts, asks and goes on to its end, in an empty log. -/
theorem event_identity_run :
    EachAppended ⟨"s", "main", none, 1000⟩ .empty "project"
        [[("running", none)], [("awaiting_input", none)], [("done", some 2000)]] ∧
      ResentDropped ⟨"s", "main", none, 1000⟩ .empty "project"
        [[("running", none)], [("awaiting_input", none)], [("done", some 2000)]] ∧
      IdInjective :=
  (event_identity fun _ => List.not_mem_nil).mpr (by decide)

/-- A run that asks and runs on: its second run is dropped as the first. -/
theorem return_dropped : ¬ ∀ (run : ObservedRun) (s : Log ProjectEvent) (stream : String)
    (batches : List (List (String × Option ℤ))),
    (∀ state, (run.observed state).id ∉ eventIds stream s.committed) →
      batches.flatten.IsChain (· ≠ ·) → EachAppended run s stream batches := by
  intro hall
  have hnew : ∀ state, ((⟨"s", "main", none, 1000⟩ : ObservedRun).observed state).id ∉
      eventIds "project" (Log.empty : Log ProjectEvent).committed := fun _ => List.not_mem_nil
  have h := hall ⟨"s", "main", none, 1000⟩ .empty "project"
    [[("running", none)], [("awaiting_input", none)], [("running", none)]] hnew (by simp)
  exact absurd ((eachAppended_iff hnew).mp h) (by decide)

end Horsie.EventLog
