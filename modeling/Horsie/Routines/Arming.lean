import Horsie.Lib.Transition
import Horsie.Routines.Store

/-!
# Timers of routines

Seconds become `u64` milliseconds that are kept in a signed column and compared there. Over any
routines that are saved, replaced and deleted, and any ticks, the column is the exact next instant,
which is after the moment it was computed, and a `Once` routine fires once, as long as the next
instants computed are such that the column holds (`timers_exact`).
-/

namespace Horsie.Routines

open Horsie.Lib

/-- The routines of a deployment. -/
structure Timers where
  table : RoutineTable
  armedAt : String × String → ℕ
  firings : String × String → ℕ

namespace Timers

def init : Timers where
  table := .empty
  armedAt _ := 0
  firings _ := 0

inductive Label {Environment : Type} (json : Json Environment)
  | create (key : String × String) (input : RoutineInput json) (nowMs : ℕ)
  | replace (key : String × String) (input : RoutineInput json) (nowMs : ℕ)
  | delete (key : String × String)
  | tick (env : Env) (nowMs : ℕ)

section

variable {Environment : Type} (j : Jiff) (json : Json Environment)

def step? (w : Timers) : Label json → Option Timers
  | .create key input nowMs =>
    match validateSchedule j input.schedule with
    | .ok () =>
      (w.table.insert? (rowFromInput j key input nowMs)).map fun table =>
        { table
          armedAt := Function.update w.armedAt key nowMs
          firings := Function.update w.firings key 0 }
    | .error _ => none
  | .replace key input nowMs =>
    match validateSchedule j input.schedule with
    | .ok () =>
      some
        { table := Routines.replace w.table (rowFromInput j key input nowMs)
          armedAt := Function.update w.armedAt key nowMs
          firings := Function.update w.firings key 0 }
    | .error _ => none
  | .delete key => some { w with table := Routines.delete w.table key }
  | .tick env nowMs =>
    let (table, runs) := Routines.tick j json env nowMs w.table
    some
      { table
        armedAt := fun key => if key ∈ runs then nowMs else w.armedAt key
        firings := fun key => if key ∈ runs then w.firings key + 1 else w.firings key }

end

end Timers

def timers {Environment : Type} (j : Jiff) (json : Json Environment) :
    System Timers (Timers.Label json) :=
  .ofStep? .init (Timers.step? j json)

namespace Timers

variable {Environment : Type} (j : Jiff) (json : Json Environment)

/-! ## The property and its condition -/

/-- The timer of a row, as it was computed at `armedAt`. -/
structure RowExact (armedAt firings : ℕ) (r : StoredRoutine) (routine : RoutineRow Environment) :
    Prop where
  column : r.nextRunAtMs = nextRunAtExact j routine.schedule routine.enabled armedAt
  readBack : (routine.nextRunAtMs.map Nat.cast : Option ℤ) =
    nextRunAtExact j routine.schedule routine.enabled armedAt
  due : ∀ nowMs, isDue nowMs r = true → ∃ ms : ℤ,
    nextRunAtExact j routine.schedule routine.enabled armedAt = some ms ∧ ms ≤ nowMs
  later : ∀ ms, nextRunAtExact j routine.schedule routine.enabled armedAt = some ms → armedAt < ms
  once : ∀ atMs, routine.schedule = .once atMs →
    firings + (if r.nextRunAtMs.isSome then 1 else 0) ≤ 1

def Exact (w : Timers) : Prop :=
  ∀ r ∈ w.table.rows, ∃ routine, rowToRoutine json r = .ok routine ∧
    RowExact j (w.armedAt r.key) (w.firings r.key) r routine

/-- Every next instant that a step computes is one the column holds. -/
def computesArmable (w : Timers) : Label json → Bool
  | .create _ input nowMs | .replace _ input nowMs =>
    armable j input.schedule input.enabled nowMs
  | .delete _ => true
  | .tick env nowMs =>
    w.table.rows.all fun r =>
      !isDue nowMs r || !env.resolves r.projectId || !env.writes r.key ||
        match rowToRoutine json r with
        | .ok routine => armable j routine.schedule routine.enabled nowMs
        | .error _ => true

/-! ## Steps -/

/-- The routines that are stored may be saved. -/
def Saved (w : Timers) : Prop :=
  ∀ r ∈ w.table.rows, ∃ routine, rowToRoutine json r = .ok routine ∧
    validateSchedule j routine.schedule = .ok ()

variable {j json} {w w' : Timers}

theorem rowExact_of_armable {r : StoredRoutine} {routine : RoutineRow Environment}
    {nowMs firings : ℕ} (hread : rowToRoutine json r = .ok routine)
    (hs : validateSchedule j routine.schedule = .ok ())
    (harm : armable j routine.schedule routine.enabled nowMs = true)
    (hcolumn : r.nextRunAtMs = (nextRunAt j routine.schedule routine.enabled nowMs).map asI64)
    (honce : ∀ atMs, routine.schedule = .once atMs →
      firings + (if r.nextRunAtMs.isSome then 1 else 0) ≤ 1) :
    RowExact j nowMs firings r routine := by
  have hexact := hcolumn.trans (asI64_nextRunAt harm)
  have hlater : ∀ ms, nextRunAtExact j routine.schedule routine.enabled nowMs = some ms →
      nowMs < ms := fun ms h => lt_nextRunAtExact hs h
  refine ⟨hexact, ?_, fun now hdue => ?_, hlater, honce⟩
  · obtain ⟨-, -, hnext, -⟩ := rowToRoutine_ok hread
    rw [hnext, hexact, Option.map_map]
    cases hms : nextRunAtExact j routine.schedule routine.enabled nowMs with
    | none => rfl
    | some ms =>
      have hpos := hlater ms hms
      have hlt : ms < 2 ^ 63 := by
        unfold armable at harm
        rw [Bool.and_eq_true, Option.all_eq_true] at harm
        exact of_decide_eq_true (harm.1 ms hms)
      show some ((asU64 (max ms 0) : ℕ) : ℤ) = some ms
      unfold asU64
      congr 1
      omega
  · unfold isDue at hdue
    rw [Bool.and_eq_true, Option.any_eq_true, hexact] at hdue
    obtain ⟨-, ms, hms, hle⟩ := hdue
    exact ⟨ms, hms, (of_decide_eq_true hle).trans (asI64_le now)⟩

theorem rowExact_saved {key : String × String} {input : RoutineInput json} {nowMs : ℕ}
    (hs : validateSchedule j input.schedule = .ok ())
    (harm : armable j input.schedule input.enabled nowMs = true) :
    ∃ routine, rowToRoutine json (rowFromInput j key input nowMs) = .ok routine ∧
      RowExact j nowMs 0 (rowFromInput j key input nowMs) routine := by
  refine ⟨_, rowToRoutine_rowFromInput key input nowMs, rowExact_of_armable
    (rowToRoutine_rowFromInput key input nowMs) hs harm rfl fun atMs _ => ?_⟩
  split_ifs <;> omega

theorem Saved.step (h : w.Saved j json) {l : Label json}
    (hs : w.step? j json l = some w') : w'.Saved j json := by
  unfold step? at hs
  cases l with
  | create key input nowMs =>
    dsimp only at hs
    split at hs
    · rename_i hvalid
      obtain ⟨table, htable, rfl⟩ := Option.map_eq_some_iff.mp hs
      intro r hr
      rcases (Table.mem_insert? htable).mp hr with hr | rfl
      · exact h r hr
      · exact ⟨_, rowToRoutine_rowFromInput key input nowMs, hvalid⟩
    · cases hs
  | replace key input nowMs =>
    dsimp only at hs
    split at hs
    · rename_i hvalid
      cases hs
      intro r hr
      rcases mem_replace hr with ⟨hr, -⟩ | rfl
      · exact h r hr
      · exact ⟨_, rowToRoutine_rowFromInput key input nowMs, hvalid⟩
    · cases hs
  | delete key =>
    cases hs
    exact fun r hr => h r (Table.mem_delete.mp hr).1
  | tick env nowMs =>
    cases hs
    intro r' hr'
    obtain ⟨r, hr, hcase⟩ := (mem_tick_rows w.table r').mp hr'
    obtain ⟨routine, hread, hvalid⟩ := h r hr
    rcases hcase with ⟨-, routine', hread', rfl⟩ | ⟨-, rfl⟩
    · exact ⟨_, rowToRoutine_setNext hread _, hvalid⟩
    · exact ⟨routine, hread, hvalid⟩

theorem Exact.step (h : w.Exact j json) (hsaved : w.Saved j json) {l : Label json}
    (hg : w.computesArmable j json l = true) (hs : w.step? j json l = some w') :
    w'.Exact j json := by
  unfold step? at hs
  cases l with
  | create key input nowMs =>
    dsimp only at hs
    split at hs
    · rename_i hvalid
      obtain ⟨table, htable, rfl⟩ := Option.map_eq_some_iff.mp hs
      intro r hr
      have hnew := (Table.mem_insert? htable).mpr (.inr rfl)
      by_cases hk : r.key = key
      · obtain rfl := Table.eq_of_key List.mem_cons_self hr hnew hk
        simp only [hk, Function.update_self]
        exact rowExact_saved hvalid hg
      · simp only [Function.update_of_ne hk]
        refine h r (((Table.mem_insert? htable).mp hr).resolve_right ?_)
        rintro rfl
        exact hk rfl
    · cases hs
  | replace key input nowMs =>
    dsimp only at hs
    split at hs
    · rename_i hvalid
      cases hs
      intro r hr
      rcases mem_replace hr with ⟨hr, hk⟩ | rfl
      · obtain ⟨routine, hread, hexact⟩ := h r hr
        refine ⟨routine, hread, ?_⟩
        show RowExact j (Function.update w.armedAt key nowMs r.key)
          (Function.update w.firings key 0 r.key) r routine
        have hk' : r.key ≠ key := hk
        rwa [Function.update_of_ne hk', Function.update_of_ne hk']
      · obtain ⟨routine, hread, hexact⟩ := rowExact_saved (j := j) hvalid hg
        refine ⟨routine, hread, ?_⟩
        show RowExact j (Function.update w.armedAt key nowMs key)
          (Function.update w.firings key 0 key) _ routine
        rwa [Function.update_self, Function.update_self]
    · cases hs
  | delete key =>
    cases hs
    exact fun r hr => h r (Table.mem_delete.mp hr).1
  | tick env nowMs =>
    cases hs
    intro r' hr'
    obtain ⟨r, hr, hcase⟩ := (mem_tick_rows w.table r').mp hr'
    obtain ⟨routine, hread, hvalid⟩ := hsaved r hr
    obtain ⟨routine', hread', hexact⟩ := h r hr
    cases hread.symm.trans hread'
    -- the runs of a tick are those of the rows it fires
    have hruns : r.key ∈ (tick j json env nowMs w.table).2 ↔
        Fires json env nowMs w.table r := by
      rw [mem_tick_runs]
      refine ⟨?_, fun hf => ⟨r, hr, rfl, hf⟩⟩
      rintro ⟨r₂, hr₂, hk, hf⟩
      obtain rfl := Table.eq_of_key List.mem_cons_self hr₂ hr hk
      exact hf
    rcases hcase with ⟨hfires, routine', hread', rfl⟩ | ⟨hno, rfl⟩
    · cases hread.symm.trans hread'
      obtain ⟨-, hdue, hresolves, hwrites⟩ := id hfires
      refine ⟨_, rowToRoutine_setNext hread _, ?_⟩
      show RowExact j
        (if r.key ∈ (tick j json env nowMs w.table).2 then nowMs else w.armedAt r.key)
        (if r.key ∈ (tick j json env nowMs w.table).2 then w.firings r.key + 1
          else w.firings r.key) _ _
      rw [if_pos (hruns.mpr hfires), if_pos (hruns.mpr hfires)]
      have harm : armable j routine.schedule routine.enabled nowMs = true := by
        have hrow := List.all_eq_true.mp hg r hr
        simpa [hdue, hresolves, hwrites, hread] using hrow
      refine rowExact_of_armable (rowToRoutine_setNext hread _) hvalid harm rfl fun atMs honce => ?_
      -- its instant has come, and is not computed again
      obtain ⟨ms, hms, hle⟩ := hexact.due nowMs hdue
      have hbefore := hexact.once atMs honce
      rw [hexact.column, hms, Option.isSome_some, if_pos rfl] at hbefore
      have hpast : nextRunAt j routine.schedule routine.enabled nowMs = none := by
        rw [honce] at hms ⊢
        exact nextRunAt_once_past hms hle
      show w.firings r.key + 1 + (if ((nextRunAt j routine.schedule routine.enabled nowMs).map
        asI64).isSome then 1 else 0) ≤ 1
      rw [hpast]
      exact Nat.succ_le_of_lt (by omega)
    · refine ⟨routine, hread, ?_⟩
      show RowExact j
        (if r'.key ∈ (tick j json env nowMs w.table).2 then nowMs else w.armedAt r'.key)
        (if r'.key ∈ (tick j json env nowMs w.table).2 then w.firings r'.key + 1
          else w.firings r'.key) _ _
      rwa [if_neg fun hmem => hno (hruns.mp hmem), if_neg fun hmem => hno (hruns.mp hmem)]

end Timers

/-! ## An interval that does not fit -/

/-- An interval whose milliseconds a `u64` holds and an `i64` does not, as it is stored. -/
def aeons : String :=
  "\x7b\"type\":\"Every\",\"value\":\x7b\"intervalSecs\":9223372036854776\x7d\x7d"

/-- It is stored as a negative instant, which is due at every tick. -/
theorem long_interval_always_due :
    ¬ ∀ w, (timers Jiff.noZones (.onlySchedule aeons (.every 9223372036854776))).Reachable w →
      w.Exact Jiff.noZones (.onlySchedule aeons (.every 9223372036854776)) := by
  intro h
  have hrun : ((System.steps?
      (Timers.step? Jiff.noZones (.onlySchedule aeons (.every 9223372036854776))) .init
      [.create ("p", "r") (.only aeons (.every 9223372036854776)) 0,
        .tick .fine 15000,
        .tick .fine 30000]).map fun w =>
          (w.table.rows, w.armedAt ("p", "r"), w.firings ("p", "r"))) =
      some ([⟨"p", "r", agentText, noneText, aeons, 1, some (-9223372036854745616)⟩],
        30000, 2) := by
    decide +kernel
  obtain ⟨w, hw, hx⟩ := Option.map_eq_some_iff.mp hrun
  obtain ⟨tr, htr, -⟩ := System.exec_steps? Timers.init hw
  simp only [Prod.mk.injEq] at hx
  obtain ⟨hrows, harmed, -⟩ := hx
  obtain ⟨routine, hread, hexact⟩ := h w (htr.reachable (.init rfl)) _
    (by rw [hrows]; exact List.mem_cons_self)
  obtain ⟨-, henabled, -, hschedule⟩ := rowToRoutine_ok hread
  obtain ⟨ms, hms, hle⟩ := hexact.due 45000 (by decide)
  rw [show routine.schedule = .every 9223372036854776 from (Except.ok.inj hschedule).symm, henabled,
    show StoredRoutine.key _ = ("p", "r") from rfl, harmed] at hms
  have hvalue := Option.some.inj hms
  omega

/-- In a run in which every next instant that is computed is one a signed 64-bit integer holds, the
timer of every routine is the exact next instant, when it is stored and when it is read back, the
routine is not due before, the instant is after the one it was computed at, and a `Once` routine
fires once. -/
theorem timers_exact {Environment : Type} {j : Jiff} {json : Json Environment}
    {tr : List (Timers × Timers.Label json × Timers)} {w : Timers}
    (h : (timers j json).Exec .init tr w)
    (hg : ∀ x ∈ tr, x.1.computesArmable j json x.2.1 = true) : w.Exact j json := by
  have hsaved : ∀ w, (timers j json).Reachable w → w.Saved j json := fun w hw =>
    hw.invariant (by rintro _ rfl; exact fun _ hr => absurd hr List.not_mem_nil)
      fun _ _ _ _ hi hs => hi.step hs
  exact h.guarded (G := fun w l => w.computesArmable j json l = true)
    (I := fun w => w.Exact j json) (fun w _ _ hr hw hl hs => hw.step (hsaved w hr) hl hs)
    (.init rfl) (fun _ hr => absurd hr List.not_mem_nil) hg

/-- An instant, as it is stored. -/
def onceText : String := "\x7b\"type\":\"Once\",\"value\":\x7b\"atMs\":20000\x7d\x7d"

/-- Ticks before and after an instant, which fires once. -/
theorem timers_exact_once : ∃ tr w,
    (timers Jiff.noZones (.onlySchedule onceText (.once 20000))).Exec .init tr w ∧
      w.firings ("p", "r") = 1 ∧ w.Exact Jiff.noZones (.onlySchedule onceText (.once 20000)) := by
  have hrun : ((System.steps? (System.guarded?
      (fun w l => Timers.computesArmable Jiff.noZones (.onlySchedule onceText (.once 20000)) w l =
        true)
      (Timers.step? Jiff.noZones (.onlySchedule onceText (.once 20000)))) .init
      [.create ("p", "r") (.only onceText (.once 20000)) 0,
        .tick .fine 15000, .tick .fine 30000,
        .tick .fine 45000]).map (·.firings ("p", "r"))) = some 1 := by
    decide +kernel
  obtain ⟨w, hw, hx⟩ := Option.map_eq_some_iff.mp hrun
  obtain ⟨tr, htr, -, hall⟩ := System.exec_guarded? Timers.init hw
  exact ⟨tr, w, htr, hx, timers_exact htr hall⟩

end Horsie.Routines
