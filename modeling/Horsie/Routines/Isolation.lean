import Horsie.Routines.Store

/-!
# Bad rows among the due ones

A tick takes each due routine on its own once it has read them; but it reads them together, and one
row that does not decode fails the read. Every legal due row is fired and re-armed exactly if all
due rows decode, or none of the due rows is legal (`legal_rows_handled_iff`).
-/

namespace Horsie.Routines

open Horsie.Lib

section

variable {Environment : Type} (j : Jiff) (json : Json Environment) (env : Env) (nowMs : ℕ)
  (t : RoutineTable)

/-- A row that decodes, with a schedule that may be saved, of a project that is found and whose
rows can be written. -/
def Legal (r : StoredRoutine) : Prop :=
  (∃ routine, rowToRoutine json r = .ok routine ∧ validateSchedule j routine.schedule = .ok ()) ∧
    env.resolves r.projectId = true ∧ env.writes r.key = true

/-- A row is run, and its timer is what its schedule says. -/
def Handled (r : StoredRoutine) : Prop :=
  r.key ∈ (tick j json env nowMs t).2 ∧
    ∃ r' ∈ (tick j json env nowMs t).1.rows, r'.key = r.key ∧
      ∃ routine, rowToRoutine json r = .ok routine ∧
        r'.nextRunAtMs = (nextRunAt j routine.schedule routine.enabled nowMs).map asI64

variable {j json env nowMs t}

theorem Fires.handled {r : StoredRoutine} (hr : r ∈ t.rows) (h : Fires json env nowMs t r) :
    Handled j json env nowMs t r := by
  refine ⟨(mem_tick_runs t r.key).mpr ⟨r, hr, rfl, h⟩, ?_⟩
  obtain ⟨routine, hread⟩ := h.1 r hr h.2.1
  have hmem := (mem_tick_rows (j := j) t _).mpr ⟨r, hr, .inl ⟨h, routine, hread, rfl⟩⟩
  exact ⟨_, hmem, rfl, routine, hread, rfl⟩

/-- In every tick each legal due row is fired and re-armed exactly if all due rows decode, or no
due row is legal. -/
theorem legal_rows_handled_iff (j : Jiff) (json : Json Environment) (env : Env) (nowMs : ℕ)
    (t : RoutineTable) :
    (∀ r ∈ t.rows, isDue nowMs r = true → Legal j json env r → Handled j json env nowMs t r) ↔
      (∀ r ∈ t.rows, isDue nowMs r = true → Readable json r) ∨
        ∀ r ∈ t.rows, isDue nowMs r = true → ¬ Legal j json env r := by
  refine ⟨fun h => ?_, ?_⟩
  · by_cases hlegal : ∃ r ∈ t.rows, isDue nowMs r = true ∧ Legal j json env r
    · -- a routine that is run was read together with all that are due
      obtain ⟨r, hr, hdue, hl⟩ := hlegal
      obtain ⟨r', -, -, hfires⟩ := (mem_tick_runs t r.key).mp (h r hr hdue hl).1
      exact .inl hfires.1
    · exact .inr fun r hr hdue hl => hlegal ⟨r, hr, hdue, hl⟩
  · rintro (hall | hnone) r hr hdue hl
    · exact Fires.handled hr ⟨hall, hdue, hl.2⟩
    · exact absurd hl (hnone r hr hdue)

end

/-! ## A row that does not decode -/

def hourly : String := "\x7b\"type\":\"Every\",\"value\":\x7b\"intervalSecs\":3600\x7d\x7d"

def hourlyJson : Json Unit := .onlySchedule hourly (.every 3600)

/-- Two due rows, of two projects; the schedule of one is empty text. -/
def twoRoutines : RoutineTable where
  rows := [⟨"p", "good", agentText, noneText, hourly, 1, some 0⟩,
    ⟨"q", "bad", agentText, noneText, "", 1, some 0⟩]
  unique := by simp [StoredRoutine.key]

/-- A row that does not decode keeps the others from being fired. -/
theorem bad_row_stops_tick :
    ∃ r ∈ twoRoutines.rows, isDue 1000 r = true ∧
      Legal Jiff.noZones hourlyJson .fine r ∧
        ¬ Handled Jiff.noZones hourlyJson .fine 1000 twoRoutines r := by
  refine ⟨⟨"p", "good", agentText, noneText, hourly, 1, some 0⟩, List.mem_cons_self, by decide,
    ?_, ?_⟩
  · exact ⟨⟨_, rfl, rfl⟩, rfl, rfl⟩
  · rintro ⟨hrun, -⟩
    have hnone :
        (tick Jiff.noZones hourlyJson .fine 1000 twoRoutines).2 = [] := by
      decide +kernel
    rw [hnone] at hrun
    cases hrun

end Horsie.Routines
