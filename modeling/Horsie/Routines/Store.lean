import Mathlib.Data.List.Sort
import Horsie.Lib.Collect
import Horsie.Lib.Table
import Horsie.Routines.Schedule

/-!
# The table of routines, and a tick

A row keeps its schedule, target and environment as JSON, and its next instant as a signed integer.
A tick reads the due rows of all projects at once, and fires them one by one: it moves the timer of
a row and then runs its routine.
-/

namespace Horsie.Routines

open Horsie.Lib

inductive RoutineTarget
  | agent (agent : String)
  | workflow (workflow : String)
deriving DecidableEq

/-- One row of the `routines` table. -/
structure StoredRoutine where
  projectId : String
  name : String
  target : String
  environment : String
  schedule : String
  enabled : ℤ
  nextRunAtMs : Option ℤ
deriving DecidableEq

def StoredRoutine.key (r : StoredRoutine) : String × String := (r.projectId, r.name)

abbrev RoutineTable := Table StoredRoutine (String × String) [StoredRoutine.key]

structure RoutineRow (Environment : Type) where
  name : String
  target : RoutineTarget
  environment : Environment
  schedule : RoutineSchedule
  enabled : Bool
  nextRunAtMs : Option ℕ

structure Json (Environment : Type) where
  target : String → Except String RoutineTarget
  environment : String → Except String Environment
  schedule : String → Except String RoutineSchedule

def Json.onlySchedule (text : String) (schedule : RoutineSchedule) : Json Unit where
  target _ := .ok (.agent "a")
  environment _ := .ok ()
  schedule s := if s = text then .ok schedule else .error "EOF while parsing a value"

section

variable {Environment : Type} (json : Json Environment)

def rowToRoutine (r : StoredRoutine) : Except String (RoutineRow Environment) := do
  let target ← (json.target r.target).mapError (s!"routines.target: {·}")
  let environment ← (json.environment r.environment).mapError (s!"routines.environment: {·}")
  let schedule ← (json.schedule r.schedule).mapError (s!"routines.schedule: {·}")
  pure
    { name := r.name
      target
      environment
      schedule
      enabled := decide (r.enabled ≠ 0)
      nextRunAtMs := r.nextRunAtMs.map fun v => asU64 (max v 0) }

def isDue (nowMs : ℕ) (r : StoredRoutine) : Bool :=
  decide (r.enabled = 1) && r.nextRunAtMs.any fun v => decide (v ≤ asI64 nowMs)

def dueAcrossAllUsers (t : RoutineTable) (nowMs : ℕ) :
    Except String (List (String × RoutineRow Environment)) :=
  ((t.rows.filter (isDue nowMs)).insertionSort fun a b =>
    a.nextRunAtMs.getD 0 ≤ b.nextRunAtMs.getD 0).mapM fun r =>
      (rowToRoutine json r).map (r.projectId, ·)

/-- `UPDATE routines SET next_run_at_ms = ?`. -/
def arm (t : RoutineTable) (project name : String) (nextRunAtMs : Option ℕ) : RoutineTable :=
  t.update (fun r => decide (r.key = (project, name)))
    (fun r => { r with nextRunAtMs := nextRunAtMs.map asI64 })
    (by rintro _ (_ | ⟨_, ⟨⟩⟩) r; rfl)

end

/-! ## Saving -/

structure RoutineInput {Environment : Type} (json : Json Environment) where
  target : RoutineTarget
  environment : Environment
  schedule : RoutineSchedule
  enabled : Bool
  targetText : String
  environmentText : String
  scheduleText : String
  target_text : json.target targetText = .ok target
  environment_text : json.environment environmentText = .ok environment
  schedule_text : json.schedule scheduleText = .ok schedule

/-- A target and an environment, as they are stored. -/
def agentText : String := "\x7b\"type\":\"Agent\",\"value\":\x7b\"agent\":\"a\"\x7d\x7d"

def noneText : String := "\x7b\"type\":\"None\",\"value\":\x7b\x7d\x7d"

def RoutineInput.only (text : String) (schedule : RoutineSchedule) :
    RoutineInput (.onlySchedule text schedule) where
  target := .agent "a"
  environment := ()
  schedule
  enabled := true
  targetText := agentText
  environmentText := noneText
  scheduleText := text
  target_text := rfl
  environment_text := rfl
  schedule_text := if_pos rfl

section

variable {Environment : Type} (j : Jiff) {json : Json Environment}

/-- `row_from_input`, as it is stored. -/
def rowFromInput (key : String × String) (input : RoutineInput json) (nowMs : ℕ) :
    StoredRoutine where
  projectId := key.1
  name := key.2
  target := input.targetText
  environment := input.environmentText
  schedule := input.scheduleText
  enabled := if input.enabled then 1 else 0
  nextRunAtMs := (nextRunAt j input.schedule input.enabled nowMs).map asI64

/-- `UPDATE routines SET …`, all but the key. -/
def replace (t : RoutineTable) (row : StoredRoutine) : RoutineTable :=
  t.update (fun r => decide (r.key = row.key))
    (fun r => { row with projectId := r.projectId, name := r.name })
    (by rintro _ (_ | ⟨_, ⟨⟩⟩) r; rfl)

def delete (t : RoutineTable) (key : String × String) : RoutineTable :=
  t.delete fun r => decide (r.key = key)

variable {j}

theorem rowToRoutine_rowFromInput (key : String × String) (input : RoutineInput json)
    (nowMs : ℕ) :
    rowToRoutine json (rowFromInput j key input nowMs) =
      .ok
        { name := key.2
          target := input.target
          environment := input.environment
          schedule := input.schedule
          enabled := input.enabled
          nextRunAtMs := ((nextRunAt j input.schedule input.enabled nowMs).map asI64).map
            fun v => asU64 (max v 0) } := by
  unfold rowToRoutine rowFromInput
  simp only [input.target_text, input.environment_text, input.schedule_text]
  cases input.enabled <;> rfl

end

theorem mem_replace {t : RoutineTable} {row r : StoredRoutine}
    (h : r ∈ (replace t row).rows) : r ∈ t.rows ∧ r.key ≠ row.key ∨ r = row := by
  obtain ⟨r', hr', rfl⟩ := List.mem_map.mp h
  unfold Table.change
  split_ifs with hk
  · obtain ⟨hp, hn⟩ := Prod.mk.inj (of_decide_eq_true hk)
    right
    show { row with projectId := r'.projectId, name := r'.name } = row
    rw [hp, hn]
  · exact .inl ⟨hr', fun heq => hk (decide_eq_true heq)⟩

theorem mem_arm {t : RoutineTable} {project name : String} {next : Option ℕ} {r : StoredRoutine}
    (h : r ∈ (arm t project name next).rows) : r ∈ t.rows ∧ r.key ≠ (project, name) ∨
      ∃ r' ∈ t.rows, r'.key = (project, name) ∧ r = { r' with nextRunAtMs := next.map asI64 } := by
  obtain ⟨r', hr', rfl⟩ := List.mem_map.mp h
  unfold Table.change
  split_ifs with hk
  · exact .inr ⟨r', hr', of_decide_eq_true hk, rfl⟩
  · exact .inl ⟨hr', fun heq => hk (decide_eq_true heq)⟩

/-! ## The scheduler -/

/-- What a tick meets with: the projects that can be resolved, and the rows that can be written. -/
structure Env where
  resolves : String → Bool
  writes : String × String → Bool

/-- Every project is found, and every row can be written. -/
def Env.fine : Env := ⟨fun _ => true, fun _ => true⟩

section

variable {Environment : Type} (j : Jiff) (json : Json Environment) (env : Env) (nowMs : ℕ)

def fire (s : RoutineTable × List (String × String)) (due : String × RoutineRow Environment) :
    RoutineTable × List (String × String) :=
  if env.resolves due.1 = true ∧ env.writes (due.1, due.2.name) = true then
    (arm s.1 due.1 due.2.name (nextRunAt j due.2.schedule due.2.enabled nowMs),
      s.2 ++ [(due.1, due.2.name)])
  else s

def tick (t : RoutineTable) : RoutineTable × List (String × String) :=
  match dueAcrossAllUsers json t nowMs with
  | .ok due => due.foldl (fire j env nowMs) (t, [])
  | .error _ => (t, [])

/-! ## What a tick does -/

def Readable (r : StoredRoutine) : Prop := ∃ routine, rowToRoutine json r = .ok routine

/-- The row that a tick at `nowMs` fires: the due rows could be read, it is one of them, and its
project is found and its timer can be moved. -/
def Fires (t : RoutineTable) (r : StoredRoutine) : Prop :=
  (∀ r' ∈ t.rows, isDue nowMs r' = true → Readable json r') ∧ isDue nowMs r = true ∧
    env.resolves r.projectId = true ∧ env.writes r.key = true

def armRow (r : StoredRoutine) (due : String × RoutineRow Environment) : StoredRoutine :=
  if (env.resolves due.1 = true ∧ env.writes (due.1, due.2.name) = true) ∧
      r.key = (due.1, due.2.name) then
    { r with nextRunAtMs := (nextRunAt j due.2.schedule due.2.enabled nowMs).map asI64 }
  else r

variable {j json env nowMs}

theorem foldl_fire (due : List (String × RoutineRow Environment))
    (s : RoutineTable × List (String × String)) :
    (due.foldl (fire j env nowMs) s).1.rows =
        s.1.rows.map (fun r => due.foldl (armRow j env nowMs) r) ∧
      ∀ k, k ∈ (due.foldl (fire j env nowMs) s).2 ↔ k ∈ s.2 ∨ ∃ d ∈ due,
        (d.1, d.2.name) = k ∧ env.resolves d.1 = true ∧ env.writes k = true := by
  induction due generalizing s with
  | nil => exact ⟨by simp, fun k => by simp⟩
  | cons d due ih =>
    obtain ⟨hrows, hruns⟩ := ih (fire j env nowMs s d)
    simp only [List.foldl_cons]
    refine ⟨?_, fun k => ?_⟩
    · rw [hrows]
      unfold fire armRow
      split_ifs with hok
      · simp only [arm, Table.update, List.map_map, hok, true_and]
        refine List.map_congr_left fun r _ => ?_
        simp only [Function.comp_apply, Table.change, decide_eq_true_eq]
      · simp only [hok, false_and, if_false]
    · rw [hruns]
      unfold fire
      split_ifs with hok
      · simp only [List.mem_append, List.mem_cons]
        grind
      · simp only [List.mem_cons]
        grind

theorem foldl_armRow (due : List (String × RoutineRow Environment)) (r : StoredRoutine)
    (next : Option ℕ)
    (hnext : ∀ d ∈ due, (d.1, d.2.name) = r.key →
      nextRunAt j d.2.schedule d.2.enabled nowMs = next) :
    due.foldl (armRow j env nowMs) r =
      if (∃ d ∈ due, (d.1, d.2.name) = r.key) ∧ env.resolves r.projectId = true ∧
        env.writes r.key = true then
        { r with nextRunAtMs := next.map asI64 }
      else r := by
  induction due generalizing r with
  | nil => simp
  | cons d due ih =>
    have hkey : (armRow j env nowMs r d).key = r.key := by
      unfold armRow
      split_ifs <;> rfl
    have hproject : (armRow j env nowMs r d).projectId = r.projectId := congrArg Prod.fst hkey
    have hnext' : ∀ d' ∈ due, (d'.1, d'.2.name) = (armRow j env nowMs r d).key →
        nextRunAt j d'.2.schedule d'.2.enabled nowMs = next := fun d' hd' hk =>
      hnext d' (List.mem_cons_of_mem _ hd') (hk.trans hkey)
    rw [List.foldl_cons, ih _ hnext', hkey, hproject]
    have hhead : (∃ d' ∈ d :: due, (d'.1, d'.2.name) = r.key) ↔
        (d.1, d.2.name) = r.key ∨ ∃ d' ∈ due, (d'.1, d'.2.name) = r.key :=
      List.exists_mem_cons_iff _ _ _
    simp only [hhead]
    unfold armRow
    by_cases hd : (d.1, d.2.name) = r.key
    · have hp : d.1 = r.projectId := congrArg Prod.fst hd
      have hown := hnext d List.mem_cons_self hd
      rw [hd, hp, hown]
      by_cases hok : env.resolves r.projectId = true ∧ env.writes r.key = true
      · simp only [hok, and_self, and_true, true_or, if_true, ite_self]
      · simp only [hok, and_false, false_and, if_false]
    · have hd' : r.key ≠ (d.1, d.2.name) := fun h => hd h.symm
      simp only [hd, hd', and_false, if_false, false_or]

variable {t : RoutineTable}

theorem isDue_of_mem {due : List (String × RoutineRow Environment)}
    (h : dueAcrossAllUsers json t nowMs = .ok due) (d : String × RoutineRow Environment) :
    d ∈ due ↔ ∃ r ∈ t.rows, isDue nowMs r = true ∧ r.projectId = d.1 ∧
      rowToRoutine json r = .ok d.2 := by
  rw [mem_of_mapM_ok h]
  simp only [List.mem_insertionSort, List.mem_filter, and_assoc]
  refine exists_congr fun r => and_congr_right fun _ => and_congr_right fun _ => ?_
  cases hr : rowToRoutine json r with
  | error e => exact iff_of_false (by rintro ⟨⟩) (by rintro ⟨-, ⟨⟩⟩)
  | ok routine =>
    constructor
    · intro hd
      cases hd
      exact ⟨rfl, rfl⟩
    · rintro ⟨hp, hd⟩
      show Except.ok (r.projectId, routine) = Except.ok d
      rw [hp, Except.ok.inj hd]

theorem due_ok_iff :
    (∃ due, dueAcrossAllUsers json t nowMs = .ok due) ↔
      ∀ r ∈ t.rows, isDue nowMs r = true → Readable json r := by
  unfold dueAcrossAllUsers
  rw [mapM_ok_iff]
  simp only [List.mem_insertionSort, List.mem_filter, and_imp]
  refine forall₃_congr fun r _ _ => ?_
  unfold Readable
  cases rowToRoutine json r with
  | error e => exact iff_of_false (by rintro ⟨_, ⟨⟩⟩) (by rintro ⟨_, ⟨⟩⟩)
  | ok routine => exact iff_of_true ⟨_, rfl⟩ ⟨_, rfl⟩

variable {r : StoredRoutine} {routine : RoutineRow Environment}

theorem rowToRoutine_ok
    (h : rowToRoutine json r = .ok routine) :
    routine.name = r.name ∧ routine.enabled = decide (r.enabled ≠ 0) ∧
      routine.nextRunAtMs = r.nextRunAtMs.map (fun v => asU64 (max v 0)) ∧
      json.schedule r.schedule = .ok routine.schedule := by
  unfold rowToRoutine at h
  cases ht : json.target r.target <;> rw [ht] at h
  · cases h
  cases he : json.environment r.environment <;> rw [he] at h
  · cases h
  cases hs : json.schedule r.schedule <;> rw [hs] at h
  · cases h
  · rw [← Except.ok.inj h]
    exact ⟨rfl, rfl, rfl, rfl⟩

theorem rowToRoutine_setNext
    (h : rowToRoutine json r = .ok routine) (next : Option ℤ) :
    rowToRoutine json { r with nextRunAtMs := next } =
      .ok { routine with nextRunAtMs := next.map fun v => asU64 (max v 0) } := by
  unfold rowToRoutine at h ⊢
  cases ht : json.target r.target <;> rw [ht] at h
  · cases h
  cases he : json.environment r.environment <;> rw [he] at h
  · cases h
  cases hs : json.schedule r.schedule <;> rw [hs] at h
  · cases h
  · rw [← Except.ok.inj h]
    rfl

theorem name_of_row
    (h : rowToRoutine json r = .ok routine) : routine.name = r.name :=
  (rowToRoutine_ok h).1

theorem key_of_due {due : List (String × RoutineRow Environment)}
    (h : dueAcrossAllUsers json t nowMs = .ok due) (hr : r ∈ t.rows)
    (d : String × RoutineRow Environment) :
    d ∈ due ∧ (d.1, d.2.name) = r.key ↔
      isDue nowMs r = true ∧ d.1 = r.projectId ∧ rowToRoutine json r = .ok d.2 := by
  rw [isDue_of_mem h]
  refine ⟨?_, ?_⟩
  · rintro ⟨⟨r', hr', hdue, hp, hd⟩, hk⟩
    have hkey : r'.key = r.key := by
      rw [← hk, name_of_row hd, ← hp]
      rfl
    obtain rfl := Table.eq_of_key List.mem_cons_self hr' hr hkey
    exact ⟨hdue, hp.symm, hd⟩
  · rintro ⟨hdue, hp, hd⟩
    refine ⟨⟨r, hr, hdue, hp.symm, hd⟩, ?_⟩
    rw [name_of_row hd, hp]
    rfl

theorem mem_tick_runs (t : RoutineTable) (k : String × String) :
    k ∈ (tick j json env nowMs t).2 ↔ ∃ r ∈ t.rows, r.key = k ∧ Fires json env nowMs t r := by
  unfold tick
  cases hdue : dueAcrossAllUsers json t nowMs with
  | error e =>
    refine iff_of_false List.not_mem_nil ?_
    rintro ⟨r, -, -, hall, -⟩
    obtain ⟨due, hok⟩ := due_ok_iff.mpr hall
    rw [hdue] at hok
    cases hok
  | ok due =>
    have hall := due_ok_iff.mp ⟨due, hdue⟩
    rw [(foldl_fire due (t, [])).2, or_iff_right List.not_mem_nil]
    refine ⟨?_, ?_⟩
    · rintro ⟨d, hd, rfl, hresolves, hwrites⟩
      obtain ⟨r, hr, hisDue, hp, hread⟩ := (isDue_of_mem hdue d).mp hd
      have hkey : r.key = (d.1, d.2.name) := by
        rw [name_of_row hread, ← hp]
        rfl
      exact ⟨r, hr, hkey, hall, hisDue, hp ▸ hresolves, hkey ▸ hwrites⟩
    · rintro ⟨r, hr, rfl, -, hisDue, hresolves, hwrites⟩
      obtain ⟨routine, hread⟩ := hall r hr hisDue
      obtain ⟨hd, hk⟩ := (key_of_due hdue hr (r.projectId, routine)).mpr ⟨hisDue, rfl, hread⟩
      exact ⟨_, hd, hk, hresolves, hwrites⟩

theorem mem_tick_rows (t : RoutineTable) (r' : StoredRoutine) :
    r' ∈ (tick j json env nowMs t).1.rows ↔ ∃ r ∈ t.rows,
      (Fires json env nowMs t r ∧ ∃ routine, rowToRoutine json r = .ok routine ∧
        r' = { r with
          nextRunAtMs := (nextRunAt j routine.schedule routine.enabled nowMs).map asI64 }) ∨
      (¬ Fires json env nowMs t r ∧ r' = r) := by
  unfold tick
  cases hdue : dueAcrossAllUsers json t nowMs with
  | error e =>
    have hno : ∀ r, ¬ Fires json env nowMs t r := by
      rintro r ⟨hall, -⟩
      obtain ⟨due, hok⟩ := due_ok_iff.mpr hall
      rw [hdue] at hok
      cases hok
    simp [hno]
  | ok due =>
    have hall := due_ok_iff.mp ⟨due, hdue⟩
    rw [(foldl_fire due (t, [])).1, List.mem_map]
    refine exists_congr fun r => and_congr_right fun hr => ?_
    by_cases hisDue : isDue nowMs r = true
    · obtain ⟨routine, hread⟩ := hall r hr hisDue
      have hkeys := key_of_due hdue hr
      have hexists : ∃ d ∈ due, (d.1, d.2.name) = r.key :=
        ⟨_, (hkeys (r.projectId, routine)).mpr ⟨hisDue, rfl, hread⟩⟩
      rw [foldl_armRow due r _ fun d hd hk => by
        obtain ⟨-, -, hd'⟩ := (hkeys d).mp ⟨hd, hk⟩
        rw [← Except.ok.inj (hread.symm.trans hd')]]
      by_cases hok : env.resolves r.projectId = true ∧ env.writes r.key = true
      · have hfires : Fires json env nowMs t r := ⟨hall, hisDue, hok⟩
        rw [if_pos ⟨hexists, hok⟩]
        refine ⟨fun h => .inl ⟨hfires, routine, hread, h.symm⟩, ?_⟩
        rintro (⟨-, routine', hread', rfl⟩ | ⟨hno, -⟩)
        · rw [Except.ok.inj (hread.symm.trans hread')]
        · exact absurd hfires hno
      · have hno : ¬ Fires json env nowMs t r := fun h => hok h.2.2
        rw [if_neg fun h => hok h.2]
        refine ⟨fun h => .inr ⟨hno, h.symm⟩, ?_⟩
        rintro (⟨hfires, -⟩ | ⟨-, rfl⟩)
        · exact absurd hfires hno
        · rfl
    · have hno : ¬ ∃ d ∈ due, (d.1, d.2.name) = r.key := by
        rintro ⟨d, hd⟩
        exact hisDue ((key_of_due hdue hr d).mp hd).1
      have hnever : ¬ Fires json env nowMs t r := fun h => hisDue h.2.1
      rw [foldl_armRow due r none fun d hd hk => absurd ⟨d, hd, hk⟩ hno,
        if_neg fun h => hno h.1]
      refine ⟨fun h => .inr ⟨hnever, h.symm⟩, ?_⟩
      rintro (⟨hfires, -⟩ | ⟨-, rfl⟩)
      · exact absurd hfires hnever
      · rfl

end

end Horsie.Routines
