import Horsie.Lib.Take
import Horsie.Lib.Transition
import Horsie.Routines.Store

/-!
# Ticks that overlap

A tick reads the due rows once, and then comes to each of them in turn: it moves the timer without a
look at the row, reads the routine by its name and starts a session. Edits and the ticks of other
nodes go on in between. No edit is undone and no instant fires twice as long as each turn finds the
row gone or as the tick read it, and no other tick has taken the instant (`ticks_keep_edits`).
-/

namespace Horsie.Routines

open Horsie.Lib

/-! ## Ticks and edits -/

/-- A due routine of a tick, and how often its row had been written and created when it was
read. -/
structure Turn (Environment : Type) where
  project : String
  routine : RoutineRow Environment
  writes : ℕ
  born : ℕ

def Turn.key {Environment : Type} (t : Turn Environment) : String × String :=
  (t.project, t.routine.name)

def Turn.instant {Environment : Type} (t : Turn Environment) : (String × String) × ℕ :=
  (t.key, t.writes)

/-- What a turn comes upon. -/
inductive Found
  | gone
  | changed
  | kept
deriving DecidableEq

inductive Phase (Environment : Type)
  | idle
  | armed (turn : Turn Environment) (found : Found)
  | loaded (turn : Turn Environment) (found : Found)

def Phase.instant? {Environment : Type} : Phase Environment → Option ((String × String) × ℕ)
  | .idle => none
  | .armed turn _ | .loaded turn _ => some turn.instant

/-- A tick of a node. -/
structure Round (Environment : Type) where
  nowMs : ℕ
  due : List (Turn Environment)
  phase : Phase Environment

/-- The routines, the ticks of all nodes, and the sessions they started. -/
structure Ticking (Environment : Type) where
  table : RoutineTable
  rounds : List (Round Environment)
  writes : String × String → ℕ
  born : String × String → ℕ
  armedAt : String × String → ℕ
  started : List (((String × String) × ℕ) × Found)

namespace Ticking

variable {Environment : Type}

def init : Ticking Environment where
  table := .empty
  rounds := []
  writes _ := 0
  born _ := 0
  armedAt _ := 0
  started := []

inductive Label {Environment : Type} (json : Json Environment)
  | create (key : String × String) (input : RoutineInput json) (nowMs : ℕ)
  | replace (key : String × String) (input : RoutineInput json) (nowMs : ℕ)
  | delete (key : String × String)
  | read (nowMs : ℕ)
  | arm (i : ℕ)
  | load (i : ℕ)
  | start (i : ℕ)
  /-- What a tick does next fails: a project that is not found, a timer that is not moved, a
  routine that does not start. -/
  | fail (i : ℕ)

def found (w : Ticking Environment) (t : Turn Environment) : Found :=
  match w.table.find StoredRoutine.key t.key with
  | none => .gone
  | some r => if r.enabled ≠ 0 ∧ w.born t.key = t.born then .kept else .changed

/-- A row is written, and its timer is moved. -/
def wrote (w : Ticking Environment) (key : String × String) (nowMs : ℕ) (table : RoutineTable) :
    Ticking Environment :=
  { w with
    table
    writes := Function.update w.writes key (w.writes key + 1)
    armedAt := Function.update w.armedAt key nowMs }

def setRound (w : Ticking Environment) (i : ℕ) (round : Round Environment) :
    Ticking Environment :=
  { w with rounds := w.rounds.set i round }

section

variable (j : Jiff) (json : Json Environment)

def step? (w : Ticking Environment) : Label json → Option (Ticking Environment)
  | .create key input nowMs =>
    match validateSchedule j input.schedule with
    | .ok () =>
      (w.table.insert? (rowFromInput j key input nowMs)).map fun table =>
        { w.wrote key nowMs table with born := Function.update w.born key (w.born key + 1) }
    | .error _ => none
  | .replace key input nowMs =>
    match validateSchedule j input.schedule with
    | .ok () =>
      some (w.wrote key nowMs (Routines.replace w.table (rowFromInput j key input nowMs)))
    | .error _ => none
  | .delete key => some { w with table := Routines.delete w.table key }
  | .read nowMs =>
    match dueAcrossAllUsers json w.table nowMs with
    | .ok due =>
      some
        { w with
          rounds := w.rounds ++
            [{ nowMs
               due := due.map fun d =>
                { project := d.1
                  routine := d.2
                  writes := w.writes (d.1, d.2.name)
                  born := w.born (d.1, d.2.name) }
               phase := .idle }] }
    | .error _ => some w
  | .arm i =>
    match w.rounds[i]? with
    | some ⟨nowMs, t :: due, .idle⟩ =>
      some
        ((w.wrote t.key nowMs
          (Routines.arm w.table t.project t.routine.name
            (nextRunAt j t.routine.schedule t.routine.enabled nowMs))).setRound i
          ⟨nowMs, due, .armed t (w.found t)⟩)
    | _ => none
  | .load i =>
    match w.rounds[i]? with
    | some ⟨nowMs, due, .armed t found⟩ =>
      match (w.table.find StoredRoutine.key t.key).map (rowToRoutine json) with
      | some (.ok _) => some (w.setRound i ⟨nowMs, due, .loaded t found⟩)
      | _ => some (w.setRound i ⟨nowMs, due, .idle⟩)
    | _ => none
  | .start i =>
    match w.rounds[i]? with
    | some ⟨nowMs, due, .loaded t found⟩ =>
      some
        { w.setRound i ⟨nowMs, due, .idle⟩ with started := w.started ++ [(t.instant, found)] }
    | _ => none
  | .fail i =>
    match w.rounds[i]? with
    | some ⟨nowMs, _ :: due, .idle⟩ | some ⟨nowMs, due, .armed _ _⟩
    | some ⟨nowMs, due, .loaded _ _⟩ => some (w.setRound i ⟨nowMs, due, .idle⟩)
    | _ => none

end

end Ticking

def ticking {Environment : Type} (j : Jiff) (json : Json Environment) :
    System (Ticking Environment) (Ticking.Label json) :=
  .ofStep? .init (Ticking.step? j json)

namespace Ticking

variable {Environment : Type} (j : Jiff) (json : Json Environment)

/-! ## The property and its condition -/

def Finished (w : Ticking Environment) : Prop :=
  ∀ round ∈ w.rounds, round.due = [] ∧ round.phase.instant? = none

def TimersOfSchedules (w : Ticking Environment) : Prop :=
  ∀ r ∈ w.table.rows, ∃ routine, rowToRoutine json r = .ok routine ∧
    r.nextRunAtMs =
      (nextRunAt j routine.schedule routine.enabled (w.armedAt r.key)).map asI64

/-- No tick undid an edit or fired twice. -/
structure EditsKept (w : Ticking Environment) : Prop where
  timers : w.Finished → w.TimersOfSchedules j json
  /-- A routine that was disabled or deleted before its turn is not run. -/
  kept : ∀ x ∈ w.started, x.2 = .kept
  once : (w.started.map Prod.fst).Nodup

def asRead (t : Turn Environment) (r : StoredRoutine) : Bool :=
  match rowToRoutine json r with
  | .ok routine =>
    decide (routine.schedule = t.routine.schedule ∧ routine.enabled = t.routine.enabled)
  | .error _ => false

/-- An instant that no tick fires or has started a session for. -/
def free (w : Ticking Environment) (x : (String × String) × ℕ) : Bool :=
  w.started.all (fun y => decide (y.1 ≠ x)) &&
    w.rounds.all fun round => decide (round.phase.instant? ≠ some x)

/-- A turn comes upon the row as it was read, or upon none, and no other tick has taken its instant;
and a routine that was gone is not created again while the turn lasts. -/
def undisturbed (w : Ticking Environment) : Label json → Bool
  | .arm i =>
    match w.rounds[i]? with
    | some ⟨_, t :: _, _⟩ =>
      w.free t.instant &&
        (w.table.find StoredRoutine.key t.key).all fun r =>
          decide (w.born t.key = t.born) && asRead json t r
    | _ => true
  | .load i =>
    match w.rounds[i]? with
    | some ⟨_, _, .armed t .gone⟩ => (w.table.find StoredRoutine.key t.key).isNone
    | _ => true
  | _ => true

/-! ## Ticks -/

/-- The turns that are under way, and the sessions they led to. -/
structure Orderly (rounds : List (Round Environment))
    (started : List (((String × String) × ℕ) × Found)) : Prop where
  enabled : ∀ round ∈ rounds, ∀ t ∈ round.due, t.routine.enabled = true
  armed : ∀ round ∈ rounds, ∀ t found, round.phase = .armed t found → found ≠ .changed
  loaded : ∀ round ∈ rounds, ∀ t found, round.phase = .loaded t found → found = .kept
  kept : ∀ x ∈ started, x.2 = .kept
  apart : ∀ (i i' : ℕ) (round round' : Round Environment) (x : (String × String) × ℕ),
    rounds[i]? = some round → rounds[i']? = some round' → round.phase.instant? = some x →
      round'.phase.instant? = some x → i = i'
  fresh : ∀ round ∈ rounds, ∀ x, round.phase.instant? = some x → x ∉ started.map Prod.fst
  once : (started.map Prod.fst).Nodup

variable {j json} {w w' : Ticking Environment}

variable {i : ℕ} {rounds : List (Round Environment)}
  {started : List (((String × String) × ℕ) × Found)}

theorem Orderly.set (h : Orderly rounds started)
    {round round' : Round Environment} (hi : rounds[i]? = some round)
    (hdue : ∀ t ∈ round'.due, t ∈ round.due)
    (harmed : ∀ t found, round'.phase = .armed t found → found ≠ .changed)
    (hloaded : ∀ t found, round'.phase = .loaded t found → found = .kept)
    (hinstant : ∀ x, round'.phase.instant? = some x → round.phase.instant? = some x ∨
      x ∉ started.map Prod.fst ∧ ∀ r ∈ rounds, r.phase.instant? ≠ some x) :
    Orderly (rounds.set i round') started := by
  have hmem := List.mem_of_getElem? hi
  have hlt : i < rounds.length := (List.getElem?_eq_some_iff.mp hi).1
  refine ⟨fun r hr => ?_, fun r hr => ?_, fun r hr => ?_, h.kept, ?_, fun r hr => ?_, h.once⟩
  · rcases List.mem_or_eq_of_mem_set hr with hr | rfl
    · exact h.enabled r hr
    · exact fun t ht => h.enabled round hmem t (hdue t ht)
  · rcases List.mem_or_eq_of_mem_set hr with hr | rfl
    · exact h.armed r hr
    · exact harmed
  · rcases List.mem_or_eq_of_mem_set hr with hr | rfl
    · exact h.loaded r hr
    · exact hloaded
  · -- an instant that the tick fires now is fired by no other
    have hother : ∀ (k : ℕ) (r : Round Environment) (x : (String × String) × ℕ),
        rounds[k]? = some r → r.phase.instant? = some x → round'.phase.instant? = some x →
          i = k := by
      intro k r x hk hx hx'
      rcases hinstant x hx' with hown | ⟨-, hfree⟩
      · exact h.apart i k round r x hi hk hown hx
      · exact absurd hx (hfree r (List.mem_of_getElem? hk))
    intro a b r r' x ha hb hx hx'
    rcases eq_or_ne i a with rfl | hia <;> rcases eq_or_ne i b with rfl | hib
    · rfl
    · rw [List.getElem?_set_self hlt] at ha
      rw [List.getElem?_set_ne hib] at hb
      exact hother b r' x hb hx' (Option.some.inj ha ▸ hx)
    · rw [List.getElem?_set_self hlt] at hb
      rw [List.getElem?_set_ne hia] at ha
      exact (hother a r x ha hx (Option.some.inj hb ▸ hx')).symm
    · rw [List.getElem?_set_ne hia] at ha
      rw [List.getElem?_set_ne hib] at hb
      exact h.apart a b r r' x ha hb hx hx'
  · rcases List.mem_or_eq_of_mem_set hr with hr | rfl
    · exact h.fresh r hr
    · intro x hx
      rcases hinstant x hx with hown | ⟨hfree, -⟩
      · exact h.fresh round hmem x hown
      · exact hfree

theorem Orderly.append (h : Orderly rounds started)
    {round : Round Environment} (hdue : ∀ t ∈ round.due, t.routine.enabled = true)
    (hidle : round.phase = .idle) : Orderly (rounds ++ [round]) started := by
  have hnone : ∀ x, round.phase.instant? ≠ some x := fun x => by
    rw [hidle]
    exact (Option.some_ne_none x).symm
  have hold : ∀ (i : ℕ) (r : Round Environment) (x : (String × String) × ℕ),
      (rounds ++ [round])[i]? = some r → r.phase.instant? = some x → rounds[i]? = some r := by
    intro i r x hi hx
    rcases getElem?_snoc_cases hi with hi | ⟨-, rfl⟩
    · exact hi
    · exact absurd hx (hnone x)
  have hcases : ∀ {P : Round Environment → Prop}, (∀ r ∈ rounds, P r) → P round →
      ∀ r ∈ rounds ++ [round], P r := by
    intro P hrounds hround r hr
    rcases List.mem_append.mp hr with hr | hr
    · exact hrounds r hr
    · exact List.mem_singleton.mp hr ▸ hround
  refine ⟨hcases h.enabled hdue, hcases h.armed fun t found hp => ?_,
    hcases h.loaded fun t found hp => ?_, h.kept, fun a b r r' x ha hb hx hx' =>
      h.apart a b r r' x (hold a r x ha hx) (hold b r' x hb hx') hx hx',
    hcases h.fresh fun x hx => absurd hx (hnone x), h.once⟩
  · rw [hidle] at hp
    cases hp
  · rw [hidle] at hp
    cases hp

variable {nowMs : ℕ}

theorem Orderly.start (h : Orderly rounds started)
    {due : List (Turn Environment)} {t : Turn Environment} {found : Found}
    (hi : rounds[i]? = some ⟨nowMs, due, .loaded t found⟩) :
    Orderly (rounds.set i ⟨nowMs, due, .idle⟩) (started ++ [(t.instant, found)]) := by
  have hmem := List.mem_of_getElem? hi
  have hset : Orderly (rounds.set i ⟨nowMs, due, .idle⟩) started :=
    h.set hi (fun _ ht => ht) (by rintro _ _ ⟨⟩) (by rintro _ _ ⟨⟩) (by rintro _ ⟨⟩)
  refine ⟨hset.enabled, hset.armed, hset.loaded, fun x hx => ?_, hset.apart,
    fun r hr x hx => ?_, ?_⟩
  · rcases List.mem_append.mp hx with hx | hx
    · exact h.kept x hx
    · rw [List.mem_singleton.mp hx]
      exact h.loaded _ hmem t found rfl
  · rw [List.map_append, List.mem_append, not_or]
    refine ⟨hset.fresh r hr x hx, ?_⟩
    intro hown
    obtain rfl : x = t.instant := List.mem_singleton.mp hown
    -- its tick has let go of it, and no other had it
    obtain ⟨k, hk⟩ := List.mem_iff_getElem?.mp hr
    rcases eq_or_ne i k with rfl | hik
    · rw [List.getElem?_set_self (List.getElem?_eq_some_iff.mp hi).1] at hk
      rw [← Option.some.inj hk] at hx
      cases hx
    · rw [List.getElem?_set_ne hik] at hk
      exact hik (h.apart i k _ r t.instant hi hk rfl hx)
  · rw [List.map_append]
    refine List.Nodup.append h.once (List.nodup_singleton _) (List.disjoint_singleton.mpr ?_)
    exact h.fresh _ hmem t.instant rfl

theorem free_iff {x : (String × String) × ℕ} : w.free x = true ↔
    x ∉ w.started.map Prod.fst ∧ ∀ r ∈ w.rounds, r.phase.instant? ≠ some x := by
  unfold free
  simp only [Bool.and_eq_true, List.all_eq_true, decide_eq_true_eq, List.mem_map, not_exists,
    not_and]

theorem found_ne_changed {t : Turn Environment} {due : List (Turn Environment)}
    {phase : Phase Environment} (hi : w.rounds[i]? = some ⟨nowMs, t :: due, phase⟩)
    (henabled : t.routine.enabled = true) (hg : w.undisturbed json (.arm i) = true) :
    w.found t ≠ .changed := by
  unfold undisturbed at hg
  simp only [hi, Bool.and_eq_true, Option.all_eq_true] at hg
  unfold found
  cases hfind : w.table.find StoredRoutine.key t.key with
  | none => exact Found.noConfusion
  | some r =>
    obtain ⟨hborn, hread⟩ := hg.2 r hfind
    unfold asRead at hread
    cases hrow : rowToRoutine json r with
    | error e =>
      rw [hrow] at hread
      cases hread
    | ok routine =>
      rw [hrow] at hread
      obtain ⟨-, hsame⟩ := of_decide_eq_true hread
      obtain ⟨-, hstored, -, -⟩ := rowToRoutine_ok hrow
      have hne : r.enabled ≠ 0 := by
        rw [hsame, henabled] at hstored
        exact of_decide_eq_true hstored.symm
      dsimp only
      rw [if_pos ⟨hne, of_decide_eq_true hborn⟩]
      exact Found.noConfusion

/-! ## Steps -/

theorem Orderly.step (h : Orderly w.rounds w.started) {l : Label json}
    (hg : w.undisturbed json l = true) (hs : w.step? j json l = some w') :
    Orderly w'.rounds w'.started := by
  unfold step? at hs
  cases l with
  | create key input nowMs =>
    dsimp only at hs
    split at hs
    · obtain ⟨table, -, rfl⟩ := Option.map_eq_some_iff.mp hs
      exact h
    · cases hs
  | replace key input nowMs =>
    dsimp only at hs
    split at hs
    · cases hs
      exact h
    · cases hs
  | delete key =>
    cases hs
    exact h
  | read nowMs =>
    dsimp only at hs
    split at hs
    · rename_i due hdue
      cases hs
      refine h.append (fun t ht => ?_) rfl
      -- only enabled routines are due
      obtain ⟨d, hd, rfl⟩ := List.mem_map.mp ht
      obtain ⟨r, -, hisDue, -, hread⟩ := (isDue_of_mem hdue d).mp hd
      obtain ⟨-, henabled, -, -⟩ := rowToRoutine_ok hread
      unfold isDue at hisDue
      rw [Bool.and_eq_true] at hisDue
      show d.2.enabled = true
      rw [henabled, of_decide_eq_true hisDue.1]
      rfl
    · cases hs
      exact h
  | arm i =>
    dsimp only at hs
    split at hs
    · rename_i nowMs t due hi
      cases hs
      have henabled := h.enabled _ (List.mem_of_getElem? hi) t List.mem_cons_self
      have hfound := found_ne_changed hi henabled hg
      have hfree : w.free t.instant = true := by
        unfold undisturbed at hg
        simp only [hi, Bool.and_eq_true] at hg
        exact hg.1
      refine h.set hi (fun _ ht => List.mem_cons_of_mem _ ht) ?_ (by rintro _ _ ⟨⟩) ?_
      · rintro _ _ ⟨⟩
        exact hfound
      · rintro _ ⟨⟩
        exact .inr (free_iff.mp hfree)
    · cases hs
  | load i =>
    dsimp only at hs
    split at hs
    · rename_i nowMs due t found hi
      have harmed := h.armed _ (List.mem_of_getElem? hi) t found rfl
      split at hs
      · rename_i routine hload
        cases hs
        refine h.set hi (fun _ ht => ht) (by rintro _ _ ⟨⟩) ?_ ?_
        · rintro _ _ ⟨⟩
          -- one that was gone is gone still, and would not have been read
          cases found with
          | gone =>
            unfold undisturbed at hg
            simp only [hi, Option.isNone_iff_eq_none] at hg
            rw [hg] at hload
            cases hload
          | changed => exact absurd rfl harmed
          | kept => rfl
        · rintro _ ⟨⟩
          exact .inl rfl
      · cases hs
        exact h.set hi (fun _ ht => ht) (by rintro _ _ ⟨⟩) (by rintro _ _ ⟨⟩) (by rintro _ ⟨⟩)
    · cases hs
  | start i =>
    dsimp only at hs
    split at hs
    · rename_i nowMs due t found hi
      cases hs
      exact h.start hi
    · cases hs
  | fail i =>
    dsimp only at hs
    split at hs
    · rename_i hi
      cases hs
      exact h.set hi (fun _ ht => List.mem_cons_of_mem _ ht) (by rintro _ _ ⟨⟩)
        (by rintro _ _ ⟨⟩) (by rintro _ ⟨⟩)
    · rename_i hi
      cases hs
      exact h.set hi (fun _ ht => ht) (by rintro _ _ ⟨⟩) (by rintro _ _ ⟨⟩) (by rintro _ ⟨⟩)
    · rename_i hi
      cases hs
      exact h.set hi (fun _ ht => ht) (by rintro _ _ ⟨⟩) (by rintro _ _ ⟨⟩) (by rintro _ ⟨⟩)
    · cases hs

theorem timer_saved {key : String × String} {input : RoutineInput json} :
    ∃ routine, rowToRoutine json (rowFromInput j key input nowMs) = .ok routine ∧
      (rowFromInput j key input nowMs).nextRunAtMs =
        (nextRunAt j routine.schedule routine.enabled nowMs).map asI64 :=
  ⟨_, rowToRoutine_rowFromInput key input nowMs, rfl⟩

theorem TimersOfSchedules.step (h : w.TimersOfSchedules j json) {l : Label json}
    (hg : w.undisturbed json l = true) (hs : w.step? j json l = some w') :
    w'.TimersOfSchedules j json := by
  unfold step? at hs
  cases l with
  | create key input nowMs =>
    dsimp only at hs
    split at hs
    · obtain ⟨table, htable, rfl⟩ := Option.map_eq_some_iff.mp hs
      intro r hr
      have hnew := (Table.mem_insert? htable).mpr (.inr rfl)
      show ∃ routine, _ ∧ r.nextRunAtMs =
        (nextRunAt j _ _ (Function.update w.armedAt key nowMs r.key)).map asI64
      by_cases hk : r.key = key
      · obtain rfl := Table.eq_of_key List.mem_cons_self hr hnew hk
        rw [hk, Function.update_self]
        exact timer_saved
      · rw [Function.update_of_ne hk]
        refine h r (((Table.mem_insert? htable).mp hr).resolve_right ?_)
        rintro rfl
        exact hk rfl
    · cases hs
  | replace key input nowMs =>
    dsimp only at hs
    split at hs
    · cases hs
      intro r hr
      show ∃ routine, _ ∧ r.nextRunAtMs =
        (nextRunAt j _ _ (Function.update w.armedAt key nowMs r.key)).map asI64
      rcases mem_replace hr with ⟨hr, hk⟩ | rfl
      · have hk' : r.key ≠ key := hk
        rw [Function.update_of_ne hk']
        exact h r hr
      · rw [show (rowFromInput j key input nowMs).key = key from rfl, Function.update_self]
        exact timer_saved
    · cases hs
  | delete key =>
    cases hs
    exact fun r hr => h r (Table.mem_delete.mp hr).1
  | read nowMs =>
    dsimp only at hs
    split at hs <;> obtain rfl := Option.some.inj hs <;> exact h
  | arm i =>
    dsimp only at hs
    split at hs
    · rename_i nowMs t due hi
      cases hs
      intro r hr
      show ∃ routine, _ ∧ r.nextRunAtMs =
        (nextRunAt j _ _ (Function.update w.armedAt t.key nowMs r.key)).map asI64
      rcases mem_arm hr with ⟨hr, hk⟩ | ⟨r', hr', hk, rfl⟩
      · have hk' : r.key ≠ t.key := hk
        rw [Function.update_of_ne hk']
        exact h r hr
      · -- the row is the one that was read, so that its schedule is the tick's
        have hk' : r'.key = t.key := hk
        have hread : asRead json t r' = true := by
          unfold undisturbed at hg
          simp only [hi, Bool.and_eq_true, Option.all_eq_true] at hg
          exact (hg.2 r' (hk' ▸ Table.find_of_mem List.mem_cons_self hr')).2
        unfold asRead at hread
        cases hrow : rowToRoutine json r' with
        | error e =>
          rw [hrow] at hread
          cases hread
        | ok routine =>
          rw [hrow] at hread
          obtain ⟨hschedule, hsame⟩ := of_decide_eq_true hread
          refine ⟨_, rowToRoutine_setNext hrow _, ?_⟩
          show (nextRunAt j t.routine.schedule t.routine.enabled nowMs).map asI64 =
            (nextRunAt j routine.schedule routine.enabled
              (Function.update w.armedAt t.key nowMs r'.key)).map asI64
          rw [hk', Function.update_self, hschedule, hsame]
    · cases hs
  | load i =>
    dsimp only at hs
    split at hs
    · split at hs <;> obtain rfl := Option.some.inj hs <;> exact h
    · cases hs
  | start i =>
    dsimp only at hs
    split at hs
    · cases hs
      exact h
    · cases hs
  | fail i =>
    dsimp only at hs
    split at hs
    · cases hs
      exact h
    · cases hs
      exact h
    · cases hs
      exact h
    · cases hs

end Ticking

/-! ## Ticks that act on what they read -/

def minuteText : String := "\x7b\"type\":\"Every\",\"value\":\x7b\"intervalSecs\":60\x7d\x7d"

def RoutineInput.disable {Environment : Type} {json : Json Environment}
    (input : RoutineInput json) : RoutineInput json :=
  { input with enabled := false }

/-- A routine that is disabled after a tick has read it is armed and run all the same. Two ticks
that have read a routine both run it. -/
theorem stale_tick_undoes_edit :
    ∃ w w', (ticking Jiff.noZones (.onlySchedule minuteText (.every 60))).Reachable w ∧
      (ticking Jiff.noZones (.onlySchedule minuteText (.every 60))).Reachable w' ∧
      w.started = [((("p", "r"), 1), .changed)] ∧
      w'.started = [((("p", "r"), 1), .kept), ((("p", "r"), 1), .kept)] ∧
      ¬ w.EditsKept Jiff.noZones (.onlySchedule minuteText (.every 60)) ∧
      ¬ w'.EditsKept Jiff.noZones (.onlySchedule minuteText (.every 60)) := by
  have hrun : ((System.steps?
      (Ticking.step? Jiff.noZones (.onlySchedule minuteText (.every 60))) .init
      [.create ("p", "r") (.only minuteText (.every 60)) 0,
        .read 75000,
        .replace ("p", "r") (RoutineInput.only minuteText (.every 60)).disable 76000,
        .arm 0, .load 0, .start 0]).map fun w =>
          (w.table.rows, decide (w.started = [((("p", "r"), 1), .changed)]) &&
            w.rounds.all fun round => round.due.isEmpty && round.phase.instant?.isNone)) =
      some ([⟨"p", "r", agentText, noneText, minuteText, 0, some 135000⟩], true) := by
    decide +kernel
  have htwo : ((System.steps?
      (Ticking.step? Jiff.noZones (.onlySchedule minuteText (.every 60))) .init
      [.create ("p", "r") (.only minuteText (.every 60)) 0,
        .read 75000, .read 75001, .arm 0, .load 0, .start 0,
        .arm 1, .load 1, .start 1]).map fun w => w.started) =
      some [((("p", "r"), 1), .kept), ((("p", "r"), 1), .kept)] := by
    decide +kernel
  obtain ⟨w, hw, hx⟩ := Option.map_eq_some_iff.mp hrun
  obtain ⟨w', hw', hx'⟩ := Option.map_eq_some_iff.mp htwo
  obtain ⟨tr, htr, -⟩ := System.exec_steps? Ticking.init hw
  obtain ⟨tr', htr', -⟩ := System.exec_steps? Ticking.init hw'
  simp only [Prod.mk.injEq, Bool.and_eq_true, decide_eq_true_eq] at hx
  obtain ⟨hrows, hstarted, hrounds⟩ := hx
  refine ⟨w, w', htr.reachable (.init rfl), htr'.reachable (.init rfl), hstarted, hx',
    fun hkept => ?_, fun hkept => ?_⟩
  · -- its timer is that of the schedule while it was enabled
    have hfinished : w.Finished := fun round hround => by
      have hdone := List.all_eq_true.mp hrounds round hround
      rwa [Bool.and_eq_true, List.isEmpty_iff, Option.isNone_iff_eq_none] at hdone
    obtain ⟨routine, hread, hnext⟩ :=
      hkept.timers hfinished _ (by rw [hrows]; exact List.mem_cons_self)
    obtain ⟨-, henabled, -, -⟩ := rowToRoutine_ok hread
    rw [henabled] at hnext
    cases hnext
  · have honce := hkept.once
    rw [hx'] at honce
    exact absurd honce (by decide)

/-- Ticks of any number of nodes, and edits, of which each turn finds the row gone or with the
schedule that was read, takes an instant that no other tick has taken, and does not find a routine
again that was gone: when the ticks have finished the timers are those of the schedules, no routine
was run that had been disabled or deleted before its turn, and no instant started two sessions. -/
theorem ticks_keep_edits {Environment : Type} {j : Jiff} {json : Json Environment}
    {tr : List (Ticking Environment × Ticking.Label json × Ticking Environment)}
    {w : Ticking Environment} (h : (ticking j json).Exec .init tr w)
    (hg : ∀ x ∈ tr, x.1.undisturbed json x.2.1 = true) : w.EditsKept j json := by
  have hall : w.TimersOfSchedules j json ∧ Ticking.Orderly w.rounds w.started :=
    h.guarded (G := fun w l => w.undisturbed json l = true)
      (I := fun w => w.TimersOfSchedules j json ∧ Ticking.Orderly w.rounds w.started)
      (fun w _ _ _ hw hl hs => ⟨hw.1.step hl hs, hw.2.step hl hs⟩) (.init rfl)
      ⟨fun _ hr => absurd hr List.not_mem_nil, by constructor <;> simp [Ticking.init]⟩ hg
  exact ⟨fun _ => hall.1, hall.2.kept, hall.2.once⟩

/-- A routine is edited between two ticks, and after a third has read it is deleted. -/
theorem ticks_keep_edits_between : ∃ tr w,
    (ticking Jiff.noZones (.onlySchedule minuteText (.every 60))).Exec .init tr w ∧
      w.started = [((("p", "r"), 1), .kept), ((("p", "r"), 3), .kept)] ∧
      w.EditsKept Jiff.noZones (.onlySchedule minuteText (.every 60)) := by
  have hrun : ((System.steps? (System.guarded?
      (fun w l => Ticking.undisturbed (.onlySchedule minuteText (.every 60)) w l = true)
      (Ticking.step? Jiff.noZones (.onlySchedule minuteText (.every 60)))) .init
      [.create ("p", "r") (.only minuteText (.every 60)) 0,
        .read 75000, .arm 0, .read 75001, .load 0, .start 0,
        .replace ("p", "r") (.only minuteText (.every 60)) 80000,
        .read 150000, .arm 2, .load 2, .start 2,
        .read 225000, .delete ("p", "r"), .arm 3, .load 3]).map fun w => w.started) =
      some [((("p", "r"), 1), .kept), ((("p", "r"), 3), .kept)] := by
    decide +kernel
  obtain ⟨w, hw, hx⟩ := Option.map_eq_some_iff.mp hrun
  obtain ⟨tr, htr, -, hall⟩ := System.exec_guarded? Ticking.init hw
  exact ⟨tr, w, htr, hx, ticks_keep_edits htr hall⟩

end Horsie.Routines
