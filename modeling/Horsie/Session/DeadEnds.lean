import Horsie.Session.LateReports
import Horsie.Session.StepAgents

/-!
# Runs that cannot go on

Whoever invoked a run is owed a report of it. As long as no step of an invoked run is suspended,
every such run that is not over has a step in flight, whose end would end or move it, or a decision
that the next boundary carries out (`no_dead_end`). Suspension is for the session's own run, which a
person may retry: an invoked run whose step is stopped, or in flight as the session is loaded, is
suspended too, and nothing moves it any more (`stopped_step_strands`).
-/

namespace Horsie.Session

open Lib

/-! ## Runs that go on -/

namespace WorkflowRunState

variable {newV5 : String → String → String} {o : WorkflowOrchestrator} {w w' : WorkflowRunState}

/-- A run that is over, has a step in flight, or has something decided about it. -/
structure Going (newV5 : String → String → String) (o : WorkflowOrchestrator)
    (w : WorkflowRunState) : Prop where
  orderly : w.Orderly
  goes : w.status.isTerminal = true ∨ w.current.isSome ∨ o.stepActions newV5 w ≠ []

theorem going_default : WorkflowRunState.default.Going newV5 o where
  orderly := orderly_of_current rfl
  goes := .inr (.inr (WorkflowOrchestrator.stepActions_ne_nil ⟨rfl, .inl rfl⟩
    fun s hs => absurd hs (by simp [default])))

theorem Going.advanced (h : w.Going newV5 o) (ha : o.Advanced newV5 w w') : w'.Going newV5 o := by
  refine ⟨h.orderly.advanced ha, ?_⟩
  rcases ha with rfl | hd
  · exact h.goes
  · rcases hd.settled with hs | hs
    · exact .inl hs
    · exact .inr (.inl hs)

theorem Going.cancel (h : w.Going newV5 o) : w.cancel.Going newV5 o := by
  by_cases hterm : w.status.isTerminal = true
  · have hw : w.cancel = w := if_pos hterm
    rw [hw]
    exact h
  · have hw : w.cancel = w.interrupt.applyFailed stoppedError := if_neg hterm
    rw [hw]
    exact ⟨orderly_of_current h.orderly.interrupt, .inl rfl⟩

theorem Orderly.due_of_concluded (h : w.Orderly) {index : ℕ} (hc : w.current = some index)
    (output : Agent.Value) : o.stepActions newV5 (w.applyConcluded index output) ≠ [] := by
  have hi : ∀ i ∈ w.current, i = index := fun i hi => (Option.some.inj (hc.symm.trans hi)).symm
  obtain ⟨step, hstep, hrun⟩ := SessionState.getElem?_current hc
  have hlast := h.last index step hstep hrun
  refine WorkflowOrchestrator.stepActions_ne_nil
    ⟨h.current_modifyStep hi fun _ => StepStatus.noConfusion, .inr rfl⟩ ?_
  intro s hs
  change (w.steps.modify index _).getLast? = some s at hs
  rw [List.getLast?_eq_getElem?, List.length_modify, ← hlast, Nat.add_sub_cancel,
    List.getElem?_modify, hstep] at hs
  cases hs
  show (if index = index then _ else step).status = _
  rw [if_pos rfl]

theorem Going.reportAt (h : w.Going newV5 o) {index : ℕ} (hc : w.current = some index)
    (turn : TurnEnd) : (w.reportAt index turn).Going newV5 o := by
  refine ⟨h.orderly.reportAt hc turn, ?_⟩
  cases turn with
  | concluded output => exact .inr (.inr (h.orderly.due_of_concluded hc output))
  | failed => exact .inl rfl
  | asked =>
    right
    left
    show w.current.isSome
    rw [hc]
    rfl
  | parked | interrupted => exact h.goes

end WorkflowRunState

namespace SessionState

variable (s : SessionState) (env : Env)

/-! ## What strands a run -/

def isInvoked (r : String) : Bool := (s.forest.entry r).any (·.parent.isSome)

/-- Whether a command suspends a run that was invoked: its step in flight is stopped, or the load is
repaired while it has one. -/
def suspendsInvoked : SessionCommand → Bool
  | .turn (.stop name) =>
    (s.stopTarget name).any fun key =>
      match s.stopBoundary key with
      | some (.stepCancelled run _) => s.isInvoked run
      | _ => false
  | .run .reconcileInterrupted => s.forest.inFlightSteps.any fun x => s.isInvoked x.1
  | _ => false

/-- Whether a command reports, to be recorded, the end of an execution of an invoked run that has
ended. -/
def reportsInvokedLate (c : SessionCommand) : Bool :=
  match s.reportOf env c with
  | none => false
  | some (agent, turn) =>
    turn.isRecorded && (s.forest.executionOfAgent agent).any fun x =>
      s.isInvoked x.1 && !s.isInFlight x.1 x.2

/-- A command that leaves invoked runs a way on. -/
def Careful (c : SessionCommand) : Prop :=
  s.suspendsInvoked c = false ∧ s.reportsInvokedLate env c = false

instance (c : SessionCommand) : Decidable (s.Careful env c) := inferInstanceAs (Decidable (_ ∧ _))

inductive GetsOn (newV5 : String → String → String) (id r : String) (v : WorkflowRun) : Prop
  | inFlight {index : ℕ} {step : StepRun} (hc : v.run.current = some index)
      (hs : v.run.steps[index]? = some step)
      (ends : ∀ (env : Env) (error : String) (recoverable terminal : Bool),
        ((s.applyAll (s.handleCommand (env.serving id newV5)
          (.agentOutcome step.agent (.failed error recoverable terminal))).events).forest.workflow
            r).map (·.run.status) = some .failed) : GetsOn newV5 id r v
  /-- Something is decided about it, and carried out as soon as the session has its runtime. -/
  | due (h : WorkflowOrchestrator.stepActions newV5 ⟨r, v.graph⟩ v.run ≠ [])
      (moves : (s.sessionRuntime id).readyOn = true → ∀ env : Env, ∃ w',
        (s.applyAll (s.handleCommand (env.serving id newV5) (.run .advance)).events).forest.progress
          r = some (v.graph, w') ∧
        WorkflowOrchestrator.Driven newV5 ⟨r, v.graph⟩ v.run w') : GetsOn newV5 id r v

/-- Every run that was invoked and is not over gets to its end. -/
def NoDeadEnd (newV5 : String → String → String) (id : String) : Prop :=
  ∀ r parent v, s.forest.entry r = some ⟨some parent, .workflow v⟩ →
    v.run.status.isTerminal = false → s.GetsOn newV5 id r v

/-- Every run that was invoked goes on. -/
def Going (newV5 : String → String → String) : Prop :=
  ∀ r g w, s.forest.progress r = some (g, w) → s.isInvoked r = true → w.Going newV5 ⟨r, g⟩

variable {s env} {c : SessionCommand} {r id : String} {g : WorkflowRunSpec}
  {w w' : WorkflowRunState} {newV5 : String → String → String}

theorem isInvoked_iff : s.isInvoked r = true ↔ ∃ parent kind, s.forest.shape r =
    some (some parent, kind) := by
  unfold isInvoked RunForest.shape
  cases s.forest.entry r with
  | none => simp
  | some e =>
    rw [Option.any_some, Option.isSome_iff_exists]
    simp

theorem Careful.inTime (h : s.Careful env c) (hr : s.isInvoked r = true) : s.InTime env c r := by
  intro agent turn index hrep hx hturn
  have hlate := h.2
  unfold reportsInvokedLate at hlate
  rw [hrep] at hlate
  simpa only [hx, hturn, hr, Option.any_some, Bool.true_and, Bool.not_eq_false'] using hlate

theorem mem_inFlightSteps (hp : s.forest.progress r = some (g, w)) {index : ℕ}
    (hc : w.current = some index) :
    ∃ step, w.steps[index]? = some step ∧ (r, index, step.agent) ∈ s.forest.inFlightSteps := by
  obtain ⟨step, hstep, -⟩ := getElem?_current hc
  obtain ⟨parent, v, he, -, rfl⟩ := entry_of_progress hp
  refine ⟨step, hstep, List.mem_filterMap.mpr ⟨(r, v), ?_, ?_⟩⟩
  · exact List.mem_filterMap.mpr ⟨_, Map.mem_toPairs.mpr he, rfl⟩
  · simp only [hc, Option.bind_some, hstep, Option.map_some]

theorem Touched.going (h : Touched s env c r w w') (hcareful : s.Careful env c)
    (hroot : s.Rooted env.id) (hr : s.isInvoked r = true) (hw : w.Going env.newV5 ⟨r, g⟩)
    (hp : s.forest.progress r = some (g, w)) : w'.Going env.newV5 ⟨r, g⟩ := by
  have hnotRoot : s.forest.root ≠ some r := by
    intro hroot'
    obtain ⟨parent, kind, hshape⟩ := isInvoked_iff.mp hr
    rcases hroot.root r hroot' with h | h <;> rw [h] at hshape <;> simp at hshape
  cases h with
  | kept => exact hw
  | @reported agent turn index hrep hx =>
    by_cases hturn : turn.isRecorded = true
    · exact hw.reportAt ((hcareful.inTime hr).current hw.orderly hrep hx hturn hp) turn
    · rw [reportAt_of_not_isRecorded (Bool.eq_false_iff.mpr hturn)]
      exact hw
  | cancelled => exact hw.cancel
  | @stopped agent key index w₁ hc hk hs hw₁ =>
    have hno := hcareful.1
    rw [hc] at hno
    unfold suspendsInvoked at hno
    simp only [hk, hs, Option.any_some, hr] at hno
    cases hno
  | reconciled hc =>
    cases hcur : w.current with
    | none =>
      have hsame : w.interrupt = w := by
        unfold WorkflowRunState.interrupt
        rw [hcur]
      rw [hsame]
      exact hw
    | some index =>
      obtain ⟨step, -, hmem⟩ := mem_inFlightSteps hp hcur
      have hno := hcareful.1
      rw [hc] at hno
      exact absurd hr (List.any_eq_false.mp hno _ hmem)
  | restarted hc hroot' => exact absurd hroot' hnotRoot
  | unstarted hc hroot' => exact absurd hroot' hnotRoot

theorem Going.handleCommand (h : s.Going env.newV5) (hroot : s.Rooted env.id)
    (hfresh : s.forest.entry env.fresh = none) (hcareful : s.Careful env c) :
    (s.applyAll (s.handleCommand env c).events).Going env.newV5 := by
  intro r g w hp hr
  obtain ⟨w', hadv, ⟨-, rfl⟩ | ⟨before, hbefore, htouched⟩⟩ := handled hroot hfresh hp
  · exact WorkflowRunState.going_default.advanced hadv
  · obtain ⟨parent, v, he, -, -⟩ := entry_of_progress hbefore
    obtain ⟨parent', kind, hshape⟩ := isInvoked_iff.mp hr
    have hold : s.forest.shape r = some (parent, .workflow) := by
      unfold RunForest.shape
      rw [he]
      rfl
    have hr' : s.isInvoked r = true := by
      rw [shape_handleCommand hroot hfresh hold hshape] at hold
      exact isInvoked_iff.mpr ⟨parent', kind, hold⟩
    exact (htouched.going hcareful hroot hr' (h r g before hbefore hr') hbefore).advanced hadv

/-! ## The ways on -/

theorem status_of_failed (hspec : s.spec.isSome) (hp : s.forest.progress r = some (g, w))
    {index : ℕ} {agent error : String} {recoverable terminal : Bool}
    (hx : s.forest.executionOfAgent agent = some (r, index)) :
    ((s.applyAll (s.handleCommand env
      (.agentOutcome agent (.failed error recoverable terminal))).events).forest.workflow r).map
        (·.run.status) = some .failed := by
  have hkey : s.agentKeyOf agent = some (.step agent) := agentKeyOf_of_executionOfAgent hx
  have hevents : (s.handleCommand env
      (.agentOutcome agent (.failed error recoverable terminal))).events =
      (s.persistAndAdvance env [.stepFailed r index error]).events := by
    rw [handleCommand_of_told hspec]
    show (s.onTurnEnd env agent (.failed error terminal)).events = _
    unfold onTurnEnd
    rw [hkey]
    simp only [hx]
    rfl
  have hfailed : (s.applyAll [.stepFailed r index error]).forest.progress r =
      some (g, (w.applyStepFailed index error).applyFailed error) :=
    progress_applyAll_own rfl (k := fun w => (w.applyStepFailed index error).applyFailed error) rfl
      hp
  obtain ⟨w', hw', hadv⟩ := progress_flushThenDrain hfailed
  rw [hevents, persistAndAdvance_events, applyAll_append]
  obtain rfl := advanced_of_settled hadv (.inr (.inl rfl))
  obtain ⟨v, hv, -, hrun⟩ := RunForest.progress_eq_some.mp hw'
  rw [hv, Option.map_some, hrun]
  rfl

theorem noDeadEnd (h : s.Going newV5) (hroot : s.Rooted id) (hagents : s.StepAgents newV5)
    (hd : Derives newV5 id) : s.NoDeadEnd newV5 id := by
  intro r parent v he hterm
  have hp : s.forest.progress r = some (v.graph, v.run) := by
    unfold RunForest.progress RunForest.workflow
    rw [he]
    rfl
  have hr : s.isInvoked r = true := by
    unfold isInvoked
    rw [he]
    rfl
  have hspec : s.spec.isSome := by
    cases hs : s.spec with
    | some => rfl
    | none =>
      rw [hroot.untold hs] at he
      exact absurd he (by simp [RunForest.entry, RunForest.empty])
  rcases (h r v.graph v.run hp hr).goes with hover | hcur | hdue
  · rw [hterm] at hover
    cases hover
  · obtain ⟨index, hc⟩ := Option.isSome_iff_exists.mp hcur
    obtain ⟨step, hstep, -⟩ := getElem?_current hc
    refine .inFlight hc hstep fun env error recoverable terminal => ?_
    exact status_of_failed hspec hp (executionOfAgent_derived hagents hd hp hstep)
  · refine .due hdue fun hready env => ?_
    rw [handleCommand_of_told hspec]
    exact driven_flushThenDrain hp hready hdue

/-- As long as no command suspends an invoked run or reports late of one, no invoked run is ever
stuck. -/
theorem no_dead_end (id : String) (newV5 : String → String → String) (hd : Derives newV5 id)
    {tr : List (SessionState × (Env × SessionCommand) × SessionState)} {t : SessionState}
    (h : (running id newV5).Exec .empty tr t)
    (hcareful : ∀ x ∈ tr, x.1.Careful (x.2.1.1.serving id newV5) x.2.1.2) :
    t.NoDeadEnd newV5 id := by
  have hinit : (running id newV5).Reachable .empty := .init rfl
  have hreach := h.reachable hinit
  refine noDeadEnd ?_ (rooted_of_reachable hd.apart hreach) (stepAgents_of_reachable hd hreach) hd
  refine h.guarded (G := fun s l => s.Careful (l.1.serving id newV5) l.2)
    (I := fun s => s.Going newV5) ?_ hinit ?_ hcareful
  · rintro s l t hs hgoing hc ⟨hunused, rfl⟩
    exact hgoing.handleCommand (rooted_of_reachable hd.apart hs) hunused.entry hc
  · intro r g w hp
    exact absurd hp (by simp [RunForest.progress, RunForest.workflow, RunForest.entry,
      SessionState.empty, RunForest.empty])

def agentSession : SessionSpec := ⟨.agent, none⟩

def oneStep : WorkflowRunSpec where
  workflow := "review"
  start := "a"
  steps := [⟨"a", "first", []⟩]
  input := ""
  maxSteps := 9

/-- A run is invoked, and its step is in flight. -/
theorem no_dead_end_invoked : ∃ tr t, (running "s" joined).Exec .empty tr t ∧
    (t.forest.workflow "1").map (·.run.current) = some (some 0) ∧ t.NoDeadEnd joined "s" := by
  let ls : List (Env × SessionCommand) :=
    [(.plain "1", .core (.create agentSession none none)),
      (.plain "1", .run (.create "s" oneStep)), (.plain "2", .run (.finishCreate "1" true))]
  let G : SessionState → Env × SessionCommand → Prop := fun s l =>
    s.Careful (l.1.serving "s" joined) l.2
  let t := (System.steps? (System.guarded? G serve?) .empty ls).get (by decide +kernel)
  obtain ⟨tr, htr, -, hcareful⟩ := exec_guarded_serve? (G := G) (t := t)
    (Option.some_get _).symm
  exact ⟨tr, t, htr, by decide +kernel,
    no_dead_end "s" joined (derives_joined rfl) htr hcareful⟩

/-- The step of an invoked run is stopped. The run is suspended, and only the session's own run can
be retried. -/
theorem stopped_step_strands :
    ¬ ∀ tr t, (running "s" joined).Exec .empty tr t → t.NoDeadEnd joined "s" := by
  let ls : List (Env × SessionCommand) :=
    [(.plain "1", .core (.create agentSession none none)),
      (.plain "1", .run (.create "s" oneStep)), (.plain "2", .run (.finishCreate "1" true)),
      (.plain "2", .turn (.stop "1/step:0"))]
  let t := (System.steps? serve? .empty ls).get (by decide +kernel)
  obtain ⟨tr, htr, -⟩ := exec_serve? (t := t) (Option.some_get _).symm
  intro hall
  have hrun : (t.forest.entry "1").map (fun e => (e.parent, e.state.workflow?.map fun v =>
      (v.run.status, v.run.current,
        (WorkflowOrchestrator.stepActions joined ⟨"1", v.graph⟩ v.run).isEmpty))) =
      some (some "s", some (.suspended, none, true)) := by decide +kernel
  obtain ⟨⟨parent, state⟩, he, heq⟩ := Option.map_eq_some_iff.mp hrun
  obtain ⟨rfl, hstate⟩ := Prod.mk.inj heq
  cases state with
  | main | sub | subSession => exact absurd hstate (by simp [RunState.workflow?])
  | workflow v =>
    obtain ⟨hsuspended, hrest⟩ := Prod.mk.inj (Option.some.inj hstate)
    obtain ⟨hcurrent, hdue⟩ := Prod.mk.inj hrest
    cases hall tr t htr "1" "s" v he (by rw [hsuspended]; rfl) with
    | inFlight hc =>
      rw [hcurrent] at hc
      cases hc
    | due h => exact h (List.isEmpty_iff.mp hdue)

end SessionState

end Horsie.Session
