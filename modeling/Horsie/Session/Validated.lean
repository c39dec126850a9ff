import Horsie.Session.Definition
import Horsie.Session.RunLog

/-!
# Runs of validated definitions

The driver can fail a run for a step that is not there, and it routes on whatever a result says. A
run of a saved definition whose steps' results were accepted gives it no reason to: all executions
are of steps of the definition, and what concluded names an outcome the step declares (`Sane`).
This holds of every run a session reaches, whatever else happens to it, so all its driver ever fails
it for is the step budget (`validated_never_fails_internally`).
-/

namespace Horsie.Session

open Lib
open Agent (Value)

variable {d : WorkflowInput} {newV5 : String → String → String} {o : WorkflowOrchestrator}
  {w w' : WorkflowRunState}

/-! ## What the driver may do -/

/-- An execution of one of the definition's steps, with an accepted result if it concluded. -/
structure StepRun.Sane (d : WorkflowInput) (s : StepRun) : Prop where
  known : (d.step s.step).isSome
  accepted : s.status = .concluded → d.Accepts s.step (s.output.getD .null)

def WorkflowRunState.Sane (d : WorkflowInput) (w : WorkflowRunState) : Prop :=
  ∀ (i : ℕ) (s : StepRun), w.steps[i]? = some s → s.Sane d

/-- A decision that is no internal failure: a step of the definition is started, the run is
finished, or its steps are used up. -/
def AgentAction.Meant (d : WorkflowInput) (spec : WorkflowRunSpec) : AgentAction → Prop
  | .startStep st => (d.step st.step).isSome
  | .finish _ _ => True
  | .fail _ error => error = WorkflowOrchestrator.budgetError spec
  | .deliver _ => False

/-- What is promised of a driver: it decides nothing else, it routes on outcomes that are declared,
and what it follows leads to steps of the definition. -/
structure WorkflowOrchestrator.Guided (d : WorkflowInput) (newV5 : String → String → String)
    (o : WorkflowOrchestrator) (w : WorkflowRunState) : Prop where
  decided : ∀ a ∈ o.stepActions newV5 w, a.Meant d o.spec
  routed : ∀ index last, w.last = some (index, last) → last.status = .concluded →
    d.Declares last.step (outcomeOf (last.output.getD .null))
  followed : ∀ index last target, w.last = some (index, last) → last.status = .concluded →
    o.spec.successor last.step (last.output.getD .null) = some target → (d.step target).isSome

theorem WorkflowRunSpec.successor_of_next {spec : WorkflowRunSpec} {name target : String}
    {output : Value} {step : WorkflowStepSpec} {via : Option String}
    (hstep : spec.step name = some step)
    (hnext : nextTransition step.transitions (outcomeOf output) = some (target, via)) :
    spec.successor name output = some target := by
  unfold WorkflowRunSpec.successor
  rw [hstep, Option.bind_some, hnext]
  rfl

/-- The graph of a run of the definition. -/
structure WorkflowRunSpec.Of (d : WorkflowInput) (spec : WorkflowRunSpec) : Prop where
  valid : d.Valid
  start : spec.start = d.start
  step : ∀ name, spec.step name = (d.step name).map WorkflowStepDef.resolve

namespace WorkflowRunSpec.Of

variable {spec : WorkflowRunSpec} {name target : String} {output : Value}

theorem isSome_step (h : spec.Of d) : (spec.step name).isSome = (d.step name).isSome := by
  rw [h.step, Option.isSome_map]

theorem there (h : spec.Of d) (hname : (d.step name).isSome) :
    ¬ (spec.step name).isNone = true := by
  rw [Option.isNone_iff_eq_none, ← Option.not_isSome_iff_eq_none, h.isSome_step, hname]
  exact not_not_intro rfl

theorem transition_mem {ts : List TransitionSpec} {outcome : String} {x : String × Option String}
    (h : nextTransition ts outcome = some x) : ∃ t ∈ ts, t.target = x.1 := by
  induction ts with
  | nil => cases h
  | cons t ts ih =>
    rw [nextTransition] at h
    split at h
    · cases h
      exact ⟨t, List.mem_cons_self, rfl⟩
    · split_ifs at h
      · cases h
        exact ⟨t, List.mem_cons_self, rfl⟩
      · obtain ⟨t', ht', htarget⟩ := ih h
        exact ⟨t', List.mem_cons_of_mem _ ht', htarget⟩

theorem successor (h : spec.Of d) (hs : spec.successor name output = some target) :
    (d.step target).isSome := by
  unfold WorkflowRunSpec.successor at hs
  obtain ⟨s, hstep, hs⟩ := Option.bind_eq_some_iff.mp hs
  obtain ⟨x, hx, rfl⟩ := Option.map_eq_some_iff.mp hs
  rw [h.step] at hstep
  obtain ⟨def', hdef, rfl⟩ := Option.map_eq_some_iff.mp hstep
  obtain ⟨t, ht, htarget⟩ := transition_mem hx
  rw [← htarget]
  exact h.valid.target def' (List.mem_of_find?_eq_some hdef) t ht

end WorkflowRunSpec.Of

theorem WorkflowRunState.Sane.last (h : w.Sane d) {index : ℕ} {s : StepRun}
    (hl : w.last = some (index, s)) : s.Sane d := by
  unfold WorkflowRunState.last at hl
  obtain ⟨x, hx, heq⟩ := Option.map_eq_some_iff.mp hl
  cases heq
  rw [List.getLast?_eq_getElem?] at hx
  exact h _ _ hx

theorem WorkflowRunState.Sane.decided (h : w.Sane d) (hspec : o.spec.Of d) {a : AgentAction}
    (ha : a ∈ o.stepActions newV5 w) : a.Meant d o.spec := by
  rw [WorkflowOrchestrator.stepActions, List.mem_ite_nil_left] at ha
  obtain ⟨-, ha⟩ := ha
  by_cases hbudget : w.steps.length ≥ o.spec.maxSteps
  · rw [if_pos hbudget] at ha
    obtain rfl := List.mem_singleton.mp ha
    rfl
  · rw [if_neg hbudget] at ha
    cases hlast : w.last with
    | none =>
      have hstart : (d.step o.spec.start).isSome := by
        rw [hspec.start]
        exact hspec.valid.start
      rw [hlast] at ha
      rw [if_neg (hspec.there hstart)] at ha
      obtain rfl := List.mem_singleton.mp ha
      exact hstart
    | some x =>
      obtain ⟨index, last⟩ := x
      rw [hlast] at ha
      rw [List.mem_ite_nil_left] at ha
      obtain ⟨-, ha⟩ := ha
      cases hstep : o.spec.step last.step with
      | none =>
        have hmissing := Option.isNone_iff_eq_none.mpr hstep
        exact absurd hmissing (hspec.there (h.last hlast).known)
      | some step =>
        rw [hstep] at ha
        dsimp only at ha
        cases hnext : nextTransition step.transitions (outcomeOf (last.output.getD .null)) with
        | none =>
          rw [hnext] at ha
          obtain rfl := List.mem_singleton.mp ha
          trivial
        | some x =>
          obtain ⟨target, via⟩ := x
          have htarget : (d.step target).isSome :=
            hspec.successor (WorkflowRunSpec.successor_of_next hstep hnext)
          rw [hnext] at ha
          dsimp only at ha
          rw [if_neg (hspec.there htarget)] at ha
          obtain rfl := List.mem_singleton.mp ha
          exact htarget

theorem WorkflowRunState.Sane.guided (h : w.Sane d) (hspec : o.spec.Of d) :
    o.Guided d newV5 w where
  decided _ ha := h.decided hspec ha
  routed _ _ hlast hconcluded := ((h.last hlast).accepted hconcluded).declares
  followed _ _ _ _ _ hs := hspec.successor hs

/-! ## What becomes of a run -/

namespace WorkflowRunState.Sane

variable {index : ℕ}

theorem of_steps (h : w.Sane d) (hs : w'.steps = w.steps) : w'.Sane d := by
  intro i s hi
  rw [hs] at hi
  exact h i s hi

theorem modifyStep (h : w.Sane d) (index : ℕ) {f : StepRun → StepRun}
    (hf : ∀ s, w.steps[index]? = some s → s.Sane d → (f s).Sane d) :
    (w.modifyStep index f).Sane d := by
  intro i s hi
  rcases getElem?_modify_cases hi with ⟨rfl, s', hs', rfl⟩ | ⟨-, hi⟩
  · exact hf s' hs' (h _ s' hs')
  · exact h i s hi

theorem applyCancelled (h : w.Sane d) (index : ℕ) : (w.applyCancelled index).Sane d := by
  refine (h.modifyStep index (f := fun s => { s with status := .cancelled }) ?_).of_steps rfl
  intro s _ hs
  exact ⟨hs.known, fun h => StepStatus.noConfusion h⟩

theorem interrupt (h : w.Sane d) : w.interrupt.Sane d := by
  unfold WorkflowRunState.interrupt
  split
  · exact h.applyCancelled _
  · exact h

theorem cancel (h : w.Sane d) : w.cancel.Sane d := by
  unfold WorkflowRunState.cancel
  split_ifs
  · exact h
  · exact h.interrupt.of_steps rfl

theorem applyStarted (h : w.Sane d) {step agent : String} {attempt : ℕ} {origin : Option ℕ}
    {via : Option String} {input : String} (hstep : (d.step step).isSome) :
    (w.applyStarted step agent attempt origin via input).Sane d := by
  intro i s hi
  rcases getElem?_snoc_cases hi with hi | ⟨-, rfl⟩
  · exact h i s hi
  · exact ⟨hstep, fun h => StepStatus.noConfusion h⟩

theorem reportAt (h : w.Sane d) {turn : TurnEnd}
    (haccepted : ∀ output s, turn = .concluded output → w.steps[index]? = some s →
      d.Accepts s.step output) : (w.reportAt index turn).Sane d := by
  cases turn with
  | concluded output =>
    refine (h.modifyStep index
      (f := fun s => { s with status := .concluded, output := some output }) ?_).of_steps rfl
    intro s hi hs
    exact ⟨hs.known, fun _ => haccepted output s rfl hi⟩
  | failed error terminal =>
    refine (h.modifyStep index
      (f := fun s => { s with status := .failed, error := some error }) ?_).of_steps rfl
    intro s _ hs
    exact ⟨hs.known, fun h => StepStatus.noConfusion h⟩
  | asked => exact h.of_steps rfl
  | parked | interrupted => exact h

theorem advanced (h : w.Sane d) (hspec : o.spec.Of d) (ha : o.Advanced newV5 w w') : w'.Sane d := by
  rcases ha with rfl | ⟨a, ha, hc⟩
  · exact h
  · rcases hc with rfl | ⟨st, error, rfl, rfl⟩
    · cases a with
      | startStep st => exact h.applyStarted ((h.guided hspec).decided _ ha)
      | finish | fail | deliver => exact h.of_steps rfl
    · exact h.of_steps rfl

end WorkflowRunState.Sane

/-! ## Runs of a session -/

namespace SessionState

variable {s : SessionState} {env : Env} {c : SessionCommand} {r : String} {g : WorkflowRunSpec}

def ReportsAccepted (d : WorkflowInput) (r : String) (g : WorkflowRunSpec) (s : SessionState)
    (env : Env) (c : SessionCommand) : Prop :=
  ∀ (agent : String) (output : Value) (index : ℕ) (w : WorkflowRunState) (step : StepRun),
    s.reportOf env c = some (agent, .concluded output) →
      s.forest.executionOfAgent agent = some (r, index) → s.forest.progress r = some (g, w) →
        w.steps[index]? = some step → d.Accepts step.step output

/-- The driver of the run is asked on the record `w` while the command is handled: on what was
recorded for the command, or once the boundary has moved the run. -/
def Consults (s : SessionState) (env : Env) (c : SessionCommand) (r : String)
    (g : WorkflowRunSpec) (w : WorkflowRunState) : Prop :=
  ∃ recorded, s.Recorded env c recorded ∧
    (s.handleCommand env c).events =
      recorded ++ ((s.applyAll recorded).flushThenDrain env).events ∧
    ∃ w', (s.applyAll recorded).forest.progress r = some (g, w') ∧
      WorkflowOrchestrator.Advanced env.newV5 ⟨r, g⟩ w' w

def Sane (d : WorkflowInput) (r : String) (g : WorkflowRunSpec) (s : SessionState) : Prop :=
  ∀ w, s.forest.progress r = some (g, w) → w.Sane d

theorem sane_default : WorkflowRunState.default.Sane d := fun _ _ hi => by cases hi

theorem Touched.sane (h : Touched s env c r w w') (hp : s.forest.progress r = some (g, w))
    (haccepted : ReportsAccepted d r g s env c) (hw : w.Sane d) : w'.Sane d := by
  cases h with
  | kept => exact hw
  | @reported agent turn index hr hx =>
    refine hw.reportAt ?_
    rintro output step rfl hstep
    exact haccepted agent output index w step hr hx hp hstep
  | cancelled => exact hw.cancel
  | @stopped _ _ _ w₁ _ _ _ hw₁ =>
    rcases hw₁ with rfl | ⟨-, -, -, rfl⟩
    · exact hw.applyCancelled _
    · exact hw.cancel.applyCancelled _
  | reconciled => exact hw.interrupt
  | @restarted index target hc hroot ht =>
    exact hw.interrupt.applyStarted (hw index target ht).known
  | unstarted => exact hw.interrupt.of_steps rfl

theorem Sane.handleCommand (h : s.Sane d r g) (hg : g.Of d) (hroot : s.Rooted env.id)
    (hfresh : s.forest.entry env.fresh = none) (haccepted : ReportsAccepted d r g s env c) :
    (s.applyAll (s.handleCommand env c).events).Sane d r g := by
  intro w hp
  obtain ⟨w', hadv, ⟨-, rfl⟩ | ⟨before, hbefore, htouched⟩⟩ := handled hroot hfresh hp
  · exact sane_default.advanced hg hadv
  · exact (htouched.sane hbefore haccepted (h before hbefore)).advanced hg hadv

theorem Consults.sane (hc : s.Consults env c r g w) (h : s.Sane d r g) (hg : g.Of d)
    (hroot : s.Rooted env.id) (hfresh : s.forest.entry env.fresh = none)
    (haccepted : ReportsAccepted d r g s env c) : w.Sane d := by
  obtain ⟨recorded, hr, -, w', hp, hadv⟩ := hc
  refine WorkflowRunState.Sane.advanced (o := ⟨r, g⟩) ?_ hg hadv
  cases hbefore : s.forest.progress r with
  | none =>
    rcases hr.new hbefore with hnone | ⟨g', hnew⟩
    · rw [hnone] at hp
      cases hp
    · rw [hnew] at hp
      cases hp
      exact sane_default
  | some x =>
    obtain ⟨g', before⟩ := x
    rcases hr.touched hroot hfresh hbefore with hnone | ⟨w₁, hw₁, htouched⟩
    · rw [hnone] at hp
      cases hp
    · rw [hw₁] at hp
      cases hp
      exact htouched.sane hbefore haccepted (h before hbefore)

end SessionState

/-- In whatever order commands reach a session, as long as what the steps of a run conclude with is
accepted from them: the driver of a run of a saved definition fails it for its budget only, routes
on outcomes that the steps declare, and follows transitions to steps of the definition. -/
theorem validated_never_fails_internally (id : String) (newV5 : String → String → String)
    (hderived : ∀ run index, WorkflowRunSpec.stepAgentId newV5 run index ≠ id)
    {knows : String → Bool} {d : WorkflowInput} (hvalid : d.validate knows = .ok ())
    {presets : String → Option AgentPreset} {models : List String} {input : String}
    {resolved : ResolvedRun} (hresolved : assembleRunSpec d presets models input = .ok resolved)
    (r : String) {tr : List (SessionState × (Env × SessionCommand) × SessionState)}
    {t : SessionState} (h : (running id newV5).Exec .empty tr t)
    (haccepted : ∀ x ∈ tr, SessionState.ReportsAccepted d r resolved.run x.1
      (x.2.1.1.serving id newV5) x.2.1.2) :
    ∀ x ∈ tr, ∀ w, x.1.Consults (x.2.1.1.serving id newV5) x.2.1.2 r resolved.run w →
      WorkflowOrchestrator.Guided d newV5 ⟨r, resolved.run⟩ w := by
  obtain ⟨hstart, hstep⟩ := step_assembleRunSpec hresolved
  have hg : resolved.run.Of d := ⟨WorkflowInput.valid_of_validate hvalid, hstart, hstep⟩
  have hinit : SessionState.empty.Sane d r resolved.run := by
    intro w hp
    rw [SessionState.progress_empty] at hp
    cases hp
  have hkept : ∀ s l t, (running id newV5).Reachable s →
      s.Sane d r resolved.run ∧ s.Rooted id →
      SessionState.ReportsAccepted d r resolved.run s (l.1.serving id newV5) l.2 →
      (running id newV5).Step s l t → t.Sane d r resolved.run ∧ t.Rooted id := by
    rintro s l t hs ⟨hsane, hrooted⟩ hok hstep
    have hrooted' := SessionState.rooted_of_reachable hderived (hs.step hstep)
    obtain ⟨hunused, rfl⟩ := hstep
    exact ⟨hsane.handleCommand hg hrooted hunused.entry hok, hrooted'⟩
  intro x hx w hconsults
  obtain ⟨⟨hsane, hrooted⟩, hunused, -⟩ := h.guarded_mem hkept (.init rfl)
    ⟨hinit, SessionState.rooted_empty id⟩ haccepted hx
  exact (hconsults.sane hsane hg hrooted hunused.entry (haccepted x hx)).guided hg

/-! ### A run of a saved definition -/

/-- Two steps, the second behind the outcome `again` of the first. -/
def reviewed : WorkflowInput where
  name := "review"
  start := "a"
  steps := [⟨"a", "p", "first", some [⟨"again", "once more"⟩, ⟨"done", "no more"⟩], none,
      some [⟨"b", some (.isIn ["again"])⟩]⟩,
    ⟨"b", "p", "second", none, none, none⟩]
  maxSteps := some 9

def reviewedRun : ResolvedRun :=
  ⟨⟨"review", "a", [⟨"a", "first", [⟨"b", some (.isIn ["again"])⟩]⟩, ⟨"b", "second", []⟩], "go", 9⟩,
    []⟩

def resultOf (outcome : String) : Value :=
  .obj [(outcomeField, .str outcome), (descriptionField, .str "did it")]

theorem validated_never_fails_reviewed : ∃ tr t, (running "s" joined).Exec .empty tr t ∧
    (t.forest.workflow "s").map (fun v => v.run.steps.map (·.step)) = some ["a", "b"] ∧
    ∀ x ∈ tr, ∀ w, x.1.Consults (x.2.1.1.serving "s" joined) x.2.1.2 "s" reviewedRun.run w →
      WorkflowOrchestrator.Guided reviewed joined ⟨"s", reviewedRun.run⟩ w := by
  let spec : SessionSpec := ⟨.workflow reviewedRun.run, none⟩
  let ls : List (Env × SessionCommand) :=
    [(.plain "1", .core (.create spec none none)), (.plain "1", .run .advance),
      (.plain "1", .agentOutcome "s/step:0" (.concluded (resultOf "again")))]
  -- the first execution is of the step `a`
  let G : SessionState → Env × SessionCommand → Prop := fun s _ =>
    (s.forest.executionOfAgent "s/step:0").all (fun x => x.2 = 0) = true ∧
      (s.forest.progress "s").all (fun x => x.2.steps[0]?.all fun st => st.step = "a") = true
  let t := (System.steps? (System.guarded? G serve?) .empty ls).get (by decide +kernel)
  obtain ⟨tr, htr, hls, hfirst⟩ := exec_guarded_serve? (G := G) (t := t) (Option.some_get _).symm
  refine ⟨tr, t, htr, by decide +kernel, ?_⟩
  have hvalid : reviewed.validate (fun _ => true) = .ok () := by decide +kernel
  have hresolved : assembleRunSpec reviewed (fun _ => some ⟨"m", []⟩) ["m"] "go" =
      .ok reviewedRun := by decide +kernel
  refine validated_never_fails_internally "s" joined (joined_ne rfl) hvalid hresolved "s" htr ?_
  intro x hx agent output index w step hreport hexec hw hstep
  have hlabel : x.2.1 ∈ ls := by
    rw [← hls]
    exact List.mem_map_of_mem hx
  obtain ⟨hindex, hname⟩ := hfirst x hx
  rcases List.mem_cons.mp hlabel with hlabel | hlabel
  · rw [hlabel] at hreport
    cases hreport
  rcases List.mem_cons.mp hlabel with hlabel | hlabel
  · rw [hlabel] at hreport
    cases hreport
  · rw [List.mem_singleton.mp hlabel] at hreport
    cases hreport
    rw [hexec] at hindex
    obtain rfl : index = 0 := of_decide_eq_true hindex
    rw [hw] at hname
    dsimp only [Option.all_some] at hname
    rw [hstep] at hname
    obtain hname : step.step = "a" := of_decide_eq_true hname
    rw [hname]
    exact ⟨_, rfl, by decide +kernel⟩

end Horsie.Session
