import Horsie.Lib.Take
import Horsie.Session.Runs

/-!
# Reports that come late

A run that is over or suspended is left so by everything but a retry, and a report of an execution
that ended changes nothing, as long as no such report is recorded (`late_reports_ignored`). The
session records what an agent reports whatever its execution has become meanwhile, so a result that
was on its way as its step was stopped sets the run going again (`stopped_step_concludes`).
-/

namespace Horsie.Session

open Lib
open Agent (Value AgentOutcome)

/-! ## Runs with nothing in flight but their last execution -/

namespace WorkflowRunState

/-- Only the last execution is in flight, and only while the run goes on. -/
structure Orderly (w : WorkflowRunState) : Prop where
  last : ∀ i s, w.steps[i]? = some s → s.status = .running → i + 1 = w.steps.length
  goesOn : w.current.isSome → w.status = .running ∨ w.status = .awaitingInput

variable {w : WorkflowRunState} {index : ℕ}

theorem current_eq_none_iff : w.current = none ↔ ∀ s ∈ w.steps, s.status ≠ .running := by
  unfold current
  rw [List.findIdx?_eq_none_iff]
  simp only [decide_eq_false_iff_not, ne_eq]

theorem orderly_of_current (h : w.current = none) : w.Orderly where
  last i s hs hrun := absurd hrun (current_eq_none_iff.mp h s (List.mem_of_getElem? hs))
  goesOn hc := by
    rw [h] at hc
    cases hc

def LastInFlight (w : WorkflowRunState) : Prop :=
  ∀ i s, w.steps[i]? = some s → s.status = .running → i + 1 = w.steps.length

theorem LastInFlight.current (h : w.LastInFlight) {s : StepRun} (hs : w.steps[index]? = some s)
    (hrun : s.status = .running) : w.current = some index := by
  cases hc : w.current with
  | none => exact absurd hrun (current_eq_none_iff.mp hc s (List.mem_of_getElem? hs))
  | some i =>
    obtain ⟨s', hs', hrun'⟩ := SessionState.getElem?_current hc
    have hi := h i s' hs' hrun'
    have hindex := h index s hs hrun
    congr 1
    omega

/-- Once the execution in flight is given another status, nothing is in flight. -/
theorem LastInFlight.current_modifyStep (h : w.LastInFlight) (hc : ∀ i ∈ w.current, i = index)
    {f : StepRun → StepRun} (hf : ∀ s, (f s).status ≠ .running) :
    (w.modifyStep index f).current = none := by
  rw [current_eq_none_iff]
  intro s hs hrun
  obtain ⟨i, hi⟩ := List.getElem?_of_mem hs
  change (w.steps.modify index f)[i]? = some s at hi
  rw [List.getElem?_modify] at hi
  obtain ⟨t, ht, rfl⟩ := Option.map_eq_some_iff.mp hi
  split_ifs at hrun with hii
  · exact hf t hrun
  · exact hii (hc i (h.current ht hrun)).symm

theorem LastInFlight.interrupt (h : w.LastInFlight) : w.interrupt.current = none := by
  unfold WorkflowRunState.interrupt
  cases hc : w.current with
  | none => exact hc
  | some i =>
    refine h.current_modifyStep ?_ fun _ => StepStatus.noConfusion
    rintro j hj
    exact (Option.some.inj (hc.symm.trans hj)).symm

theorem Orderly.current (h : w.Orderly) {s : StepRun} (hs : w.steps[index]? = some s)
    (hrun : s.status = .running) : w.current = some index :=
  LastInFlight.current h.last hs hrun

theorem Orderly.current_modifyStep (h : w.Orderly) (hc : ∀ i ∈ w.current, i = index)
    {f : StepRun → StepRun} (hf : ∀ s, (f s).status ≠ .running) :
    (w.modifyStep index f).current = none :=
  LastInFlight.current_modifyStep h.last hc hf

theorem Orderly.applyCancelled (h : w.Orderly) (hc : ∀ i ∈ w.current, i = index) :
    (w.applyCancelled index).current = none :=
  h.current_modifyStep hc fun _ => StepStatus.noConfusion

theorem Orderly.interrupt (h : w.Orderly) : w.interrupt.current = none :=
  LastInFlight.interrupt h.last

theorem Orderly.cancel (h : w.Orderly) : w.cancel.current = none ∨ w.cancel = w := by
  unfold WorkflowRunState.cancel
  split_ifs
  · exact .inr rfl
  · exact .inl h.interrupt

theorem lastInFlight_applyStarted {step agent : String} {attempt : ℕ} {origin : Option ℕ}
    {via : Option String} {input : String} (h : w.current = none) :
    (w.applyStarted step agent attempt origin via input).LastInFlight := by
  intro i s hs hrun
  change (w.steps ++ [_])[i]? = some s at hs
  show i + 1 = (w.steps ++ [_]).length
  rw [List.length_append, List.length_singleton]
  rcases getElem?_snoc_cases hs with hs | ⟨rfl, -⟩
  · exact absurd hrun (current_eq_none_iff.mp h s (List.mem_of_getElem? hs))
  · rfl

theorem orderly_applyStarted {step agent : String} {attempt : ℕ} {origin : Option ℕ}
    {via : Option String} {input : String} (h : w.current = none) :
    (w.applyStarted step agent attempt origin via input).Orderly where
  last := lastInFlight_applyStarted h
  goesOn _ := .inl rfl

/-- A report of the execution in flight leaves nothing in flight, unless it waits for something. -/
theorem Orderly.reportAt (h : w.Orderly) (hc : w.current = some index) (turn : TurnEnd) :
    (w.reportAt index turn).Orderly := by
  have hi : ∀ i ∈ w.current, i = index := fun i hi => (Option.some.inj (hc.symm.trans hi)).symm
  cases turn with
  | concluded output =>
    exact orderly_of_current (h.current_modifyStep hi fun _ => StepStatus.noConfusion)
  | failed error terminal =>
    exact orderly_of_current (h.current_modifyStep hi fun _ => StepStatus.noConfusion)
  | asked => exact ⟨h.last, fun _ => .inr rfl⟩
  | parked | interrupted => exact h

theorem Orderly.advanced {newV5 : String → String → String} {o : WorkflowOrchestrator}
    {w' : WorkflowRunState} (h : w.Orderly) (ha : o.Advanced newV5 w w') : w'.Orderly := by
  rcases ha with rfl | ⟨a, ha, hc⟩
  · exact h
  have hfree := WorkflowOrchestrator.free_of_stepActions (List.ne_nil_of_mem ha)
  rcases hc with rfl | ⟨st, error, rfl, rfl⟩
  · cases WorkflowOrchestrator.decides_of_mem ha with
    | fail | finish => exact orderly_of_current hfree.current
    | start => exact orderly_applyStarted hfree.current
  · exact orderly_of_current hfree.current

end WorkflowRunState

/-! ## What comes in time -/

def TurnEnd.isRecorded : TurnEnd → Bool
  | .concluded _ | .asked | .failed _ _ => true
  | .parked | .interrupted => false

namespace SessionState

variable (s : SessionState) (env : Env)

def isInFlight (run : String) (index : ℕ) : Bool :=
  (s.forest.workflow run).any fun w => (w.run.steps[index]?).any (·.status = .running)

/-- Whether a command reports, to be recorded, the end of an execution that has ended. -/
def reportsLate (c : SessionCommand) : Bool :=
  match s.reportOf env c with
  | none => false
  | some (agent, turn) =>
    turn.isRecorded && (s.forest.executionOfAgent agent).any fun x => !s.isInFlight x.1 x.2

def failsSuspended : SessionCommand → Bool
  | .turn (.stop name) =>
    (s.stopTarget name).any fun key =>
      (s.stopBoundary key).isSome && (stopCuts key).any fun agent =>
        (s.forest.descendantEntries agent).any fun r =>
          (s.forest.workflow r).any (·.run.status = .suspended)
  | _ => false

/-- A command that comes in time: no report that is recorded is of an execution that has ended, and
no run is given up from above while it is suspended. -/
def Timely (c : SessionCommand) : Prop := s.reportsLate env c = false ∧ s.failsSuspended c = false

instance (c : SessionCommand) : Decidable (s.Timely env c) := inferInstanceAs (Decidable (_ ∧ _))

/-- What a command leaves alone: a run it reports an ended execution of, and the status of runs that
are over or suspended, unless it is a retry. -/
structure LeavesEnded (c : SessionCommand) (t : SessionState) : Prop where
  reported : ∀ agent outcome run index w step, c = .agentOutcome agent outcome →
    s.forest.executionOfAgent agent = some (run, index) → s.forest.workflow run = some w →
    w.run.steps[index]? = some step → step.status ≠ .running →
    (t.forest.workflow run).map (·.run) = some w.run
  settled : ∀ run w w', s.forest.workflow run = some w → t.forest.workflow run = some w' →
    w.run.status = .finished ∨ w.run.status = .failed ∨ w.run.status = .suspended →
    (∀ index, c ≠ .run (.retryStep index)) → w'.run.status = w.run.status

/-- Every report of the run `r` that is recorded is of an execution in flight. -/
def InTime (c : SessionCommand) (r : String) : Prop :=
  ∀ agent turn index, s.reportOf env c = some (agent, turn) →
    s.forest.executionOfAgent agent = some (r, index) → turn.isRecorded = true →
    s.isInFlight r index = true

/-- Every run of the session is orderly. -/
def Orderly : Prop := ∀ r g w, s.forest.progress r = some (g, w) → w.Orderly

variable {s env} {id r : String} {c : SessionCommand} {g : WorkflowRunSpec}
  {w w' : WorkflowRunState}

variable {index : ℕ}

theorem isInFlight_iff (hp : s.forest.progress r = some (g, w)) :
    s.isInFlight r index = true ↔ ∃ step, w.steps[index]? = some step ∧ step.status = .running := by
  obtain ⟨v, hv, -, rfl⟩ := RunForest.progress_eq_some.mp hp
  unfold isInFlight
  rw [hv]
  show (v.run.steps[index]?).any _ = true ↔ _
  cases v.run.steps[index]? <;> simp

theorem Timely.inTime (h : s.Timely env c) (r : String) : s.InTime env c r := by
  intro agent turn index hr hx hturn
  have hlate := h.1
  unfold reportsLate at hlate
  rw [hr] at hlate
  simpa only [hx, hturn, Option.any_some, Bool.true_and, Bool.not_eq_false'] using hlate

variable {agent : String}

theorem InTime.current (h : s.InTime env c r) (hw : w.Orderly) {turn : TurnEnd}
    (hr : s.reportOf env c = some (agent, turn))
    (hx : s.forest.executionOfAgent agent = some (r, index)) (hturn : turn.isRecorded = true)
    (hp : s.forest.progress r = some (g, w)) : w.current = some index := by
  obtain ⟨step, hstep, hrun⟩ := (isInFlight_iff hp).mp (h agent turn index hr hx hturn)
  exact hw.current hstep hrun

theorem reportAt_of_not_isRecorded {turn : TurnEnd} (h : turn.isRecorded = false) :
    w.reportAt index turn = w := by
  cases turn with
  | concluded | asked | failed => exact absurd h Bool.noConfusion
  | parked | interrupted => rfl

theorem step_of_stopBoundary {key : AgentKey}
    (hs : s.stopBoundary key = some (.stepCancelled r index)) : ∃ agent v, key = .step agent ∧
      s.forest.executionOfAgent agent = some (r, index) ∧ s.forest.workflow r = some v ∧
      v.run.current = some index := by
  unfold stopBoundary at hs
  cases key with
  | main =>
    obtain ⟨root, -, hs⟩ := Option.bind_eq_some_iff.mp hs
    exact absurd (Option.ite_none_right_eq_some.mp hs).2 (by simp)
  | step agent =>
    obtain ⟨⟨run, i⟩, hx, hs⟩ := Option.bind_eq_some_iff.mp hs
    obtain ⟨v, hv, hs⟩ := Option.bind_eq_some_iff.mp hs
    obtain ⟨hcur, hs⟩ := Option.ite_none_right_eq_some.mp hs
    cases hs
    exact ⟨agent, v, rfl, hx, hv, hcur⟩
  | sub agent | subSession agent =>
    obtain ⟨v, -, hs⟩ := Option.bind_eq_some_iff.mp hs
    exact absurd (Option.ite_none_right_eq_some.mp hs).2 (by simp)

theorem current_of_stopBoundary {key : AgentKey}
    (hs : s.stopBoundary key = some (.stepCancelled r index))
    (hp : s.forest.progress r = some (g, w)) : w.current = some index := by
  obtain ⟨agent, v, -, -, hv, hcur⟩ := step_of_stopBoundary hs
  obtain ⟨v', hv', -, rfl⟩ := RunForest.progress_eq_some.mp hp
  cases hv.symm.trans hv'
  exact hcur

theorem Touched.orderly (h : Touched s env c r w w') (ht : s.InTime env c r) (hw : w.Orderly)
    (hp : s.forest.progress r = some (g, w)) : w'.Orderly := by
  cases h with
  | kept => exact hw
  | @reported agent turn index hr hx =>
    by_cases hturn : turn.isRecorded = true
    · exact hw.reportAt (ht.current hw hr hx hturn hp) turn
    · rw [reportAt_of_not_isRecorded (Bool.eq_false_iff.mpr hturn)]
      exact hw
  | cancelled hc hmem =>
    rcases hw.cancel with h | h
    · exact WorkflowRunState.orderly_of_current h
    · rw [h]
      exact hw
  | @stopped agent key index w₁ hc hk hs hw₁ =>
    have hcur := current_of_stopBoundary hs hp
    apply WorkflowRunState.orderly_of_current
    rcases hw₁ with rfl | ⟨-, -, -, rfl⟩
    · exact hw.applyCancelled fun i hi => (Option.some.inj (hcur.symm.trans hi)).symm
    · rcases hw.cancel with h | h
      · refine (WorkflowRunState.orderly_of_current h).applyCancelled ?_
        rw [h]
        exact fun i hi => absurd hi (by simp)
      · rw [h]
        exact hw.applyCancelled fun i hi => (Option.some.inj (hcur.symm.trans hi)).symm
  | reconciled hc => exact WorkflowRunState.orderly_of_current hw.interrupt
  | restarted => exact WorkflowRunState.orderly_applyStarted hw.interrupt
  | unstarted hc hroot => exact WorkflowRunState.orderly_of_current hw.interrupt

theorem Orderly.handleCommand (h : s.Orderly) (hroot : s.Rooted env.id)
    (hfresh : s.forest.entry env.fresh = none) (ht : s.Timely env c) :
    (s.applyAll (s.handleCommand env c).events).Orderly := by
  intro r g w hp
  obtain ⟨w', hadv, ⟨-, rfl⟩ | ⟨before, hbefore, htouched⟩⟩ := handled hroot hfresh hp
  · exact (WorkflowRunState.orderly_of_current rfl).advanced hadv
  · exact (htouched.orderly (ht.inTime r) (h r g before hbefore) hbefore).advanced hadv

/-! ## Runs that are over or suspended -/

/-- A command in time that is no retry leaves a run that is over or suspended. -/
theorem Touched.settled (h : Touched s env c r w w') (ht : s.Timely env c) (ho : s.Orderly)
    (hp : s.forest.progress r = some (g, w))
    (hw : w.status = .finished ∨ w.status = .failed ∨ w.status = .suspended)
    (hretry : ∀ index, c ≠ .run (.retryStep index)) : w' = w := by
  have hcur : w.current = none := by
    cases hc : w.current with
    | none => rfl
    | some index =>
      rcases (ho r g w hp).goesOn (by rw [hc]; rfl) with h | h <;> rw [h] at hw <;> simp at hw
  cases h with
  | kept => rfl
  | @reported agent turn index hr hx =>
    by_cases hturn : turn.isRecorded = true
    · rw [(ht.inTime r).current (ho r g w hp) hr hx hturn hp] at hcur
      cases hcur
    · exact reportAt_of_not_isRecorded (Bool.eq_false_iff.mpr hturn)
  | @cancelled agent hc hmem =>
    cases hc with
    | retry => exact absurd rfl (hretry _)
    | @stop name agent key stopped hk hs hcut =>
      have hno := ht.2
      unfold failsSuspended at hno
      simp only [hk, hs, hcut, Option.any_some, Option.isSome_some, Bool.true_and] at hno
      have hstatus := List.any_eq_false.mp hno r hmem
      obtain ⟨v, hv, -, rfl⟩ := RunForest.progress_eq_some.mp hp
      rw [hv, Option.any_some, decide_eq_true_eq] at hstatus
      unfold WorkflowRunState.cancel
      rw [if_pos]
      rcases hw with h | h | h
      · rw [h]
        rfl
      · rw [h]
        rfl
      · exact absurd h hstatus
  | @stopped agent key index w₁ hc hk hs hw₁ =>
    rw [current_of_stopBoundary hs hp] at hcur
    cases hcur
  | reconciled hc =>
    unfold WorkflowRunState.interrupt
    rw [hcur]
  | restarted hc => exact absurd hc (hretry _)
  | unstarted hc => exact absurd hc (hretry _)

theorem advanced_of_settled {newV5 : String → String → String} {o : WorkflowOrchestrator}
    (h : o.Advanced newV5 w w')
    (hw : w.status = .finished ∨ w.status = .failed ∨ w.status = .suspended) : w' = w := by
  rcases h with rfl | ⟨a, ha, -⟩
  · rfl
  · have hfree := WorkflowOrchestrator.free_of_stepActions (List.ne_nil_of_mem ha)
    rcases hfree.goesOn with h | h <;> rw [h] at hw <;> simp at hw

theorem agentKeyOf_of_executionOfAgent {run : String}
    (hx : s.forest.executionOfAgent agent = some (run, index)) :
    s.agentKeyOf agent = some (.step agent) := by
  obtain ⟨⟨k, e⟩, howner, hx'⟩ := Option.bind_eq_some_iff.mp hx
  obtain ⟨v, hv, -⟩ := Option.bind_eq_some_iff.mp hx'
  unfold agentKeyOf
  rw [howner]
  cases hs : e.state with
  | workflow => simp only [Option.map_some, hs]
  | main | sub | subSession =>
    rw [hs] at hv
    exact absurd hv (by simp [RunState.workflow?])

theorem onAgentOutcome_quiet {run : String} {outcome : AgentOutcome}
    (hx : s.forest.executionOfAgent agent = some (run, index))
    (hturn : ∀ turn, TurnEnd.split outcome = some turn → turn.isRecorded = false) :
    ∀ e ∈ (s.onAgentOutcome env agent outcome).events, e.isQuiet = true := by
  have hnothing : ∀ e ∈ ([] : List SessionDomainEvent), e.isQuiet = true :=
    fun e he => absurd he List.not_mem_nil
  have hkey : s.agentKeyOf agent = some (.step agent) := agentKeyOf_of_executionOfAgent hx
  cases outcome with
  | usageRecorded =>
    intro e he
    obtain rfl := List.mem_singleton.mp he
    rfl
  | started =>
    show ∀ e ∈ (s.onAgentStarted agent).events, _
    unfold onAgentStarted
    rw [hkey]
    exact hnothing
  | seedSummary => exact hnothing
  | concluded | asked | failed => exact absurd (hturn _ rfl) (by simp [TurnEnd.isRecorded])
  | parked | interrupted =>
    show ∀ e ∈ (s.onTurnEnd env agent _).events, _
    unfold onTurnEnd
    rw [hkey]
    simp only [hx]
    exact hnothing

theorem leavesEnded (hroot : s.Rooted env.id) (hfresh : s.forest.entry env.fresh = none)
    (ho : s.Orderly) (ht : s.Timely env c) :
    s.LeavesEnded c (s.applyAll (s.handleCommand env c).events) where
  reported agent outcome run index w step hc hx hw hstep hstatus := by
    have hp : s.forest.progress run = some (w.graph, w.run) :=
      RunForest.progress_eq_some.mpr ⟨w, hw, rfl, rfl⟩
    have hquiet : ∀ e ∈ (s.handleCommand env c).events, e.isQuiet = true := by
      subst hc
      unfold handleCommand
      cases hs : s.spec with
      | none =>
        rw [hroot.untold hs] at hw
        exact absurd hw (by simp [RunForest.workflow, RunForest.entry, RunForest.empty])
      | some spec =>
        refine onAgentOutcome_quiet hx ?_
        intro turn hturn
        by_contra hrec
        have hr : s.reportOf env (.agentOutcome agent outcome) = some (agent, turn) := by
          show (TurnEnd.split outcome).map (agent, ·) = _
          rw [hturn]
          rfl
        have hcur := (ht.inTime run).current (ho run w.graph w.run hp) hr hx
          (Bool.not_eq_false _ ▸ hrec) hp
        obtain ⟨step', hstep', hrun⟩ := getElem?_current hcur
        cases hstep.symm.trans hstep'
        exact hstatus hrun
    have hkept := (progress_applyAll_quiet (r := run) hquiet).trans hp
    obtain ⟨w', hw', -, hrun⟩ := RunForest.progress_eq_some.mp hkept
    rw [hw', Option.map_some, hrun]
  settled run w w' hw hw' hstatus hretry := by
    have hp : s.forest.progress run = some (w.graph, w.run) :=
      RunForest.progress_eq_some.mpr ⟨w, hw, rfl, rfl⟩
    have hp' : (s.applyAll (s.handleCommand env c).events).forest.progress run =
        some (w'.graph, w'.run) := RunForest.progress_eq_some.mpr ⟨w', hw', rfl, rfl⟩
    obtain ⟨w₁, hadv, ⟨hnone, -⟩ | ⟨before, hbefore, htouched⟩⟩ := handled hroot hfresh hp'
    · rw [hp] at hnone
      cases hnone
    · obtain ⟨-, rfl⟩ := Prod.mk.inj (Option.some.inj (hp.symm.trans hbefore))
      rw [htouched.settled ht ho hbefore hstatus hretry] at hadv
      rw [advanced_of_settled hadv hstatus]

/-- As long as every command comes in time, none restarts what ended: neither does a report of an
ended execution change anything, nor does a run leave a status it rests in but through a retry. -/
theorem late_reports_ignored (id : String) (newV5 : String → String → String)
    (hderived : ∀ run index, WorkflowRunSpec.stepAgentId newV5 run index ≠ id)
    {tr : List (SessionState × (Env × SessionCommand) × SessionState)} {t : SessionState}
    (h : (running id newV5).Exec .empty tr t)
    (htimely : ∀ x ∈ tr, x.1.Timely (x.2.1.1.serving id newV5) x.2.1.2) :
    ∀ x ∈ tr, x.1.LeavesEnded x.2.1.2 x.2.2 := by
  intro x hx
  obtain ⟨pre, hpre, hmem, hunused, hstep⟩ := h.before hx
  have hinit : (running id newV5).Reachable .empty := .init rfl
  have ho : x.1.Orderly := by
    refine hpre.guarded (G := fun s l => s.Timely (l.1.serving id newV5) l.2) ?_ hinit ?_
      fun y hy => htimely y (hmem y hy)
    · rintro s l t hs ho ht ⟨hunused, rfl⟩
      exact ho.handleCommand (rooted_of_reachable hderived hs) hunused.entry ht
    · intro r g w hp
      exact absurd hp (by simp [RunForest.progress, RunForest.workflow, RunForest.entry,
        SessionState.empty, RunForest.empty])
  rw [hstep]
  exact leavesEnded (rooted_of_reachable hderived (hpre.reachable hinit)) hunused.entry ho
    (htimely x hx)

def twoSteps : SessionSpec where
  kind := .workflow
    { workflow := "review"
      start := "a"
      steps := [⟨"a", "first", [⟨"b", none⟩]⟩, ⟨"b", "second", []⟩]
      input := ""
      maxSteps := 9 }
  runtime := none

/-- A run whose first step concludes, whose second is stopped, and that is retried. -/
theorem late_reports_ignored_retried :
    ∃ tr t, (running "s" joined).Exec .empty tr t ∧ tr.length = 5 ∧
      (t.forest.workflow "s").map (·.run.status) = some .running ∧
      ∀ x ∈ tr, x.1.LeavesEnded x.2.1.2 x.2.2 := by
  let ls : List (Env × SessionCommand) :=
    [(.plain "1", .core (.create twoSteps none none)), (.plain "1", .run .advance),
      (.plain "1", .agentOutcome "s/step:0" (.concluded .null)),
      (.plain "1", .turn (.stop "main")), (.plain "1", .run (.retryStep 1))]
  let G : SessionState → Env × SessionCommand → Prop := fun s l =>
    s.Timely (l.1.serving "s" joined) l.2
  let t := (System.steps? (System.guarded? G serve?) .empty ls).get
    (by decide +kernel)
  obtain ⟨tr, htr, hls, htimely⟩ := exec_guarded_serve? (G := G) (t := t)
    (Option.some_get _).symm
  have hlength : tr.length = 5 := (List.length_map _).symm.trans (congrArg List.length hls)
  exact ⟨tr, t, htr, hlength, by decide +kernel,
    late_reports_ignored "s" joined (joined_ne rfl) htr htimely⟩

/-- The step in flight is stopped as its result is on the way. The result is recorded of the
cancelled execution, the suspended run goes on, and its next step is started. -/
theorem stopped_step_concludes :
    ¬ ∀ tr t, (running "s" joined).Exec .empty tr t →
      ∀ x ∈ tr, x.1.LeavesEnded x.2.1.2 x.2.2 := by
  let ls : List (Env × SessionCommand) :=
    [(.plain "1", .core (.create twoSteps none none)), (.plain "1", .run .advance),
      (.plain "1", .turn (.stop "main"))]
  let s := (System.steps? serve? .empty ls).get (by decide +kernel)
  let l : Env × SessionCommand := (.plain "1", .agentOutcome "s/step:0" (.concluded .null))
  let t := (serve? s l).get (by decide +kernel)
  obtain ⟨tr, htr, -⟩ := exec_serve? (t := s) (Option.some_get _).symm
  intro hall
  have hleaves := hall _ t (htr.snoc (step_of_serve? (Option.some_get _).symm)) (s, l, t)
    (List.mem_append_right _ (List.mem_singleton_self _))
  have hs : (s.forest.workflow "s").map (·.run.status) = some .suspended := by decide +kernel
  have ht : (t.forest.workflow "s").map (·.run.status) = some .running := by decide +kernel
  obtain ⟨w, hw, hsuspended⟩ := Option.map_eq_some_iff.mp hs
  obtain ⟨w', hw', hrunning⟩ := Option.map_eq_some_iff.mp ht
  have hkept := hleaves.settled "s" w w' hw hw' (.inr (.inr hsuspended)) (by simp [l])
  rw [hsuspended, hrunning] at hkept
  cases hkept

end SessionState

end Horsie.Session
