import Horsie.Session.Descent

/-!
# The log of a run

The executions of a run are numbered as they come: those of one step without a gap, each behind the
one it came out of, and none but the last is in flight. This holds of every run a session reaches
(`SessionState.Numbered`), whatever is reported of it and however often it is retried.

The other fields go with the status only as long as nothing sets a run going that is over: what it
was over with is never cleared (`run_log_sound`, `retry_keeps_error`).
-/

namespace Horsie.Session

open Lib

/-! ## Logs -/

namespace WorkflowRunState

variable {w w' : WorkflowRunState} {index : ℕ}

/-- What is promised of the record of a run. -/
structure Sound (w : WorkflowRunState) : Prop where
  single : ∀ (i j : ℕ) (s t : StepRun), w.steps[i]? = some s → w.steps[j]? = some t →
    s.status = .running → t.status = .running → i = j
  awaiting : w.status = .awaitingInput → w.current.isSome
  origin : ∀ (i : ℕ) (s : StepRun) (o : ℕ), w.steps[i]? = some s → s.origin = some o → o < i
  attempts : ∀ step, (w.steps.filter (·.step = step)).map (·.attempt) =
    List.range' 1 (w.attemptsOf step)
  output : w.output.isSome → w.status = .finished
  error : w.error.isSome → w.status = .failed

/-- What holds of the executions whatever becomes of the run. -/
structure Numbered (w : WorkflowRunState) : Prop where
  inFlight : w.LastInFlight
  origin : ∀ (i : ℕ) (s : StepRun) (o : ℕ), w.steps[i]? = some s → s.origin = some o → o < i
  attempts : ∀ step, (w.steps.filter (·.step = step)).map (·.attempt) =
    List.range' 1 (w.attemptsOf step)

structure Honest (w : WorkflowRunState) : Prop where
  awaiting : w.status = .awaitingInput → w.current.isSome
  output : w.output.isSome → w.status = .finished
  error : w.error.isSome → w.status = .failed

theorem Numbered.sound (h : w.Numbered) (hw : w.Honest) : w.Sound where
  single i j s t hs ht hrun hrun' := by
    have hi := h.inFlight i s hs hrun
    have hj := h.inFlight j t ht hrun'
    omega
  awaiting := hw.awaiting
  origin := h.origin
  attempts := h.attempts
  output := hw.output
  error := hw.error

/-! ### Numbers -/

theorem numbered_default : WorkflowRunState.default.Numbered where
  inFlight i s hs := absurd hs (by simp [default])
  origin i s o hs := absurd hs (by simp [default])
  attempts step := rfl

theorem Numbered.of_steps (h : w.Numbered) (hs : w'.steps = w.steps) : w'.Numbered := by
  obtain ⟨status, steps, output, error⟩ := w'
  obtain rfl : steps = w.steps := hs
  exact ⟨h.inFlight, h.origin, h.attempts⟩

theorem filter_map_modify {steps : List StepRun} {f : StepRun → StepRun}
    (hstep : ∀ s, (f s).step = s.step) (hattempt : ∀ s, (f s).attempt = s.attempt)
    (step : String) (index : ℕ) :
    ((steps.modify index f).filter (·.step = step)).map (·.attempt) =
      (steps.filter (·.step = step)).map (·.attempt) := by
  induction steps generalizing index with
  | nil => rw [List.modify_nil]
  | cons x xs ih =>
    cases index with
    | zero =>
      rw [List.modify_zero_cons, List.filter_cons, List.filter_cons, hstep]
      split_ifs
      · rw [List.map_cons, List.map_cons, hattempt]
      · rfl
    | succ index =>
      rw [List.modify_succ_cons, List.filter_cons, List.filter_cons]
      split_ifs
      · rw [List.map_cons, List.map_cons, ih]
      · exact ih index

theorem Numbered.modifyStep (h : w.Numbered) (index : ℕ) {f : StepRun → StepRun}
    (hstep : ∀ s, (f s).step = s.step) (hattempt : ∀ s, (f s).attempt = s.attempt)
    (horigin : ∀ s, (f s).origin = s.origin) (hended : ∀ s, (f s).status ≠ .running) :
    (w.modifyStep index f).Numbered := by
  have hbefore : ∀ (i : ℕ) (s : StepRun), (w.modifyStep index f).steps[i]? = some s →
      ∃ t, w.steps[i]? = some t ∧ s.origin = t.origin ∧ (s.status = .running → t = s) := by
    intro i s hs
    change (w.steps.modify index f)[i]? = some s at hs
    rw [List.getElem?_modify] at hs
    obtain ⟨t, ht, rfl⟩ := Option.map_eq_some_iff.mp hs
    refine ⟨t, ht, ?_⟩
    split_ifs
    · exact ⟨horigin t, fun hrun => absurd hrun (hended t)⟩
    · exact ⟨rfl, fun _ => rfl⟩
  refine ⟨fun i s hs hrun => ?_, fun i s o hs ho => ?_, fun step => ?_⟩
  · obtain ⟨t, ht, -, hsame⟩ := hbefore i s hs
    obtain rfl := hsame hrun
    rw [h.inFlight i t ht hrun]
    exact (List.length_modify _ _ _).symm
  · obtain ⟨t, ht, hsame, -⟩ := hbefore i s hs
    exact h.origin i t o ht (hsame ▸ ho)
  · rw [attemptsOf_modifyStep w index hstep, ← h.attempts step]
    exact filter_map_modify hstep hattempt step index

theorem Numbered.applyCancelled (h : w.Numbered) (index : ℕ) :
    (w.applyCancelled index).Numbered :=
  (h.modifyStep index (f := fun s => { s with status := .cancelled }) (fun _ => rfl)
    (fun _ => rfl) (fun _ => rfl) fun _ => StepStatus.noConfusion).of_steps rfl

theorem Numbered.interrupt (h : w.Numbered) : w.interrupt.Numbered := by
  unfold WorkflowRunState.interrupt
  cases w.current with
  | none => exact h
  | some index => exact h.applyCancelled index

theorem Numbered.cancel (h : w.Numbered) : w.cancel.Numbered := by
  unfold WorkflowRunState.cancel
  split_ifs
  · exact h
  · exact h.interrupt.of_steps rfl

theorem Numbered.reportAt (h : w.Numbered) (index : ℕ) (turn : TurnEnd) :
    (w.reportAt index turn).Numbered := by
  cases turn with
  | concluded output =>
    exact (h.modifyStep index
      (f := fun s => { s with status := .concluded, output := some output }) (fun _ => rfl)
      (fun _ => rfl) (fun _ => rfl) fun _ => StepStatus.noConfusion).of_steps rfl
  | failed error terminal =>
    exact (h.modifyStep index
      (f := fun s => { s with status := .failed, error := some error }) (fun _ => rfl)
      (fun _ => rfl) (fun _ => rfl) fun _ => StepStatus.noConfusion).of_steps rfl
  | asked => exact h.of_steps rfl
  | parked | interrupted => exact h

theorem Numbered.applyStarted (h : w.Numbered) (hc : w.current = none) {step agent : String}
    {origin : Option ℕ} {via : Option String} {input : String}
    (horigin : ∀ o, origin = some o → o < w.steps.length) :
    (w.applyStarted step agent (w.attemptsOf step + 1) origin via input).Numbered := by
  refine ⟨lastInFlight_applyStarted hc, fun i s o hs ho => ?_, fun name => ?_⟩
  · rcases getElem?_snoc_cases hs with hs | ⟨rfl, rfl⟩
    · exact h.origin i s o hs ho
    · exact horigin o ho
  · show ((w.steps ++ [_]).filter _).map _ = List.range' 1 ((w.steps ++ [_]).countP _)
    rw [List.filter_append, List.map_append, h.attempts name, List.countP_append]
    by_cases hname : step = name
    · subst hname
      rw [List.filter_cons_of_pos (by simp), List.countP_cons_of_pos (by simp)]
      show _ ++ [w.attemptsOf step + 1] = List.range' 1 (w.attemptsOf step + 1)
      rw [List.range'_1_concat, Nat.add_comm]
    · rw [List.filter_cons_of_neg (by simpa using hname),
        List.countP_cons_of_neg (by simpa using hname)]
      exact List.append_nil _

/-! ### Statuses -/

theorem honest_default : WorkflowRunState.default.Honest where
  awaiting h := WorkflowRunStatus.noConfusion h
  output h := absurd h Bool.false_ne_true
  error h := absurd h Bool.false_ne_true

theorem Honest.clean (h : w.Honest) (hs : w.status.isTerminal = false) :
    w.output = none ∧ w.error = none := by
  constructor
  · rw [← Option.not_isSome_iff_eq_none]
    intro hsome
    rw [h.output hsome] at hs
    cases hs
  · rw [← Option.not_isSome_iff_eq_none]
    intro hsome
    rw [h.error hsome] at hs
    cases hs

theorem honest_of_clean (ho : w.output = none) (he : w.error = none)
    (ha : w.status = .awaitingInput → w.current.isSome) : w.Honest where
  awaiting := ha
  output h := by
    rw [ho] at h
    cases h
  error h := by
    rw [he] at h
    cases h

theorem honest_failed {error : String} (ho : w.output = none) : (w.applyFailed error).Honest where
  awaiting h := WorkflowRunStatus.noConfusion h
  output h := by
    change w.output.isSome = true at h
    rw [ho] at h
    cases h
  error _ := rfl

theorem interrupt_output : w.interrupt.output = w.output := by
  unfold interrupt
  cases w.current <;> rfl

theorem interrupt_error : w.interrupt.error = w.error := by
  unfold interrupt
  cases w.current <;> rfl

theorem Honest.cancel (h : w.Honest) : w.cancel.Honest := by
  unfold WorkflowRunState.cancel
  split_ifs with hterm
  · exact h
  · exact honest_failed (interrupt_output.trans (h.clean (Bool.eq_false_iff.mpr hterm)).1)

/-! ### Decisions -/

section

variable {newV5 : String → String → String} {o : WorkflowOrchestrator}

theorem origin_of_stepActions {st : StepStart} (h : .startStep st ∈ o.stepActions newV5 w)
    {i : ℕ} (hi : st.origin = some i) : i < w.steps.length := by
  have hfree := WorkflowOrchestrator.free_of_stepActions (List.ne_nil_of_mem h)
  unfold WorkflowOrchestrator.stepActions at h
  rw [if_neg (WorkflowOrchestrator.not_waiting_of_free hfree)] at h
  split at h
  · exact absurd (List.mem_singleton.mp h) (by simp)
  cases hl : w.last with
  | none =>
    rw [hl] at h
    simp only at h
    split at h
    · exact absurd (List.mem_singleton.mp h) (by simp)
    · cases List.mem_singleton.mp h
      cases hi
  | some p =>
    obtain ⟨index, last⟩ := p
    obtain ⟨s, hs, hpair⟩ := Option.map_eq_some_iff.mp hl
    cases hpair
    have hlength : 0 < w.steps.length := by
      rw [List.length_pos_iff]
      rintro hnil
      rw [hnil] at hs
      cases hs
    rw [hl] at h
    simp only at h
    split at h
    · cases h
    split at h
    · exact absurd (List.mem_singleton.mp h) (by simp)
    split at h
    · exact absurd (List.mem_singleton.mp h) (by simp)
    split at h
    · exact absurd (List.mem_singleton.mp h) (by simp)
    · cases List.mem_singleton.mp h
      cases hi
      omega

theorem attempt_of_stepActions {st : StepStart} (h : .startStep st ∈ o.stepActions newV5 w) :
    st.attempt = w.attemptsOf st.step + 1 := by
  generalize ha : AgentAction.startStep st = a at h
  cases WorkflowOrchestrator.decides_of_mem h with
  | fail | finish => cases ha
  | start =>
    cases ha
    rfl

theorem Numbered.advanced (h : w.Numbered) (ha : o.Advanced newV5 w w') : w'.Numbered := by
  rcases ha with rfl | ⟨a, ha, hc⟩
  · exact h
  have hfree := WorkflowOrchestrator.free_of_stepActions (List.ne_nil_of_mem ha)
  rcases hc with rfl | ⟨st, error, rfl, rfl⟩
  · cases a with
    | startStep st =>
      show (w.applyStarted st.step st.agent st.attempt st.origin st.via st.input).Numbered
      rw [attempt_of_stepActions ha]
      exact h.applyStarted hfree.current fun i => origin_of_stepActions ha
    | finish | fail | deliver => exact h.of_steps rfl
  · exact h.of_steps rfl

theorem Honest.advanced (h : w.Honest) (ha : o.Advanced newV5 w w') : w'.Honest := by
  rcases ha with rfl | ⟨a, ha, hc⟩
  · exact h
  have hfree := WorkflowOrchestrator.free_of_stepActions (List.ne_nil_of_mem ha)
  have hterm : w.status.isTerminal = false := by
    rcases hfree.goesOn with hs | hs <;> rw [hs] <;> rfl
  obtain ⟨hout, herr⟩ := h.clean hterm
  rcases hc with rfl | ⟨st, error, rfl, rfl⟩
  · cases WorkflowOrchestrator.decides_of_mem ha with
    | fail => exact honest_failed hout
    | finish =>
      refine ⟨fun hs => WorkflowRunStatus.noConfusion hs, fun _ => rfl, fun hs => ?_⟩
      change w.error.isSome = true at hs
      rw [herr] at hs
      cases hs
    | start => exact honest_of_clean hout herr fun hs => WorkflowRunStatus.noConfusion hs
  · exact honest_failed hout

end

end WorkflowRunState

/-! ## What upsets a record -/

/-- Whether the end of a turn, recorded of an execution of a run, does not go with the run: a run
that is over is not set going, a run that finished does not fail, and only an execution in flight is
waited for. -/
def TurnEnd.upsets (w : WorkflowRunState) : TurnEnd → Bool
  | .concluded _ => w.status.isTerminal
  | .asked => w.status.isTerminal || w.current.isNone
  | .failed _ _ => w.status = .finished
  | .parked | .interrupted => false

namespace SessionState

variable {s : SessionState} {env : Env} {c : SessionCommand} {r id : String}
  {g : WorkflowRunSpec} {w w' : WorkflowRunState} {newV5 : String → String → String}

/-- Whether a command moves a run that is over, or reports what does not go with one. -/
def upsets (s : SessionState) (env : Env) (c : SessionCommand) : Bool :=
  match c with
  | .run (.retryStep index) =>
    s.forest.rootWorkflow.any fun v => (v.run.steps[index]?).isSome && v.run.status.isTerminal
  | .run .reconcileInterrupted =>
    s.forest.workflows.any fun x => x.2.run.current.isSome && x.2.run.status.isTerminal
  | .turn (.stop name) =>
    ((s.stopTarget name).bind s.stopBoundary).any fun e =>
      e.run?.any fun run => (s.forest.workflow run).any (·.run.status.isTerminal)
  | c =>
    (s.reportOf env c).any fun x =>
      (s.forest.executionOfAgent x.1).any fun y =>
        (s.forest.workflow y.1).any fun v => x.2.upsets v.run

def Numbered (s : SessionState) : Prop := ∀ r g w, s.forest.progress r = some (g, w) → w.Numbered

/-- The status of every run of the session goes with its record. -/
def Honest (s : SessionState) : Prop := ∀ r g w, s.forest.progress r = some (g, w) → w.Honest

theorem Touched.numbered (h : Touched s env c r w w') (hw : w.Numbered) : w'.Numbered := by
  cases h with
  | kept => exact hw
  | reported => exact hw.reportAt _ _
  | cancelled => exact hw.cancel
  | @stopped _ _ _ w₁ _ _ _ hw₁ =>
    rcases hw₁ with rfl | ⟨-, -, -, rfl⟩
    · exact hw.applyCancelled _
    · exact hw.cancel.applyCancelled _
  | reconciled => exact hw.interrupt
  | @restarted index target hc hroot ht =>
    have hattempts : w.interrupt.attemptsOf target.step = w.attemptsOf target.step := by
      unfold WorkflowRunState.interrupt
      cases w.current with
      | none => rfl
      | some i => exact WorkflowRunState.attemptsOf_applyCancelled w i _
    rw [← hattempts]
    refine hw.interrupt.applyStarted hw.inFlight.interrupt fun o ho => ?_
    rw [WorkflowRunState.length_interrupt]
    exact (hw.origin index target o ht ho).trans (List.getElem?_eq_some_iff.mp ht).1
  | unstarted => exact hw.interrupt.of_steps rfl

theorem Numbered.handleCommand (h : s.Numbered) (hroot : s.Rooted env.id)
    (hfresh : s.forest.entry env.fresh = none) :
    (s.applyAll (s.handleCommand env c).events).Numbered := by
  intro r g w hp
  obtain ⟨w', hadv, ⟨-, rfl⟩ | ⟨before, hbefore, htouched⟩⟩ := handled hroot hfresh hp
  · exact WorkflowRunState.numbered_default.advanced hadv
  · exact (htouched.numbered (h r g before hbefore)).advanced hadv

theorem Nested.not_below_own (h : s.Nested newV5) (hh : s.Hosts newV5) {agent : String} {index : ℕ}
    (hx : s.forest.executionOfAgent agent = some (r, index)) :
    r ∉ s.forest.descendantEntries agent := by
  intro hmem
  obtain ⟨e, p, n, he, hp, hc⟩ := (h.mem_descendantEntries hh).mp hmem
  obtain ⟨⟨k, e'⟩, howner, hx⟩ := Option.bind_eq_some_iff.mp hx
  obtain ⟨v, -, hx⟩ := Option.bind_eq_some_iff.mp hx
  obtain ⟨i, -, heq⟩ := Option.map_eq_some_iff.mp hx
  obtain ⟨rfl, -⟩ := Prod.mk.inj heq
  obtain ⟨hk, -⟩ := RunForest.ownerOfAgent_eq_some.mp howner
  have hlink : s.forest.above agent = some p := RunForest.above_eq_some.mpr ⟨k, e, hk, he, hp⟩
  exact h.ends.not_circle (.step hlink hc)

section

variable (hu : s.upsets env c = false) (hp : s.forest.progress r = some (g, w))

include hu hp

theorem upsets_report {agent : String} {turn : TurnEnd} {index : ℕ}
    (hr : s.reportOf env c = some (agent, turn))
    (hx : s.forest.executionOfAgent agent = some (r, index)) : turn.upsets w = false := by
  obtain ⟨v, hv, -, rfl⟩ := RunForest.progress_eq_some.mp hp
  have hany : s.upsets env c = (s.reportOf env c).any fun x =>
      (s.forest.executionOfAgent x.1).any fun y =>
        (s.forest.workflow y.1).any fun v => x.2.upsets v.run := by
    cases c with
    | agentOutcome | hooks => rfl
    | _ => exact absurd hr (by simp [reportOf])
  rw [hany, hr] at hu
  simpa only [Option.any_some, hx, hv] using hu

theorem upsets_stop {name : String} {key : AgentKey} {index : ℕ} (hc : c = .turn (.stop name))
    (hk : s.stopTarget name = some key)
    (hs : s.stopBoundary key = some (.stepCancelled r index)) : w.status.isTerminal = false := by
  obtain ⟨v, hv, -, rfl⟩ := RunForest.progress_eq_some.mp hp
  subst hc
  unfold upsets at hu
  dsimp only at hu
  rw [hk, Option.bind_some, hs] at hu
  change (s.forest.workflow r).any _ = false at hu
  rwa [hv] at hu

theorem upsets_reconcile (hc : c = .run .reconcileInterrupted) (hcur : w.current.isSome) :
    w.status.isTerminal = false := by
  obtain ⟨v, hv, -, rfl⟩ := RunForest.progress_eq_some.mp hp
  subst hc
  unfold upsets at hu
  obtain ⟨parent, he⟩ := RunForest.entry_of_workflow hv
  have hmem : (r, v) ∈ s.forest.workflows :=
    List.mem_filterMap.mpr ⟨_, Map.mem_toPairs.mpr he, rfl⟩
  have hno := List.any_eq_false.mp hu _ hmem
  rwa [hcur, Bool.true_and, Bool.not_eq_true] at hno

theorem upsets_retry {index : ℕ} {target : StepRun} (hc : c = .run (.retryStep index))
    (hroot : s.forest.root = some r) (ht : w.steps[index]? = some target) :
    w.status.isTerminal = false := by
  obtain ⟨v, hv, -, rfl⟩ := RunForest.progress_eq_some.mp hp
  subst hc
  unfold upsets at hu
  dsimp only at hu
  have hw : s.forest.rootWorkflow = some v := by
    obtain ⟨parent, he⟩ := RunForest.entry_of_workflow hv
    unfold RunForest.rootWorkflow RunForest.rootEntry
    rw [hroot, Option.bind_some, he]
    rfl
  rw [hw, Option.any_some, ht] at hu
  exact hu

end

theorem Touched.honest (h : Touched s env c r w w') (hn : s.Nested newV5) (hh : s.Hosts newV5)
    (hu : s.upsets env c = false) (hp : s.forest.progress r = some (g, w)) (hw : w.Honest) :
    w'.Honest := by
  cases h with
  | kept => exact hw
  | @reported agent turn index hr hx =>
    have hturn := upsets_report hu hp hr hx
    cases turn with
    | concluded output =>
      obtain ⟨hout, herr⟩ := hw.clean hturn
      exact WorkflowRunState.honest_of_clean hout herr fun hs => WorkflowRunStatus.noConfusion hs
    | asked =>
      obtain ⟨hterm, hcur⟩ := Bool.or_eq_false_iff.mp hturn
      obtain ⟨hout, herr⟩ := hw.clean hterm
      refine WorkflowRunState.honest_of_clean hout herr fun _ => ?_
      show w.current.isSome
      rw [← Option.not_isNone, hcur]
      rfl
    | failed error terminal =>
      refine WorkflowRunState.honest_failed ?_
      rw [← Option.not_isSome_iff_eq_none]
      intro hsome
      exact of_decide_eq_false hturn (hw.output hsome)
    | parked | interrupted => exact hw
  | cancelled => exact hw.cancel
  | @stopped name key index w₁ hc hk hs hw₁ =>
    obtain ⟨agent, v, rfl, hx, -, -⟩ := step_of_stopBoundary hs
    rcases hw₁ with rfl | ⟨agent', hcut, hmem, rfl⟩
    · obtain ⟨hout, herr⟩ := hw.clean (upsets_stop hu hp hc hk hs)
      exact WorkflowRunState.honest_of_clean hout herr fun hs => WorkflowRunStatus.noConfusion hs
    · obtain rfl : agent = agent' := Option.some.inj hcut
      exact absurd hmem (hn.not_below_own hh hx)
  | reconciled hc =>
    cases hcur : w.current with
    | none =>
      unfold WorkflowRunState.interrupt
      rw [hcur]
      exact hw
    | some index =>
      have hsome : w.current.isSome := by
        rw [hcur]
        rfl
      obtain ⟨hout, herr⟩ := hw.clean (upsets_reconcile hu hp hc hsome)
      unfold WorkflowRunState.interrupt
      rw [hcur]
      exact WorkflowRunState.honest_of_clean hout herr fun hs => WorkflowRunStatus.noConfusion hs
  | restarted hc hroot ht =>
    obtain ⟨hout, herr⟩ := hw.clean (upsets_retry hu hp hc hroot ht)
    exact WorkflowRunState.honest_of_clean (WorkflowRunState.interrupt_output.trans hout)
      (WorkflowRunState.interrupt_error.trans herr) fun hs => WorkflowRunStatus.noConfusion hs
  | unstarted hc hroot ht =>
    obtain ⟨hout, -⟩ := hw.clean (upsets_retry hu hp hc hroot ht)
    exact WorkflowRunState.honest_failed (WorkflowRunState.interrupt_output.trans hout)

theorem Honest.handleCommand (h : s.Honest) (hn : s.Nested newV5) (hh : s.Hosts newV5)
    (hroot : s.Rooted env.id) (hfresh : s.forest.entry env.fresh = none)
    (hu : s.upsets env c = false) : (s.applyAll (s.handleCommand env c).events).Honest := by
  intro r g w hp
  obtain ⟨w', hadv, ⟨-, rfl⟩ | ⟨before, hbefore, htouched⟩⟩ := handled hroot hfresh hp
  · exact WorkflowRunState.honest_default.advanced hadv
  · exact (htouched.honest hn hh hu hbefore (h r g before hbefore)).advanced hadv

theorem progress_empty : SessionState.empty.forest.progress r = none := rfl

theorem numbered_of_reachable
    (hderived : ∀ run index, WorkflowRunSpec.stepAgentId newV5 run index ≠ id)
    (h : (running id newV5).Reachable s) : s.Numbered := by
  refine h.invariant ?_ ?_
  · rintro s rfl r g w hp
    exact absurd (progress_empty.symm.trans hp) (by simp)
  · rintro s l t hs hn ⟨hunused, rfl⟩
    exact hn.handleCommand (rooted_of_reachable hderived hs) hunused.entry

end SessionState

/-- As long as no command moves a run that is over, and no question is recorded of a run that has
nothing in flight, the record of every run is sound. -/
theorem run_log_sound (id : String) (newV5 : String → String → String) (hd : Derives newV5 id)
    {tr : List (SessionState × (Env × SessionCommand) × SessionState)} {t : SessionState}
    (h : (nesting id newV5).Exec .empty tr t)
    (hcalm : ∀ x ∈ tr, x.1.upsets (x.2.1.1.serving id newV5) x.2.1.2 = false) :
    ∀ run v, t.forest.workflow run = some v → v.run.Sound := by
  have hinit : (nesting id newV5).Reachable .empty := .init rfl
  have hhonest : t.Honest := by
    refine h.guarded (G := fun s l => s.upsets (l.1.serving id newV5) l.2 = false) ?_ hinit ?_
      hcalm
    · rintro s l t hs hhonest hu ⟨⟨hunused, rfl⟩, -⟩
      exact hhonest.handleCommand (SessionState.nested_of_reachable hd hs)
        (SessionState.stepAgents_of_reachable hd hs.unrestrict).hosts
        (SessionState.rooted_of_reachable hd.apart hs.unrestrict) hunused.entry hu
    · intro r g w hp
      exact absurd (SessionState.progress_empty.symm.trans hp) (by simp)
  intro run v hv
  have hp : t.forest.progress run = some (v.graph, v.run) :=
    RunForest.progress_eq_some.mpr ⟨v, hv, rfl, rfl⟩
  have hreach := (h.reachable hinit).unrestrict
  exact (SessionState.numbered_of_reachable hd.apart hreach run v.graph v.run hp).sound
    (hhonest run v.graph v.run hp)

/-- A run whose first step concludes, whose second asks, is stopped and is retried. -/
theorem run_log_sound_retried : ∃ tr t, (nesting "s" joined).Exec .empty tr t ∧
    (t.forest.workflow "s").map (fun v => v.run.steps.map fun x => (x.step, x.attempt)) =
      some [("a", 1), ("b", 1), ("b", 2)] ∧
    ∀ run v, t.forest.workflow run = some v → v.run.Sound := by
  let ls : List (Env × SessionCommand) :=
    [(.plain "1", .core (.create SessionState.twoSteps none none)), (.plain "1", .run .advance),
      (.plain "1", .agentOutcome "s/step:0" (.concluded .null)),
      (.plain "1", .agentOutcome "s/step:1" (.asked [])), (.plain "1", .turn (.stop "main")),
      (.plain "1", .run (.retryStep 1))]
  let G : SessionState → Env × SessionCommand → Prop := fun s l =>
    s.upsets (l.1.serving "s" joined) l.2 = false
  let t := (System.steps? (System.guarded? G nest?) .empty ls).get (by decide +kernel)
  obtain ⟨tr, htr, -, hcalm⟩ := System.exec_of_guarded? (M := nesting "s" joined) (G := G)
    (t := t) (fun _ _ _ _ => step_of_nest?) (Option.some_get _).symm
  exact ⟨tr, t, htr, by decide +kernel, run_log_sound "s" joined (derives_joined rfl) htr hcalm⟩

/-- A run whose step failed is retried, and goes on with the error it failed with. -/
theorem retry_keeps_error : ¬ ∀ s, (nesting "s" joined).Reachable s →
    ∀ run v, s.forest.workflow run = some v → v.run.Sound := by
  let ls : List (Env × SessionCommand) :=
    [(.plain "1", .core (.create SessionState.twoSteps none none)), (.plain "1", .run .advance),
      (.plain "1", .agentOutcome "s/step:0" (.failed "provider 500" true false)),
      (.plain "1", .run (.retryStep 0))]
  let s := (System.steps? nest? .empty ls).get (by decide +kernel)
  intro hall
  have h : (nesting "s" joined).Reachable s := reachable_of_nest? (Option.some_get _).symm
  let v := (s.forest.workflow "s").get (by decide +kernel)
  have herror := (hall s h "s" v (Option.some_get _).symm).error (by decide +kernel)
  exact absurd herror (by decide +kernel)

end Horsie.Session
