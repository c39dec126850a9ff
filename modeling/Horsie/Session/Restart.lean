import Horsie.Session.Runtimes

/-!
# What a load restarts

A loaded session handles the repairs it sent itself. Those of its runtimes, subagents and executions
leave every run alone that has a decision due, so such a run moves only if `Advance` was sent, which
it is not as soon as any run has a step in flight.
-/

namespace Horsie.Session

open Lib

/-! ## Commands handled one after another -/

/-- The session handles commands in order, and is left with what it journaled by then. -/
inductive Handles (id : String) (newV5 : String → String → String) :
    SessionState → List SessionCommand → SessionState → Prop
  | nil {s : SessionState} : Handles id newV5 s [] s
  | cons {s t : SessionState} {c : SessionCommand} {cs : List SessionCommand} (env : Env)
      (hunused : s.Unused newV5 env.fresh)
      (h : Handles id newV5 (s.applyAll (s.handleCommand (env.serving id newV5) c).events) cs t) :
      Handles id newV5 s (c :: cs) t

namespace Handles

variable {id : String} {newV5 : String → String → String} {s t : SessionState} {c : SessionCommand}
  {cs cs' : List SessionCommand}

theorem eq (h : Handles id newV5 s [] t) : t = s := by
  cases h
  rfl

theorem one (h : Handles id newV5 s [c] t) : ∃ env : Env, s.Unused newV5 env.fresh ∧
    t = s.applyAll (s.handleCommand (env.serving id newV5) c).events := by
  cases h with
  | cons env hunused h => exact ⟨env, hunused, h.eq⟩

theorem append_inv (h : Handles id newV5 s (cs ++ cs') t) :
    ∃ u, Handles id newV5 s cs u ∧ Handles id newV5 u cs' t := by
  induction cs generalizing s with
  | nil => exact ⟨s, .nil, h⟩
  | cons c cs ih =>
    cases h with
    | cons env hunused h =>
      obtain ⟨u, hu, ht⟩ := ih h
      exact ⟨u, .cons env hunused hu, ht⟩

theorem reachable (h : Handles id newV5 s cs t) (hs : (running id newV5).Reachable s) :
    (running id newV5).Reachable t := by
  induction h with
  | nil => exact hs
  | @cons s t c cs env hunused h ih => exact ih (hs.step (l := (env, c)) ⟨hunused, rfl⟩)

theorem spec (h : Handles id newV5 s cs t) (hspec : s.spec.isSome) : t.spec.isSome := by
  induction h with
  | nil => exact hspec
  | cons env hunused h ih => exact ih (SessionState.spec_applyAll_isSome hspec)

end Handles

/-! ## What the repairs leave alone -/

namespace SessionState

variable {s s₀ t u : SessionState} {id : String} {newV5 : String → String → String} {r : String}
  {g : WorkflowRunSpec} {w : WorkflowRunState}

/-- Whether the run `r`, at `w`, has a decision due, and its runtime is ready. -/
def DueReady (s : SessionState) (newV5 : String → String → String) (r : String)
    (g : WorkflowRunSpec) (w : WorkflowRunState) : Prop :=
  s.forest.progress r = some (g, w) ∧ WorkflowOrchestrator.stepActions newV5 ⟨r, g⟩ w ≠ [] ∧
    (s.runtimeOfChoice (s.forest.runtimeOfRun r)).readyOn = true

/-- Every run that was due in `s`, on a ready runtime, has had its decision carried out in `t`. -/
def Restarts (s : SessionState) (newV5 : String → String → String) (t : SessionState) : Prop :=
  ∀ r g w, s.DueReady newV5 r g w →
    ∃ w', t.forest.progress r = some (g, w') ∧ WorkflowOrchestrator.Driven newV5 ⟨r, g⟩ w w'

/-- Runs that are due are where they were, and the session's runtime is as ready as it was. -/
structure Idles (id : String) (newV5 : String → String → String) (s t : SessionState) : Prop where
  due : ∀ r g w, s.forest.progress r = some (g, w) →
    WorkflowOrchestrator.stepActions newV5 ⟨r, g⟩ w ≠ [] → t.forest.progress r = some (g, w)
  ready : (t.sessionRuntime id).readyOn = (s.sessionRuntime id).readyOn

theorem Idles.refl : Idles id newV5 s s := ⟨fun _ _ _ hp _ => hp, rfl⟩

theorem Idles.trans (h : Idles id newV5 s t) (h' : Idles id newV5 t u) : Idles id newV5 s u :=
  ⟨fun r g w hp hdue => h'.due r g w (h.due r g w hp hdue) hdue, h'.ready.trans h.ready⟩

theorem sessionRuntime_eq {c : RuntimeChoice} (h : s.forest.choice id = some (some c)) :
    s.sessionRuntime id = s.runtimeOfChoice c := by
  obtain ⟨e, he, hc⟩ := Option.map_eq_some_iff.mp h
  unfold sessionRuntime RunForest.runtimeOfRun
  rw [he]
  show s.runtimeOfChoice (RunForest.runtimeFrom _ _ _) = _
  unfold RunForest.runtimeFrom
  rw [hc]

theorem runtimeOfChoice_congr {c : RuntimeChoice} (h : t.runtimes = s.runtimes) :
    t.runtimeOfChoice c = s.runtimeOfChoice c := by
  cases c with
  | on r =>
    unfold runtimeOfChoice
    rw [h]
  | without | pending | inherit => rfl

theorem idles_of_events {events : List SessionDomainEvent} (h : s.Housed id)
    (hspec : s.spec.isSome)
    (he : ∀ e ∈ events, e.isStructural = false ∧ e.isLifecycle = false)
    (hdue : ∀ r g w, s.forest.progress r = some (g, w) →
      WorkflowOrchestrator.stepActions newV5 ⟨r, g⟩ w ≠ [] →
        (s.applyAll events).forest.progress r = some (g, w)) :
    Idles id newV5 s (s.applyAll events) := by
  obtain ⟨-, c, hc⟩ := h.seated hspec
  have hruntimes : (s.applyAll events).runtimes = s.runtimes :=
    runtimes_applyAll_of_not_isLifecycle fun e hx => (he e hx).2
  have hchoice : (s.applyAll events).forest.choice id = s.forest.choice id :=
    choice_applyAll fun e hx => isTame_of_not_isLifecycle (he e hx).1 (he e hx).2
  refine ⟨hdue, ?_⟩
  rw [sessionRuntime_eq hc, sessionRuntime_eq (hchoice.trans hc),
    runtimeOfChoice_congr hruntimes]

variable {env : Env}

theorem idles_subAgents (env : Env) (h : s.Housed id) (hspec : s.spec.isSome) :
    Idles id newV5 s (s.applyAll (s.handleCommand env (.subAgent .reconcile)).events) := by
  rw [handleCommand_of_told hspec]
  have hquiet : ∀ e ∈ s.reconciledSubs, e.isCalm = true := by
    intro e he
    obtain ⟨x, -, rfl⟩ := List.mem_map.mp he
    rfl
  refine idles_of_events h hspec (fun e he => ?_) fun r g w hp _ => ?_
  · have hcalm := hquiet e he
    exact ⟨SessionDomainEvent.not_structural_of_isQuiet
      (SessionDomainEvent.isQuiet_of_isCalm hcalm),
      SessionDomainEvent.not_isLifecycle_of_isCalm hcalm⟩
  · refine (progress_applyAll_quiet fun e he => ?_).trans hp
    exact SessionDomainEvent.isQuiet_of_isCalm (hquiet e he)

theorem idles_reconcile (env : Env) (h : s.Housed id) (hspec : s.spec.isSome) :
    Idles id newV5 s (s.applyAll (s.handleCommand env (.run .reconcileInterrupted)).events) := by
  rw [handleCommand_of_told hspec]
  refine idles_of_events h hspec (fun e he => ?_) fun r g w hp hdue => ?_
  · obtain ⟨x, -, rfl⟩ := List.mem_map.mp he
    exact ⟨rfl, rfl⟩
  · have hfree := WorkflowOrchestrator.free_of_stepActions hdue
    refine (progress_reconciledSteps hp).trans ?_
    unfold WorkflowRunState.interrupt
    rw [hfree.current]

theorem reseed_events (hspec : s.spec.isSome) :
    (s.handleCommand env (.subSession .reseedInterrupted)).events = [] := by
  rw [handleCommand_of_told hspec]
  rfl

/-- A create is begun again of a runtime that was not ready, so nobody's runtime is less ready. -/
theorem idles_provision (env : Env) (h : s.Housed id) (hspec : s.spec.isSome)
    {c : SessionCommand} (hc : s.repairLifecycle = some c) :
    Idles id newV5 s (s.applyAll (s.handleCommand env c).events) := by
  rw [repairLifecycle_eq] at hc
  split_ifs at hc with hfatal
  obtain ⟨⟨r, x⟩, hfind, rfl⟩ := Option.map_eq_some_iff.mp hc
  have hun := List.find?_some hfind
  have hx : s.runtimes.lookup r = some x := Map.mem_toPairs.mp (List.mem_of_find?_eq_some hfind)
  rw [handleCommand_provision h hspec (Option.not_isSome_iff_eq_none.mp hfatal) hx hun]
  obtain ⟨-, choice, hchoice⟩ := h.seated hspec
  refine ⟨fun r' g w hp _ => ?_, ?_⟩
  · refine (progress_applyAll_quiet fun e he => ?_).trans hp
    exact List.mem_singleton.mp he ▸ rfl
  · show (SessionState.sessionRuntime (s.setProvisioning r fun _ => .inFlight env.now)
      id).readyOn = _
    rw [sessionRuntime_eq hchoice, sessionRuntime_eq (s := s.setProvisioning r _) hchoice]
    cases choice with
    | on r' =>
      unfold runtimeOfChoice setProvisioning
      dsimp only
      rw [Map.lookup_adjust]
      split_ifs with hr
      · subst hr
        rw [hx]
        show false = AgentRuntime.readyOn (.on _ x)
        unfold AgentRuntime.readyOn
        dsimp only
        cases hp : x.provisioning with
        | inFlight | failed => rfl
        | never | ready =>
          rw [hp] at hun
          cases hun
      · rfl
    | without | pending | inherit => rfl

/-! ## What is restarted -/

theorem flushThenDrain_of_not_ready (h : (s.sessionRuntime env.id).readyOn = false) :
    (s.flushThenDrain env).events = [] := by
  unfold flushThenDrain flushRounds nextActions
  rw [h]
  rfl

theorem Idles.restarts_iff (h : Idles id newV5 s t) :
    s.Restarts newV5 t ↔ ∀ r g w, ¬ s.DueReady newV5 r g w := by
  constructor
  · intro hall r g w hdue
    obtain ⟨w', hw', hdriven⟩ := hall r g w hdue
    have hkept := h.due r g w hdue.1 hdue.2.1
    cases hkept.symm.trans hw'
    exact hdue.2.1 hdriven.stepActions
  · exact fun hnone r g w hdue => absurd hdue (hnone r g w)

theorem idles_before (hderived : ∀ run index, WorkflowRunSpec.stepAgentId newV5 run index ≠ id)
    (hs : (running id newV5).Reachable s) (hspec : s.spec.isSome)
    (h : Handles id newV5 s (s.repairLifecycle.toList ++ s.repairSubAgents.toList) t) :
    Idles id newV5 s t := by
  obtain ⟨u, hu, ht⟩ := h.append_inv
  have hsu : Idles id newV5 s u := by
    cases hc : s.repairLifecycle with
    | none =>
      rw [hc] at hu
      exact hu.eq ▸ .refl
    | some c =>
      rw [hc] at hu
      obtain ⟨env, -, rfl⟩ := hu.one
      exact idles_provision _ (housed_of_reachable hderived hs) hspec hc
  refine hsu.trans ?_
  have hreach := hu.reachable hs
  unfold repairSubAgents at ht
  split_ifs at ht with hnone
  · exact ht.eq ▸ .refl
  · obtain ⟨env, -, rfl⟩ := ht.one
    exact idles_subAgents _ (housed_of_reachable hderived hreach) (hu.spec hspec)

/-- The repairs of a load carry out all that was due in what was loaded exactly if nothing was, or
no run had a step in flight, some run was pending, and the session had its runtime. -/
theorem load_restarts_iff (id : String) (newV5 : String → String → String)
    (hderived : ∀ run index, WorkflowRunSpec.stepAgentId newV5 run index ≠ id)
    {s t : SessionState} (hloaded : (running id newV5).Reachable s)
    (h : Handles id newV5 s s.repairs t) :
    s.Restarts newV5 t ↔ (∀ r g w, ¬ s.DueReady newV5 r g w) ∨
      (s.forest.hasStepInFlight = false ∧
        (s.forest.workflows.any fun w => w.2.run.status = .pending) = true ∧
          (s.sessionRuntime id).readyOn = true) := by
  cases hspec : s.spec with
  | none =>
    have hnone : ∀ r g w, ¬ s.DueReady newV5 r g w := by
      rintro r g w ⟨hp, -⟩
      rw [(rooted_of_reachable hderived hloaded).untold hspec] at hp
      exact absurd hp (by simp [RunForest.progress, RunForest.workflow, RunForest.entry,
        RunForest.empty])
    exact ⟨fun _ => .inl hnone, fun _ r g w hdue => absurd hdue (hnone r g w)⟩
  | some spec =>
    have hsome : s.spec.isSome := hspec ▸ rfl
    obtain ⟨v, hv, hreseed⟩ := h.append_inv
    obtain ⟨u, hu, hruns⟩ := hv.append_inv
    have hidle := idles_before hderived hloaded hsome hu
    have hu' := hu.reachable hloaded
    have husome := hu.spec hsome
    obtain rfl : t = v := by
      unfold repairSubSessions at hreseed
      split_ifs at hreseed
      · obtain ⟨env, -, rfl⟩ := hreseed.one
        rw [reseed_events (hv.spec hsome)]
        rfl
      · exact hreseed.eq
    unfold repairRuns at hruns
    split_ifs at hruns with hflight hpending
    · obtain ⟨env, -, rfl⟩ := hruns.one
      have hidle' := hidle.trans
        (idles_reconcile (env.serving id newV5) (housed_of_reachable hderived hu') husome)
      rw [hidle'.restarts_iff, hflight]
      simp
    · obtain ⟨env, -, rfl⟩ := hruns.one
      rw [handleCommand_of_told husome]
      show s.Restarts newV5 (u.applyAll (u.flushThenDrain (env.serving id newV5)).events) ↔ _
      cases hready : (s.sessionRuntime id).readyOn with
      | true =>
        have hready' : (u.sessionRuntime id).readyOn = true := hidle.ready.trans hready
        refine ⟨fun _ => .inr ⟨Bool.eq_false_iff.mpr hflight, hpending, rfl⟩,
          fun _ r g w hdue => ?_⟩
        exact driven_flushThenDrain (hidle.due r g w hdue.1 hdue.2.1) hready' hdue.2.1
      | false =>
        have hready' : (u.sessionRuntime (env.serving id newV5).id).readyOn = false :=
          hidle.ready.trans hready
        rw [flushThenDrain_of_not_ready hready']
        show s.Restarts newV5 u ↔ _
        rw [hidle.restarts_iff]
        simp
    · obtain rfl := hruns.eq
      rw [hidle.restarts_iff]
      simp [hpending]

theorem handles_of_serve? (env : Env) {cs : List SessionCommand}
    (h : System.steps? serve? s (cs.map (env, ·)) = some t) : Handles "s" joined s cs t := by
  induction cs generalizing s with
  | nil => exact Option.some.inj h ▸ .nil
  | cons c cs ih =>
    obtain ⟨u, hu, h⟩ := Option.bind_eq_some_iff.mp h
    obtain ⟨hunused, rfl⟩ := step_of_serve? hu
    exact .cons env hunused (ih h)

theorem repairs_eq_repairRuns (hl : s.repairLifecycle.isNone) (ha : s.repairSubAgents.isNone)
    (hs : s.repairSubSessions.isNone) : s.repairs = s.repairRuns.toList := by
  unfold repairs
  rw [Option.isNone_iff_eq_none.mp hl, Option.isNone_iff_eq_none.mp ha,
    Option.isNone_iff_eq_none.mp hs]
  simp only [Option.toList_none, List.nil_append, List.append_nil]

/-- A load finds one run pending, and starts its first step. -/
theorem load_restarts_pending : ∃ s t, (running "s" joined).Reachable s ∧
    Handles "s" joined s s.repairs t ∧ (t.forest.workflow "1").map (·.run.current) = some (some 0) ∧
      s.Restarts joined t := by
  let ls : List (Env × SessionCommand) :=
    [(.plain "1", .core (.create agentSession none none)),
      (.plain "1", .run (.create "s" oneStep))]
  let s := (System.steps? serve? .empty ls).get (by decide +kernel)
  let t := (System.steps? serve? s ([.run .advance].map (Env.plain "2", ·))).get
    (by decide +kernel)
  obtain ⟨tr, htr, -⟩ := exec_serve? (t := s) (Option.some_get _).symm
  have hloaded : (running "s" joined).Reachable s := htr.reachable (.init rfl)
  have hrepairs : s.repairs = [.run .advance] := by
    rw [repairs_eq_repairRuns (by decide +kernel) (by decide +kernel) (by decide +kernel)]
    have hflight : s.forest.hasStepInFlight = false := by decide +kernel
    have hpending : (s.forest.workflows.any fun w => w.2.run.status = .pending) = true := by
      decide +kernel
    unfold repairRuns
    rw [hflight, hpending]
    rfl
  have hhandles : Handles "s" joined s s.repairs t := by
    rw [hrepairs]
    exact handles_of_serve? (.plain "2") (Option.some_get _).symm
  refine ⟨s, t, hloaded, hhandles, by decide +kernel, ?_⟩
  refine (load_restarts_iff "s" joined (joined_ne rfl) hloaded hhandles).mpr (.inr ?_)
  exact ⟨by decide +kernel, by decide +kernel, by decide +kernel⟩

/-- A load finds one run with its step in flight and another pending. The first is repaired, and the
second is started by nobody. -/
theorem pending_run_forgotten :
    ¬ ∀ s t, (running "s" joined).Reachable s → Handles "s" joined s s.repairs t →
      s.Restarts joined t := by
  let ls : List (Env × SessionCommand) :=
    [(.plain "1", .core (.create agentSession none none)),
      (.plain "1", .run (.create "s" oneStep)), (.plain "2", .run (.finishCreate "1" true)),
      (.plain "2", .run (.create "s" oneStep))]
  let s := (System.steps? serve? .empty ls).get (by decide +kernel)
  let t := (System.steps? serve? s ([.run .reconcileInterrupted].map (Env.plain "3", ·))).get
    (by decide +kernel)
  obtain ⟨tr, htr, -⟩ := exec_serve? (t := s) (Option.some_get _).symm
  have hrepairs : s.repairs = [.run .reconcileInterrupted] := by
    rw [repairs_eq_repairRuns (by decide +kernel) (by decide +kernel) (by decide +kernel)]
    have hflight : s.forest.hasStepInFlight = true := by decide +kernel
    unfold repairRuns
    rw [hflight]
    rfl
  intro hall
  have hhandles : Handles "s" joined s s.repairs t := by
    rw [hrepairs]
    exact handles_of_serve? (.plain "3") (Option.some_get _).symm
  have hrestarts := hall s t (htr.reachable (.init rfl)) hhandles
  have hs : s.forest.progress "2" = some (oneStep, .default) := by decide +kernel
  have ht : t.forest.progress "2" = some (oneStep, .default) := by decide +kernel
  have hdue : WorkflowOrchestrator.stepActions joined ⟨"2", oneStep⟩ .default ≠ [] := by
    decide +kernel
  obtain ⟨w', hw', hdriven⟩ := hrestarts "2" oneStep .default ⟨hs, hdue, by decide +kernel⟩
  cases ht.symm.trans hw'
  exact hdue hdriven.stepActions

end SessionState

end Horsie.Session
