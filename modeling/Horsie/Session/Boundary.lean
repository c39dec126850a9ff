import Horsie.Session.Actor
import Horsie.Session.Shape

/-!
# What a boundary does to a run

A turn boundary delivers what is owed and carries out what the drivers decide. The drivers decide at
most one thing about a run, nothing else that is carried out is about it, and once it is carried out
nothing more is decided: a run comes out of a boundary as it was, or moved by one decision
(`Advanced`), and moved if one was due and the session has its runtime (`driven_flushThenDrain`).
-/

namespace Horsie.Session

open Lib

/-! ## Decisions -/

def AgentAction.run? : AgentAction → Option String
  | .startStep s => some s.run
  | .finish run _ | .fail run _ => some run
  | .deliver _ => none

/-- Whether the driver looks for the next thing to do at all. -/
structure WorkflowRunState.Free (w : WorkflowRunState) : Prop where
  current : w.current = none
  goesOn : w.status = .pending ∨ w.status = .running

namespace WorkflowOrchestrator

variable (newV5 : String → String → String) (o : WorkflowOrchestrator) (w : WorkflowRunState)

inductive Decides : AgentAction → Prop
  | fail (error : String) : Decides (.fail o.runId error)
  | finish (output : Agent.Value) : Decides (.finish o.runId output)
  | start (step : String) (origin : Option ℕ) (via : Option String) (incoming : String)
      (fromStep : Option String) : Decides (o.start newV5 w step origin via incoming fromStep)

/-- What carrying out an action makes of the record of its run. A step that cannot be started fails
the run. -/
def Carried (a : AgentAction) (w' : WorkflowRunState) : Prop :=
  w' = w.perform a ∨ ∃ st error, a = .startStep st ∧ w' = w.applyFailed error

def Driven (w' : WorkflowRunState) : Prop := ∃ a ∈ o.stepActions newV5 w, Carried w a w'

/-- Where a boundary leaves a run. -/
def Advanced (w' : WorkflowRunState) : Prop := w' = w ∨ o.Driven newV5 w w'

variable {newV5 o w} {w' : WorkflowRunState} {a : AgentAction}

theorem not_waiting_of_free (h : w.Free) :
    ¬ (w.status.isTerminal || decide (w.status = .suspended) ||
      decide (w.status = .awaitingInput) || w.current.isSome) = true := by
  rw [h.current]
  rcases h.goesOn with hs | hs <;> rw [hs] <;> decide

/-- A run is decided about while nothing of it is in flight and it is neither over nor waiting. -/
theorem free_of_stepActions (h : o.stepActions newV5 w ≠ []) : w.Free := by
  have hfree : ¬ (w.status.isTerminal || decide (w.status = .suspended) ||
      decide (w.status = .awaitingInput) || w.current.isSome) = true := by
    intro hbusy
    apply h
    unfold stepActions
    rw [if_pos hbusy]
  simp only [Bool.or_eq_true, decide_eq_true_eq, not_or, Bool.not_eq_true,
    Option.isSome_eq_false_iff, Option.isNone_iff_eq_none] at hfree
  obtain ⟨⟨⟨hterm, hsusp⟩, hawait⟩, hcur⟩ := hfree
  refine ⟨hcur, ?_⟩
  cases hs : w.status with
  | pending => exact .inl rfl
  | running => exact .inr rfl
  | suspended => exact absurd hs hsusp
  | awaitingInput => exact absurd hs hawait
  | finished | failed =>
    rw [hs] at hterm
    cases hterm

theorem stepActions_cases : o.stepActions newV5 w = [] ∨
    ∃ a, o.stepActions newV5 w = [a] ∧ o.Decides newV5 w a := by
  by_cases h : o.stepActions newV5 w = []
  · exact .inl h
  right
  have hfree := free_of_stepActions h
  unfold stepActions at h ⊢
  rw [if_neg (not_waiting_of_free hfree)] at h ⊢
  split at h
  · rw [if_pos (by assumption)]
    exact ⟨_, rfl, .fail _⟩
  rw [if_neg (by assumption)]
  cases hl : w.last with
  | none =>
    simp only
    split_ifs
    · exact ⟨_, rfl, .fail _⟩
    · exact ⟨_, rfl, .start _ _ _ _ _⟩
  | some p =>
    obtain ⟨index, last⟩ := p
    rw [hl] at h
    simp only at h ⊢
    by_cases hc : last.status = .concluded
    · rw [if_neg (not_not.mpr hc)]
      cases o.spec.step last.step with
      | none => exact ⟨_, rfl, .fail _⟩
      | some step =>
        simp only
        cases nextTransition step.transitions (outcomeOf (last.output.getD .null)) with
        | none => exact ⟨_, rfl, .finish _⟩
        | some t =>
          obtain ⟨target, via⟩ := t
          simp only
          split_ifs
          · exact ⟨_, rfl, .fail _⟩
          · exact ⟨_, rfl, .start _ _ _ _ _⟩
    · rw [if_pos hc] at h
      exact absurd rfl h

theorem decides_of_mem (h : a ∈ o.stepActions newV5 w) : o.Decides newV5 w a := by
  rcases stepActions_cases (o := o) (w := w) with hn | ⟨b, hb, hd⟩
  · rw [hn] at h
    cases h
  · rw [hb] at h
    obtain rfl := List.mem_singleton.mp h
    exact hd

theorem Decides.run? (h : o.Decides newV5 w a) : a.run? = some o.runId := by
  cases h <;> rfl

/-- An execution is decided behind the others, on the agent derived for it. -/
theorem Decides.startStep {st : StepStart} (h : o.Decides newV5 w (.startStep st)) :
    st.run = o.runId ∧ st.index = w.steps.length ∧
      st.agent = WorkflowRunSpec.stepAgentId newV5 o.runId st.index := by
  generalize ha : AgentAction.startStep st = a at h
  cases h with
  | fail | finish => cases ha
  | start =>
    cases ha
    exact ⟨rfl, rfl, rfl⟩

/-- Something is decided about a run that goes on once its last execution has concluded. -/
theorem stepActions_ne_nil (h : w.Free)
    (hl : ∀ s, w.steps.getLast? = some s → s.status = .concluded) :
    o.stepActions newV5 w ≠ [] := by
  unfold stepActions
  rw [if_neg (not_waiting_of_free h)]
  split
  · exact List.cons_ne_nil _ _
  cases hlast : w.last with
  | none =>
    simp only
    split <;> exact List.cons_ne_nil _ _
  | some p =>
    obtain ⟨index, last⟩ := p
    unfold WorkflowRunState.last at hlast
    obtain ⟨s, hs, hp⟩ := Option.map_eq_some_iff.mp hlast
    obtain ⟨-, rfl⟩ := Prod.mk.inj hp
    simp only
    rw [if_neg (not_not.mpr (hl s hs))]
    cases o.spec.step s.step with
    | none => exact List.cons_ne_nil _ _
    | some step =>
      simp only
      cases nextTransition step.transitions (outcomeOf (s.output.getD .null)) with
      | none => exact List.cons_ne_nil _ _
      | some t =>
        simp only
        split <;> exact List.cons_ne_nil _ _

/-- Once a decision is carried out, a step is in flight or the run is over. -/
theorem Driven.settled (h : o.Driven newV5 w w') :
    w'.status.isTerminal = true ∨ w'.current.isSome := by
  obtain ⟨a, ha, hc⟩ := h
  rcases hc with rfl | ⟨st, error, rfl, rfl⟩
  · cases decides_of_mem ha with
    | fail | finish => exact .inl rfl
    | start =>
      right
      show (List.findIdx? _ (w.steps ++ _)).isSome
      rw [List.findIdx?_isSome]
      simp
  · exact .inl rfl

theorem Driven.stepActions (h : o.Driven newV5 w w') : o.stepActions newV5 w' = [] := by
  rcases h.settled with h | h
  · exact WorkflowRunState.stepActions_of_terminal h
  · exact WorkflowRunState.stepActions_of_current h

theorem not_driven (h : o.stepActions newV5 w = []) : ¬ o.Driven newV5 w w' := by
  rintro ⟨a, ha, -⟩
  rw [h] at ha
  cases ha

theorem Advanced.trans {w'' : WorkflowRunState} (h : o.Advanced newV5 w w')
    (h' : o.Advanced newV5 w' w'') : o.Advanced newV5 w w'' := by
  rcases h with rfl | h
  · exact h'
  · rcases h' with rfl | h'
    · exact .inr h
    · exact absurd h' (not_driven h.stepActions)

end WorkflowOrchestrator

/-! ## Carrying out actions -/

namespace SessionDomainEvent

def AtBoundary (newV5 : String → String → String) : SessionDomainEvent → Prop
  | .stepStarted run index _ agent _ _ _ _ => agent = WorkflowRunSpec.stepAgentId newV5 run index
  | .runFinished _ _ | .runFailed _ _ | .runNotified _ | .subAgentNotified _ => True
  | _ => False

variable {newV5 : String → String → String} {e : SessionDomainEvent}

theorem AtBoundary.not_structural (h : e.AtBoundary newV5) : e.isStructural = false := by
  cases e <;> first | rfl | exact absurd h id

theorem AtBoundary.startedAgent {agent : String} (h : e.AtBoundary newV5)
    (ha : e.startedAgent = some agent) : ∃ run index, e.run? = some run ∧
      agent = WorkflowRunSpec.stepAgentId newV5 run index := by
  cases e with
  | stepStarted run index =>
    cases ha
    exact ⟨run, index, rfl, h⟩
  | _ => exact absurd ha (by simp [SessionDomainEvent.startedAgent])

end SessionDomainEvent

namespace SessionState

variable {s : SessionState} {env : Env} {r : String} {a : AgentAction}

theorem applyAll_append {xs ys : List SessionDomainEvent} :
    s.applyAll (xs ++ ys) = (s.applyAll xs).applyAll ys := List.foldl_append

theorem deliver_events (d : Delivery) : (s.deliver env d).events = [] ∨
    (s.deliver env d).events = [.runNotified d.child] ∨
      (s.deliver env d).events = [.subAgentNotified d.child] := by
  unfold deliver
  dsimp only
  split_ifs
  · right
    cases (s.forest.entry d.child).map RunEntry.state with
    | none => exact .inr rfl
    | some state =>
      cases state with
      | workflow => exact .inl rfl
      | main | sub | subSession => exact .inr rfl
  · exact .inl rfl

theorem startStep_events (st : StepStart) :
    (s.forest.workflow st.run).isSome ∧ (s.startStep env st).events =
        [.stepStarted st.run st.index st.step st.agent st.attempt st.origin st.via st.input] ∨
      ∃ error, (s.startStep env st).events = [.runFailed st.run error] := by
  unfold startStep
  split
  · rename_i step hstep hspawns
    split_ifs
    · obtain ⟨w, hw, -⟩ := Option.bind_eq_some_iff.mp hstep
      exact .inl ⟨hw ▸ rfl, rfl⟩
    · exact .inr ⟨_, rfl⟩
  all_goals exact .inr ⟨_, rfl⟩

theorem perform_events (a : AgentAction) : ((s.perform env a).events = [] ∧ a.run? = none) ∨
    ∃ e, (s.perform env a).events = [e] ∧ e.isStructural = false ∧
      (∀ agent, e ≠ .askRecorded agent) ∧
      match a.run? with
      | none => e.onRun = none
      | some run => ∃ g, e.onRun = some (run, g) ∧ ∀ w, WorkflowOrchestrator.Carried w a (g w) := by
  cases a with
  | deliver d =>
    rcases deliver_events (s := s) d with h | h | h
    · exact .inl ⟨h, rfl⟩
    · exact .inr ⟨_, h, rfl, fun _ => SessionDomainEvent.noConfusion, rfl⟩
    · exact .inr ⟨_, h, rfl, fun _ => SessionDomainEvent.noConfusion, rfl⟩
  | startStep st =>
    right
    rcases startStep_events (s := s) st with ⟨-, h⟩ | ⟨error, h⟩
    · exact ⟨_, h, rfl, fun _ => SessionDomainEvent.noConfusion, _, rfl, fun w => .inl rfl⟩
    · exact ⟨_, h, rfl, fun _ => SessionDomainEvent.noConfusion, _, rfl,
        fun w => .inr ⟨st, error, rfl, rfl⟩⟩
  | finish run output =>
    exact .inr ⟨_, rfl, rfl, fun _ => SessionDomainEvent.noConfusion, _, rfl, fun w => .inl rfl⟩
  | fail run error =>
    exact .inr ⟨_, rfl, rfl, fun _ => SessionDomainEvent.noConfusion, _, rfl, fun w => .inl rfl⟩

theorem atBoundary_perform (h : ∀ st, a = .startStep st →
    st.agent = WorkflowRunSpec.stepAgentId env.newV5 st.run st.index) :
    ∀ e ∈ (s.perform env a).events, e.AtBoundary env.newV5 := by
  cases a with
  | deliver d =>
    intro e he
    change e ∈ (s.deliver env d).events at he
    rcases deliver_events (s := s) d with hd | hd | hd <;> rw [hd] at he
    · cases he
    all_goals
      obtain rfl := List.mem_singleton.mp he
      trivial
  | startStep st =>
    intro e he
    change e ∈ (s.startStep env st).events at he
    rcases startStep_events (s := s) st with ⟨-, hs⟩ | ⟨error, hs⟩ <;> rw [hs] at he
    · obtain rfl := List.mem_singleton.mp he
      exact h st rfl
    · obtain rfl := List.mem_singleton.mp he
      trivial
  | finish | fail =>
    intro e he
    obtain rfl := List.mem_singleton.mp he
    trivial

theorem progress_perform_other (h : a.run? ≠ some r) :
    (s.applyAll (s.perform env a).events).forest.progress r = s.forest.progress r := by
  rcases perform_events (s := s) a with ⟨he, -⟩ | ⟨e, he, hstr, hask, hrun⟩
  · rw [he]
    rfl
  rw [he]
  show (s.applyEvent e).forest.progress r = _
  rw [progress_applyEvent hstr hask]
  cases ha : a.run? with
  | none =>
    rw [ha] at hrun
    rw [hrun]
  | some run =>
    rw [ha] at hrun h
    obtain ⟨g, hg, -⟩ := hrun
    rw [hg]
    exact if_neg fun hr => h (congrArg some hr.symm)

theorem progress_perform {g : WorkflowRunSpec} {w : WorkflowRunState} (h : a.run? = some r)
    (hp : s.forest.progress r = some (g, w)) :
    ∃ w', (s.applyAll (s.perform env a).events).forest.progress r = some (g, w') ∧
      WorkflowOrchestrator.Carried w a w' := by
  rcases perform_events (s := s) a with ⟨-, ha⟩ | ⟨e, he, hstr, hask, hrun⟩
  · rw [h] at ha
    cases ha
  rw [h] at hrun
  obtain ⟨k, hk, hc⟩ := hrun
  refine ⟨k w, ?_, hc w⟩
  rw [he]
  show (s.applyEvent e).forest.progress r = _
  rw [progress_applyEvent hstr hask, hk]
  show (if r = r then Option.map _ _ else _) = _
  rw [if_pos rfl, hp]
  rfl

variable {as : List AgentAction}

theorem performAll_append {bs : List AgentAction} :
    (performAll env s (as ++ bs)).events = (performAll env s as).events ++
      (performAll env (s.applyAll (performAll env s as).events) bs).events := by
  induction as generalizing s with
  | nil => rfl
  | cons a as ih =>
    show (s.perform env a).events ++ (performAll env _ (as ++ bs)).events = _
    rw [ih, ← List.append_assoc]
    congr 2
    show performAll env ((s.applyAll (s.perform env a).events).applyAll _) bs = _
    rw [← applyAll_append]
    rfl

theorem progress_performAll_other (h : ∀ a ∈ as, a.run? ≠ some r) :
    (s.applyAll (performAll env s as).events).forest.progress r = s.forest.progress r := by
  induction as generalizing s with
  | nil => rfl
  | cons a as ih =>
    show (s.applyAll ((s.perform env a).events ++ _)).forest.progress r = _
    rw [applyAll_append]
    refine (ih fun b hb => h b (List.mem_cons_of_mem _ hb)).trans ?_
    exact progress_perform_other (h a List.mem_cons_self)

/-- Of many actions, the only one about a run is carried out on its record as it stands. -/
theorem progress_performAll {g : WorkflowRunSpec} {w : WorkflowRunState}
    (h : as.filter (·.run? = some r) = [a]) (hp : s.forest.progress r = some (g, w)) :
    ∃ w', (s.applyAll (performAll env s as).events).forest.progress r = some (g, w') ∧
      WorkflowOrchestrator.Carried w a w' := by
  obtain ⟨pre, post, rfl, hpre, ha, hpost⟩ := List.filter_eq_cons_iff.mp h
  have hpre' : ∀ b ∈ pre, b.run? ≠ some r := fun b hb hr => hpre b hb (decide_eq_true hr)
  have hpost' : ∀ b ∈ post, b.run? ≠ some r := by
    intro b hb hr
    exact List.filter_eq_nil_iff.mp hpost b hb (decide_eq_true hr)
  rw [performAll_append, applyAll_append]
  have hp' : (s.applyAll (performAll env s pre).events).forest.progress r = some (g, w) :=
    (progress_performAll_other hpre').trans hp
  show ∃ w', (SessionState.applyAll _ (_ ++ _)).forest.progress r = _ ∧ _
  rw [applyAll_append, progress_performAll_other hpost']
  exact progress_perform (of_decide_eq_true ha) hp'

/-! ## Rounds -/

def decided (env : Env) (id : String) (e : RunEntry) : List AgentAction :=
  e.state.workflow?.toList.flatMap fun w =>
    WorkflowOrchestrator.stepActions env.newV5 ⟨id, w.graph⟩ w.run

/-- Of what is decided, what is about one run is what its driver decides. -/
theorem workflowActions_filter : (s.workflowActions env).filter (·.run? = some r) =
    match s.forest.progress r with
    | some (g, w) => WorkflowOrchestrator.stepActions env.newV5 ⟨r, g⟩ w
    | none => [] := by
  have hall : s.workflowActions env =
      s.forest.entries.toPairs.flatMap fun e => decided env e.1 e.2 := by
    unfold workflowActions RunForest.workflows
    induction s.forest.entries.toPairs with
    | nil => rfl
    | cons e es ih =>
      rw [List.filterMap_cons, List.flatMap_cons, ← ih]
      unfold decided
      cases e.2.state.workflow? with
      | none => rfl
      | some w => rw [Option.toList_some, List.flatMap_singleton]; rfl
  have hkey : ∀ id e, ∀ a ∈ decided env id e, a.run? = some id ∨ a.run? = none := by
    intro id e a ha
    obtain ⟨w, -, ha⟩ := List.mem_flatMap.mp ha
    exact .inl (WorkflowOrchestrator.decides_of_mem ha).run?
  rw [hall, Map.filter_flatMap_toPairs hkey]
  unfold RunForest.progress RunForest.workflow RunForest.entry
  cases s.forest.entries.lookup r with
  | none => rfl
  | some e =>
    show (decided env r e).filter _ = _
    unfold decided
    cases h : e.state.workflow? with
    | none => simp only [Option.bind_some, h, Option.map_none, Option.toList_none,
        List.flatMap_nil, List.filter_nil]
    | some w =>
      simp only [Option.bind_some, h, Option.map_some, Option.toList_some,
        List.flatMap_singleton]
      refine List.filter_eq_self.mpr fun a ha => ?_
      exact decide_eq_true (WorkflowOrchestrator.decides_of_mem ha).run?

theorem nextActions_filter : (s.nextActions env).filter (·.run? = some r) =
    if (s.sessionRuntime env.id).readyOn then
      match s.forest.progress r with
      | some (g, w) => WorkflowOrchestrator.stepActions env.newV5 ⟨r, g⟩ w
      | none => []
    else [] := by
  unfold nextActions
  split_ifs
  · rw [List.filter_append, workflowActions_filter]
    have howed : (s.owedDeliveries env).filter (·.run? = some r) = [] := by
      rw [List.filter_eq_nil_iff]
      intro a ha
      obtain ⟨e, -, he⟩ := List.mem_filterMap.mp ha
      obtain ⟨parent, -, he⟩ := Option.bind_eq_some_iff.mp he
      obtain ⟨part, -, he⟩ := Option.bind_eq_some_iff.mp he
      obtain ⟨key, -, rfl⟩ := Option.map_eq_some_iff.mp he
      exact fun h => absurd (of_decide_eq_true h) (by simp [AgentAction.run?])
    rw [howed, List.nil_append]
  · rfl

section

variable {g : WorkflowRunSpec} {w : WorkflowRunState}

/-- A round moves a run by what its driver decides, if the session has its runtime. -/
theorem progress_round (hp : s.forest.progress r = some (g, w)) :
    ∃ w', (s.applyAll (performAll env s (s.nextActions env)).events).forest.progress r =
        some (g, w') ∧
      WorkflowOrchestrator.Advanced env.newV5 ⟨r, g⟩ w w' ∧
      ((s.sessionRuntime env.id).readyOn = true →
        WorkflowOrchestrator.stepActions env.newV5 ⟨r, g⟩ w ≠ [] →
        WorkflowOrchestrator.Driven env.newV5 ⟨r, g⟩ w w') := by
  have hf : (s.nextActions env).filter (·.run? = some r) = _ := nextActions_filter
  have hkept : (s.nextActions env).filter (·.run? = some r) = [] →
      (s.applyAll (performAll env s (s.nextActions env)).events).forest.progress r =
        some (g, w) := by
    intro h
    rw [← hp]
    apply progress_performAll_other
    intro a ha hr
    exact List.filter_eq_nil_iff.mp h a ha (decide_eq_true hr)
  by_cases hready : (s.sessionRuntime env.id).readyOn = true
  · rw [if_pos hready, hp] at hf
    rcases WorkflowOrchestrator.stepActions_cases (o := ⟨r, g⟩) (w := w) with
      hn | ⟨a, ha, -⟩
    · exact ⟨w, hkept (hf.trans hn), .inl rfl, fun _ h => absurd hn h⟩
    · obtain ⟨w', hw', hc⟩ := progress_performAll (hf.trans ha) hp
      have hdriven : WorkflowOrchestrator.Driven env.newV5 ⟨r, g⟩ w w' :=
        ⟨a, by rw [ha]; exact List.mem_singleton_self _, hc⟩
      exact ⟨w', hw', .inr hdriven, fun _ _ => hdriven⟩
  · rw [if_neg hready] at hf
    exact ⟨w, hkept hf, .inl rfl, fun h => absurd h hready⟩

theorem progress_round_none (hp : s.forest.progress r = none) :
    (s.applyAll (performAll env s (s.nextActions env)).events).forest.progress r = none := by
  rw [← hp]
  apply progress_performAll_other
  intro a ha hr
  have hmem : a ∈ (s.nextActions env).filter (·.run? = some r) :=
    List.mem_filter.mpr ⟨ha, decide_eq_true hr⟩
  rw [nextActions_filter, hp, ite_self] at hmem
  cases hmem

theorem progress_flushRounds (rounds : ℕ) (hp : s.forest.progress r = some (g, w)) :
    ∃ w', (s.applyAll (flushRounds env rounds s).events).forest.progress r = some (g, w') ∧
      WorkflowOrchestrator.Advanced env.newV5 ⟨r, g⟩ w w' := by
  induction rounds generalizing s w with
  | zero => exact ⟨w, hp, .inl rfl⟩
  | succ rounds ih =>
    obtain ⟨w₁, hw₁, hadv, -⟩ := progress_round hp
    unfold flushRounds
    dsimp only
    split_ifs with hempty
    · exact ⟨w₁, hw₁, hadv⟩
    · obtain ⟨w', hw', hadv'⟩ := ih hw₁
      refine ⟨w', ?_, hadv.trans hadv'⟩
      show (s.applyAll (_ ++ _)).forest.progress r = _
      rw [applyAll_append]
      exact hw'

theorem progress_flushThenDrain_none (hp : s.forest.progress r = none) :
    (s.applyAll (s.flushThenDrain env).events).forest.progress r = none := by
  have hrounds : ∀ rounds (s : SessionState), s.forest.progress r = none →
      (s.applyAll (flushRounds env rounds s).events).forest.progress r = none := by
    intro rounds
    induction rounds with
    | zero => exact fun s hp => hp
    | succ rounds ih =>
      intro s hp
      unfold flushRounds
      dsimp only
      split_ifs
      · exact progress_round_none hp
      · show (s.applyAll (_ ++ _)).forest.progress r = _
        rw [applyAll_append]
        exact ih _ (progress_round_none hp)
  exact hrounds 8 s hp

theorem progress_flushThenDrain (hp : s.forest.progress r = some (g, w)) :
    ∃ w', (s.applyAll (s.flushThenDrain env).events).forest.progress r = some (g, w') ∧
      WorkflowOrchestrator.Advanced env.newV5 ⟨r, g⟩ w w' :=
  progress_flushRounds 8 hp

/-- A boundary carries out every decision that is due, once the session has its runtime. -/
theorem driven_flushThenDrain (hp : s.forest.progress r = some (g, w))
    (hready : (s.sessionRuntime env.id).readyOn = true)
    (hdue : WorkflowOrchestrator.stepActions env.newV5 ⟨r, g⟩ w ≠ []) :
    ∃ w', (s.applyAll (s.flushThenDrain env).events).forest.progress r = some (g, w') ∧
      WorkflowOrchestrator.Driven env.newV5 ⟨r, g⟩ w w' := by
  obtain ⟨w₁, hw₁, -, hdriven⟩ := progress_round hp
  have hd := hdriven hready hdue
  unfold flushThenDrain flushRounds
  dsimp only
  split_ifs with hempty
  · exact ⟨w₁, hw₁, hd⟩
  · obtain ⟨w', hw', hadv⟩ := progress_flushRounds 7 hw₁
    refine ⟨w', ?_, ?_⟩
    · show (s.applyAll (_ ++ _)).forest.progress r = _
      rw [applyAll_append]
      exact hw'
    · rcases hadv with rfl | h
      · exact hd
      · exact absurd h (WorkflowOrchestrator.not_driven hd.stepActions)

end

theorem atBoundary_performAll (h : ∀ st, .startStep st ∈ as →
    st.agent = WorkflowRunSpec.stepAgentId env.newV5 st.run st.index) :
    ∀ e ∈ (performAll env s as).events, e.AtBoundary env.newV5 := by
  induction as generalizing s with
  | nil => exact fun e he => absurd he List.not_mem_nil
  | cons a as ih =>
    intro e he
    rcases List.mem_append.mp he with he | he
    · exact atBoundary_perform (fun st hst => h st (hst ▸ List.mem_cons_self)) e he
    · exact ih (fun st hst => h st (List.mem_cons_of_mem _ hst)) e he

theorem nextActions_agent {st : StepStart} (h : .startStep st ∈ s.nextActions env) :
    st.agent = WorkflowRunSpec.stepAgentId env.newV5 st.run st.index := by
  have hmem : .startStep st ∈ (s.nextActions env).filter (·.run? = some st.run) :=
    List.mem_filter.mpr ⟨h, decide_eq_true rfl⟩
  rw [nextActions_filter] at hmem
  split_ifs at hmem
  · cases hp : s.forest.progress st.run with
    | none =>
      rw [hp] at hmem
      cases hmem
    | some p =>
      rw [hp] at hmem
      obtain ⟨hrun, -, hagent⟩ := (WorkflowOrchestrator.decides_of_mem hmem).startStep
      rw [hagent, hrun]
  · cases hmem

theorem atBoundary_flushRounds (rounds : ℕ) :
    ∀ e ∈ (flushRounds env rounds s).events, e.AtBoundary env.newV5 := by
  induction rounds generalizing s with
  | zero => exact fun e he => absurd he List.not_mem_nil
  | succ rounds ih =>
    unfold flushRounds
    dsimp only
    have hround : ∀ e ∈ (performAll env s (s.nextActions env)).events, e.AtBoundary env.newV5 :=
      atBoundary_performAll fun st h => nextActions_agent h
    split_ifs
    · exact hround
    · intro e he
      rcases List.mem_append.mp he with he | he
      · exact hround e he
      · exact ih e he

theorem atBoundary_flushThenDrain :
    ∀ e ∈ (s.flushThenDrain env).events, e.AtBoundary env.newV5 := atBoundary_flushRounds 8

end SessionState

end Horsie.Session
