import Horsie.Session.Recorded

/-!
# What a command does to a run

What handling a command does to the record of one run before its boundary (`Touched`): a report of
one of its executions, a stop, a cancellation from above, the repair of a load or a retry. `running`
is the system of the commands of one session, in any order, each handled on what the ones before it
journaled.
-/

namespace Horsie.Session

open Lib

/-! ## What is recorded about one run -/

namespace SessionDomainEvent

/-- Whether an event keeps the shape of the forest and says of nobody that they asked. -/
def isPlain (e : SessionDomainEvent) : Bool :=
  match e with
  | .askRecorded _ => false
  | e => !e.isStructural

def isCut : SessionDomainEvent → Bool
  | .stepCancelled _ _ | .runFailed _ _ | .subAgentFailed _ _ | .turnStopped _
  | .subSessionTurnEnded _ _ => true
  | _ => false

variable {e : SessionDomainEvent}

theorem isPlain_of_isCut (h : e.isCut = true) : e.isPlain = true := by
  cases e <;> first | rfl | exact absurd h Bool.false_ne_true

theorem startedAgent_of_isCut (h : e.isCut = true) : e.startedAgent = none := by
  cases e <;> first | rfl | exact absurd h Bool.false_ne_true

theorem not_isLifecycle_of_isCut (h : e.isCut = true) : e.isLifecycle = false := by
  cases e <;> first | rfl | exact absurd h Bool.false_ne_true

theorem not_structural_of_isPlain (h : e.isPlain = true) : e.isStructural = false := by
  cases e <;> first | rfl | exact absurd h Bool.false_ne_true

theorem not_asked_of_isPlain (h : e.isPlain = true) (agent : String) : e ≠ .askRecorded agent := by
  rintro rfl
  cases h

theorem isPlain_of_isQuiet (h : e.isQuiet = true) : e.isPlain = true := by
  cases e <;> first | rfl | exact absurd h Bool.false_ne_true

end SessionDomainEvent

namespace WorkflowRunState

/-- What an event makes of the record of the run `r`. -/
def journaled (r : String) (w : WorkflowRunState) (e : SessionDomainEvent) : WorkflowRunState :=
  match e.onRun with
  | some (run, k) => if run = r then k w else w
  | none => w

/-- The execution in flight, if there is one, is recorded as cancelled. -/
def interrupt (w : WorkflowRunState) : WorkflowRunState :=
  match w.current with
  | some index => w.applyCancelled index
  | none => w

def cancel (w : WorkflowRunState) : WorkflowRunState :=
  if w.status.isTerminal then w else w.interrupt.applyFailed stoppedError

theorem attemptsOf_modifyStep (w : WorkflowRunState) (index : ℕ) {f : StepRun → StepRun}
    (hf : ∀ s, (f s).step = s.step) (step : String) :
    (w.modifyStep index f).attemptsOf step = w.attemptsOf step := by
  unfold attemptsOf modifyStep
  generalize w.steps = steps
  induction steps generalizing index with
  | nil => rw [List.modify_nil]
  | cons x xs ih =>
    cases index with
    | zero =>
      rw [List.modify_zero_cons, List.countP_cons, List.countP_cons, hf]
    | succ index =>
      rw [List.modify_succ_cons, List.countP_cons, List.countP_cons, ih]

theorem attemptsOf_applyCancelled (w : WorkflowRunState) (index : ℕ) (step : String) :
    (w.applyCancelled index).attemptsOf step = w.attemptsOf step :=
  attemptsOf_modifyStep w index (f := fun s => { s with status := .cancelled }) (fun _ => rfl) step

end WorkflowRunState

namespace SessionState

variable {s : SessionState} {env : Env} {r : String} {g : WorkflowRunSpec} {w : WorkflowRunState}

variable {e : SessionDomainEvent}

theorem progress_applyEvent_of_isPlain (h : e.isPlain = true) :
    (s.applyEvent e).forest.progress r =
      (s.forest.progress r).map fun p => (p.1, p.2.journaled r e) := by
  rw [progress_applyEvent (SessionDomainEvent.not_structural_of_isPlain h)
    (SessionDomainEvent.not_asked_of_isPlain h)]
  unfold WorkflowRunState.journaled
  cases e.onRun with
  | none => exact (Option.map_id' ..).symm
  | some p =>
    obtain ⟨run, k⟩ := p
    dsimp only
    by_cases hr : r = run
    · rw [if_pos hr]
      simp only [if_pos hr.symm]
    · rw [if_neg hr]
      simp only [if_neg (Ne.symm hr)]
      exact (Option.map_id' ..).symm

variable {events : List SessionDomainEvent}

theorem progress_applyAll
    (h : ∀ e ∈ events, e.isPlain = true) :
    (s.applyAll events).forest.progress r =
      (s.forest.progress r).map fun p => (p.1, events.foldl (.journaled r) p.2) := by
  induction events generalizing s with
  | nil => exact (Option.map_id' ..).symm
  | cons e es ih =>
    show ((s.applyEvent e).applyAll es).forest.progress r = _
    rw [ih fun e' he' => h e' (List.mem_cons_of_mem _ he'),
      progress_applyEvent_of_isPlain (h e List.mem_cons_self), Option.map_map]
    rfl

theorem foldl_journaled (events : List SessionDomainEvent) :
    events.foldl (.journaled r) w = (events.filter (·.run? = some r)).foldl (.journaled r) w := by
  induction events generalizing w with
  | nil => rfl
  | cons e es ih =>
    rw [List.foldl_cons, List.filter_cons]
    split_ifs with h
    · exact ih
    · have hw : w.journaled r e = w := by
        unfold WorkflowRunState.journaled
        cases he : e.onRun with
        | none => rfl
        | some p =>
          refine if_neg fun hr => h ?_
          rw [decide_eq_true_eq, SessionDomainEvent.run?, he, Option.map_some, hr]
      rw [hw]
      exact ih

/-- What is recorded about a run changes its record, as far as it is about that run. -/
theorem progress_applyAll_filter {recorded : List SessionDomainEvent}
    (h : ∀ e ∈ events, e.isPlain = true)
    (hf : events.filter (·.run? = some r) = recorded)
    (hp : s.forest.progress r = some (g, w)) :
    (s.applyAll events).forest.progress r = some (g, recorded.foldl (.journaled r) w) := by
  rw [progress_applyAll h, hp, ← hf]
  show some (g, events.foldl _ w) = _
  rw [foldl_journaled]

theorem progress_applyAll_other (h : e.isPlain = true)
    (hr : e.run? ≠ some r) : (s.applyAll [e]).forest.progress r = s.forest.progress r := by
  show (s.applyEvent e).forest.progress r = _
  rw [progress_applyEvent_of_isPlain h]
  have hw : ∀ w : WorkflowRunState, w.journaled r e = w := by
    intro w
    unfold WorkflowRunState.journaled
    cases he : e.onRun with
    | none => rfl
    | some p =>
      refine if_neg fun hpr => hr ?_
      rw [SessionDomainEvent.run?, he, Option.map_some, hpr]
  simp only [hw]
  exact Option.map_id' ..

theorem progress_applyAll_own {k : WorkflowRunState → WorkflowRunState}
    (h : e.isPlain = true) (he : e.onRun = some (r, k)) (hp : s.forest.progress r = some (g, w)) :
    (s.applyAll [e]).forest.progress r = some (g, k w) := by
  show (s.applyEvent e).forest.progress r = _
  rw [progress_applyEvent_of_isPlain h, hp]
  unfold WorkflowRunState.journaled
  rw [he]
  simp only [if_true, Option.map_some]

theorem progress_applyAll_quiet
    (h : ∀ e ∈ events, e.isQuiet = true) :
    (s.applyAll events).forest.progress r = s.forest.progress r := by
  rw [progress_applyAll fun e he => SessionDomainEvent.isPlain_of_isQuiet (h e he)]
  have hfold : ∀ v : WorkflowRunState, events.foldl (.journaled r) v = v := by
    intro v
    rw [foldl_journaled, List.filter_eq_nil_iff.mpr]
    · rfl
    intro e he hr
    rw [decide_eq_true_eq, SessionDomainEvent.run?,
      SessionDomainEvent.onRun_of_isQuiet (h e he)] at hr
    cases hr
  simp only [hfold]
  exact Option.map_id' ..

/-! ### Cancelling from above -/

variable {agent : String}

theorem cancelDescendants_events : (s.cancelDescendants agent).events =
    (s.forest.descendantEntries agent).flatMap fun id =>
      (cancelDescendants.cancelEntry s id).events := by
  unfold cancelDescendants
  have hall : ∀ (ids : List String) (e : Effect),
      (ids.foldl (fun e id => e.andThen (cancelDescendants.cancelEntry s id)) e).events =
        e.events ++ ids.flatMap fun id => (cancelDescendants.cancelEntry s id).events := by
    intro ids
    induction ids with
    | nil => exact fun e => (List.append_nil _).symm
    | cons id ids ih =>
      intro e
      rw [List.foldl_cons, ih, List.flatMap_cons, ← List.append_assoc]
      rfl
  exact hall _ {}

theorem cancelEntry_about {id : String} :
    ∀ e ∈ (cancelDescendants.cancelEntry s id).events,
      e.isCut = true ∧ (e.run? = some id ∨ e.run? = none) := by
  unfold cancelDescendants.cancelEntry
  intro e he
  split at he
  · split_ifs at he
    · obtain rfl := List.mem_singleton.mp he
      exact ⟨rfl, .inr rfl⟩
    · cases he
  · split_ifs at he
    · cases he
    · rcases List.mem_append.mp he with he | he
      · obtain ⟨index, -, rfl⟩ := List.mem_map.mp he
        exact ⟨rfl, .inl rfl⟩
      · obtain rfl := List.mem_singleton.mp he
        exact ⟨rfl, .inl rfl⟩
  all_goals exact absurd he List.not_mem_nil

theorem cancelDescendants_cut :
    ∀ e ∈ (s.cancelDescendants agent).events, e.isCut = true := by
  rw [cancelDescendants_events]
  intro e he
  obtain ⟨id, -, he⟩ := List.mem_flatMap.mp he
  exact (cancelEntry_about e he).1

theorem cancelDescendants_plain :
    ∀ e ∈ (s.cancelDescendants agent).events, e.isPlain = true :=
  fun e he => SessionDomainEvent.isPlain_of_isCut (cancelDescendants_cut e he)

theorem foldl_cancelEntry (hp : s.forest.progress r = some (g, w)) :
    ((cancelDescendants.cancelEntry s r).events.filter (·.run? = some r)).foldl (.journaled r) w =
      w.cancel := by
  rw [← foldl_journaled]
  obtain ⟨v, hv, rfl, rfl⟩ := RunForest.progress_eq_some.mp hp
  obtain ⟨parent, hentry⟩ := RunForest.entry_of_workflow hv
  unfold cancelDescendants.cancelEntry WorkflowRunState.cancel WorkflowRunState.interrupt
  rw [hentry]
  simp only [Option.map_some]
  split_ifs
  · rfl
  · rw [List.foldl_append]
    cases v.run.current with
    | none =>
      show (if r = r then _ else _) = _
      rw [if_pos rfl]
      rfl
    | some index =>
      show (if r = r then WorkflowRunState.applyFailed (if r = r then _ else _) _ else _) = _
      rw [if_pos rfl, if_pos rfl]

theorem progress_cancelDescendants (agent : String) (hp : s.forest.progress r = some (g, w)) :
    (s.applyAll (s.cancelDescendants agent).events).forest.progress r =
      some (g, if r ∈ s.forest.descendantEntries agent then w.cancel else w) := by
  have hnd : ((s.forest.descendantEntries agent).map id).Nodup := by
    rw [List.map_id]
    exact (Map.nodup_toPairs.sublist (List.filter_sublist.map _))
  have habout : ∀ x ∈ s.forest.descendantEntries agent,
      ∀ e ∈ (cancelDescendants.cancelEntry s x).events, e.run? = some (id x) ∨ e.run? = none :=
    fun x _ e he => (cancelEntry_about e he).2
  by_cases hr : r ∈ s.forest.descendantEntries agent
  · rw [if_pos hr, ← foldl_cancelEntry hp]
    refine progress_applyAll_filter cancelDescendants_plain ?_ hp
    rw [cancelDescendants_events]
    exact filter_flatMap_of_nodup hnd habout hr
  · rw [if_neg hr]
    show _ = some (g, [].foldl (.journaled r) w)
    refine progress_applyAll_filter cancelDescendants_plain ?_ hp
    rw [cancelDescendants_events]
    refine filter_flatMap_of_notMem habout ?_
    rwa [List.map_id]

/-! ### The repair of a load -/

theorem reconciledSteps_plain : ∀ e ∈ s.reconciledSteps, e.isPlain = true := by
  intro e he
  obtain ⟨x, -, rfl⟩ := List.mem_map.mp he
  rfl

def interrupted (id : String) (e : RunEntry) : List SessionDomainEvent :=
  e.state.workflow?.toList.flatMap fun v =>
    v.run.current.toList.map fun index => .stepCancelled id index

/-- Whatever is in flight of a run as its repair is handled is cancelled. -/
theorem progress_reconciledSteps (hp : s.forest.progress r = some (g, w)) :
    (s.applyAll s.reconciledSteps).forest.progress r = some (g, w.interrupt) := by
  have hall : s.reconciledSteps =
      s.forest.entries.toPairs.flatMap fun e => interrupted e.1 e.2 := by
    unfold reconciledSteps RunForest.inFlightSteps RunForest.workflows
    induction s.forest.entries.toPairs with
    | nil => rfl
    | cons e es ih =>
      rw [List.flatMap_cons, ← ih, List.filterMap_cons]
      unfold interrupted
      cases e.2.state.workflow? with
      | none => rfl
      | some v =>
        rw [Option.map_some, List.filterMap_cons, Option.toList_some, List.flatMap_singleton]
        cases hcur : v.run.current with
        | none =>
          simp only [hcur, Option.bind_none]
          rfl
        | some index =>
          obtain ⟨step, hstep, -⟩ := getElem?_current hcur
          simp only [hcur, hstep, Option.bind_some, Option.map_some]
          rfl
  have hkey : ∀ id e, ∀ x ∈ interrupted id e, x.run? = some id ∨ x.run? = none := by
    intro id e x hx
    obtain ⟨v, -, hx⟩ := List.mem_flatMap.mp hx
    obtain ⟨index, -, rfl⟩ := List.mem_map.mp hx
    exact .inl rfl
  obtain ⟨v, hv, rfl, rfl⟩ := RunForest.progress_eq_some.mp hp
  obtain ⟨parent, hentry⟩ := RunForest.entry_of_workflow hv
  rw [progress_applyAll_filter reconciledSteps_plain (by rw [hall, Map.filter_flatMap_toPairs hkey])
    hp, ← foldl_journaled]
  unfold RunForest.entry at hentry
  rw [hentry]
  unfold WorkflowRunState.interrupt
  show some (v.graph, (interrupted r ⟨parent, .workflow v⟩).foldl _ v.run) = _
  have hown : interrupted r ⟨parent, .workflow v⟩ =
      v.run.current.toList.map fun index => .stepCancelled r index := List.flatMap_singleton _ _
  rw [hown]
  cases v.run.current with
  | none => rfl
  | some index =>
    show some (v.graph, if r = r then _ else _) = _
    rw [if_pos rfl]

end SessionState

/-! ## The root -/

namespace SessionState

/-- What holds of the root of the session `id`: its main agent, if it has one, is its own, its
entry runs under nobody, and before the session is told what it is nothing runs. -/
structure Rooted (id : String) (s : SessionState) : Prop where
  main : ∀ k p, s.forest.shape k = some (p, .main) →
    k = id ∧ s.forest.agents.lookup id = some id
  root : ∀ k, s.forest.root = some k →
    s.forest.shape k = some (none, .main) ∨ s.forest.shape k = some (none, .workflow)
  untold : s.spec = none → s.forest = .empty

variable {s : SessionState} {env : Env} {id : String} {c : SessionCommand}
  {events : List SessionDomainEvent}

variable {e : SessionDomainEvent}

theorem spec_applyEvent_isSome (h : s.spec.isSome) :
    (s.applyEvent e).spec.isSome := by
  cases e with
  | specRecorded => rfl
  | provisioningFailed runtime error terminal => cases terminal <;> exact h
  | _ => exact h

theorem spec_applyAll_isSome (h : s.spec.isSome) : (s.applyAll events).spec.isSome := by
  induction events generalizing s with
  | nil => exact h
  | cons e es ih => exact ih (spec_applyEvent_isSome h)

theorem Rooted.applyEvent (h : s.Rooted id) (hspec : s.spec.isSome)
    (he : e.isStructural = false) (ha : e.startedAgent ≠ some id) :
    (s.applyEvent e).Rooted id where
  main k p hk := by
    rw [shape_applyEvent he] at hk
    rw [agents_applyEvent he ha]
    exact h.main k p hk
  root k hk := by
    rw [root_applyEvent he] at hk
    rw [shape_applyEvent he]
    exact h.root k hk
  untold hnone := by
    have hsome := spec_applyEvent_isSome (e := e) hspec
    rw [hnone] at hsome
    cases hsome

theorem Rooted.applyAll (h : s.Rooted id) (hspec : s.spec.isSome)
    (he : ∀ e ∈ events, e.isStructural = false ∧ e.startedAgent ≠ some id) :
    (s.applyAll events).Rooted id := by
  induction events generalizing s with
  | nil => exact h
  | cons e es ih =>
    obtain ⟨hstr, hagent⟩ := he e List.mem_cons_self
    exact ih (h.applyEvent hspec hstr hagent) (spec_applyEvent_isSome hspec)
      fun e' he' => he e' (List.mem_cons_of_mem _ he')

theorem Rooted.inserted (h : s.Rooted id) (hspec : s.spec.isSome) {fresh parent : String}
    {state : RunState} {t : SessionState} (hfresh : s.forest.entry fresh = none)
    (hkind : state.kind ≠ .main) (hts : t.spec = s.spec)
    (htr : t.forest.root = s.forest.root)
    (hte : ∀ k, t.forest.shape k =
      if k = fresh then some (some parent, state.kind) else s.forest.shape k)
    (hta : ∀ a, a ≠ fresh → t.forest.agents.lookup a = s.forest.agents.lookup a) :
    t.Rooted id := by
  have hnone : s.forest.shape fresh = none := by
    unfold RunForest.shape
    rw [hfresh]
    rfl
  refine ⟨?_, ?_, ?_⟩
  · intro k p hk
    rw [hte] at hk
    split_ifs at hk with hkf
    · exact absurd (Prod.mk.inj (Option.some.inj hk)).2 hkind
    · obtain ⟨rfl, hlookup⟩ := h.main k p hk
      exact ⟨rfl, by rw [hta _ hkf]; exact hlookup⟩
  · intro k hk
    rw [htr] at hk
    have hold := h.root k hk
    rw [hte, if_neg]
    · exact hold
    · rintro rfl
      rw [hnone] at hold
      rcases hold with hold | hold <;> exact absurd hold (by simp)
  · intro hn
    rw [hts] at hn
    rw [hn] at hspec
    cases hspec

theorem Rooted.deleted (h : s.Rooted id) (hspec : s.spec.isSome) (gone : String) :
    (s.applyEvent (.agentDeleted gone)).Rooted id where
  main k p hk := by
    have hold : s.forest.shape k = some (p, .main) := by
      change (s.forest.applyAgentDeleted gone).shape k = _ at hk
      rw [← hk]
      unfold RunForest.shape at hk ⊢
      rcases RunForest.entry_applyAgentDeleted (f := s.forest) (r := k) with he | he
      · rw [he]
      · rw [he] at hk
        cases hk
    obtain ⟨rfl, hlookup⟩ := h.main k p hold
    obtain ⟨e, he, hshape⟩ := Option.map_eq_some_iff.mp hold
    exact ⟨rfl, RunForest.agents_applyAgentDeleted_of_main he (Prod.mk.inj hshape).2 hlookup⟩
  root k hk := by
    have hroot : s.forest.root = some k := by
      change (s.forest.applyAgentDeleted gone).root = _ at hk
      unfold RunForest.applyAgentDeleted at hk
      split_ifs at hk <;> exact hk
    show (s.forest.applyAgentDeleted gone).shape k = _ ∨
      (s.forest.applyAgentDeleted gone).shape k = _
    have hold := h.root k hroot
    have hkept : (s.forest.applyAgentDeleted gone).shape k = s.forest.shape k := by
      unfold RunForest.shape at hold ⊢
      cases he : s.forest.entry k with
      | none =>
        rw [he] at hold
        rcases hold with hold | hold <;> exact absurd hold (by simp)
      | some e =>
        rw [he] at hold
        rw [RunForest.entry_applyAgentDeleted_of_root he]
        simp only [Option.map_some, Option.some_inj, Prod.mk.injEq] at hold
        rcases hold with ⟨-, hk⟩ | ⟨hp, hk⟩
        · exact .inl hk
        · exact .inr ⟨hk, hp⟩
    rw [hkept]
    exact hold
  untold hn := by
    change s.spec = none at hn
    rw [hn] at hspec
    cases hspec

theorem Rooted.specified (h : s.Rooted id) (hspec : s.spec = none) (spec : SessionSpec) :
    (s.applyEvent (.specRecorded id spec)).Rooted id := by
  have hempty := h.untold hspec
  have hnone : ∀ k, s.forest.shape k = none := by
    intro k
    rw [hempty]
    rfl
  have huntold : (s.applyEvent (.specRecorded id spec)).spec ≠ none := by
    simp [SessionState.applyEvent]
  obtain ⟨kind, runtime⟩ := spec
  cases kind with
  | agent =>
    have hshape : ∀ k, (s.applyEvent (.specRecorded id ⟨.agent, runtime⟩)).forest.shape k =
        if k = id then some (none, .main) else s.forest.shape k :=
      fun k => RunForest.shape_insertEntry
    refine ⟨?_, ?_, fun hn => absurd hn huntold⟩
    · intro k p hk
      rw [hshape, hnone] at hk
      split_ifs at hk with hki
      exact ⟨hki, AList.lookup_insert _⟩
    · intro k hk
      cases hk
      rw [hshape, if_pos rfl]
      exact .inl rfl
  | workflow run =>
    have hshape : ∀ k, (s.applyEvent (.specRecorded id ⟨.workflow run, runtime⟩)).forest.shape k =
        if k = id then some (none, .workflow) else s.forest.shape k :=
      fun k => RunForest.shape_insertEntry
    refine ⟨?_, ?_, fun hn => absurd hn huntold⟩
    · intro k p hk
      rw [hshape, hnone] at hk
      split_ifs at hk
      cases hk
    · intro k hk
      cases hk
      rw [hshape, if_pos rfl]
      exact .inr rfl

theorem refuseUntilTold_events (told : SessionCommand) : (refuseUntilTold told).events = [] := by
  cases told with
  | turn turn => cases turn <;> rfl
  | lifecycle | run | subAgent | subSession | hooks | core | read | agentOutcome => rfl

theorem untold_events (h : s.spec = none) : (s.handleCommand env c).events = [] ∨
    ∃ spec name, (s.handleCommand env c).events =
      .specRecorded env.id spec :: (Option.map .renamed name).toList := by
  unfold handleCommand
  split
  · rename_i spec name message _
    right
    refine ⟨spec, name, ?_⟩
    unfold handleCore
    rw [h]
    rfl
  · exact .inl (refuseUntilTold_events _)
  · rename_i hs
    rw [h] at hs
    cases hs

/-- What is journaled beside the entries that come and go. -/
def Steady (newV5 : String → String → String) (e : SessionDomainEvent) : Prop :=
  e.isStructural = false ∧
    ∀ agent, e.startedAgent = some agent →
      ∃ run index, e.run? = some run ∧ agent = WorkflowRunSpec.stepAgentId newV5 run index

variable {newV5 : String → String → String}

theorem steady_of_isPlain
    (h : e.isPlain = true) (hs : e.startedAgent = none) : Steady newV5 e := by
  refine ⟨SessionDomainEvent.not_structural_of_isPlain h, ?_⟩
  intro agent ha
  rw [hs] at ha
  cases ha

theorem steady_of_isQuiet
    (h : e.isQuiet = true) : Steady newV5 e := by
  refine steady_of_isPlain (SessionDomainEvent.isPlain_of_isQuiet h) ?_
  cases e with
  | stepStarted => cases h
  | _ => rfl

theorem steady_of_atBoundary
    (h : e.AtBoundary newV5) : Steady newV5 e :=
  ⟨h.not_structural, fun _ ha => h.startedAgent ha⟩

theorem steady_of_isCut
    (h : e.isCut = true) : Steady newV5 e :=
  steady_of_isPlain (SessionDomainEvent.isPlain_of_isCut h)
    (SessionDomainEvent.startedAgent_of_isCut h)

variable {agent run : String} {index : ℕ}

theorem steady_stepReport
    {turn : TurnEnd} : ∀ e ∈ stepReport run index agent turn, Steady newV5 e := by
  intro e he
  cases turn with
  | concluded | asked | failed =>
    obtain rfl := List.mem_singleton.mp he
    exact ⟨rfl, fun _ ha => absurd ha (by simp [SessionDomainEvent.startedAgent])⟩
  | parked | interrupted => cases he

theorem Restarted.steady {target : StepRun}
    (h : s.Restarted env run target events) :
    ∀ e ∈ events, Steady env.newV5 e := by
  intro e he
  cases h with
  | started =>
    obtain rfl := List.mem_singleton.mp he
    exact ⟨rfl, fun _ ha => ⟨run, s.executionsOf run, rfl, (Option.some.inj ha).symm⟩⟩
  | failed =>
    obtain rfl := List.mem_singleton.mp he
    exact steady_of_isPlain rfl rfl

theorem stopBoundary_cut {key : AgentKey} {stopped : SessionDomainEvent}
    (h : s.stopBoundary key = some stopped) : stopped.isCut = true := by
  unfold stopBoundary at h
  cases key with
  | main =>
    obtain ⟨root, -, h⟩ := Option.bind_eq_some_iff.mp h
    split_ifs at h
    cases h
    rfl
  | step agent =>
    obtain ⟨⟨run, index⟩, -, h⟩ := Option.bind_eq_some_iff.mp h
    obtain ⟨w, -, h⟩ := Option.bind_eq_some_iff.mp h
    split_ifs at h
    cases h
    rfl
  | sub agent | subSession agent =>
    obtain ⟨r, -, h⟩ := Option.bind_eq_some_iff.mp h
    split_ifs at h
    cases h
    rfl

theorem stopBelow_cut {key : AgentKey} {stopped : SessionDomainEvent}
    (hs : s.stopBoundary key = some stopped) :
    ∀ e ∈ s.stopBelow key ++ [stopped], e.isCut = true := by
  intro e he
  rcases List.mem_append.mp he with he | he
  · unfold stopBelow at he
    cases hcut : stopCuts key with
    | none =>
      rw [hcut] at he
      cases he
    | some agent =>
      rw [hcut] at he
      exact cancelDescendants_cut e he
  · obtain rfl := List.mem_singleton.mp he
    exact stopBoundary_cut hs

theorem superseded_cut :
    ∀ e ∈ (s.cancelDescendants agent).events ++ [.stepCancelled run index], e.isCut = true := by
  intro e he
  rcases List.mem_append.mp he with he | he
  · exact cancelDescendants_cut e he
  · exact List.mem_singleton.mp he ▸ rfl

/-- What is recorded for a command inserts or removes entries, or nothing of it does. -/
theorem Recorded.steady (h : s.Recorded env c events) :
    (∀ e ∈ events, Steady env.newV5 e) ∨
      (∃ spec name, s.spec = none ∧
        events = .specRecorded env.id spec :: (Option.map .renamed name).toList) ∨
      (∃ e, events = [e] ∧
        ((∃ parent graph, (s.forest.depthOfAgent parent).isSome ∧
          e = .runCreated env.fresh parent graph) ∨
        (∃ parent title task agentType, (s.forest.depthOfAgent parent).isSome ∧
          e = .subAgentSpawned env.fresh parent title task agentType) ∨
        (∃ parent sourceSeq seed message title choice,
          s.branchable env.id parent message = none ∧
          c = .subSession (.create parent seed message title choice) ∧
          e = .subSessionCreated env.fresh parent sourceSeq seed message title
            (requestedChoice choice)) ∨
        ∃ gone, ((s.forest.sub gone).isSome ∨ (s.forest.subSession gone).isSome) ∧
          c = .core (.deleteAgent gone) ∧ e = .agentDeleted gone)) := by
  cases h with
  | calm h =>
    exact .inl fun e he => steady_of_isQuiet (SessionDomainEvent.isQuiet_of_isCalm (h e he))
  | provisioned =>
    exact .inl fun e he => steady_of_isQuiet (SessionDomainEvent.isQuiet_of_started he)
  | finished =>
    left
    intro e he
    obtain rfl := List.mem_singleton.mp he
    exact steady_of_isQuiet (SessionDomainEvent.isQuiet_finishing _ _ _)
  | specified spec name h => exact .inr (.inl ⟨spec, name, h, rfl⟩)
  | created parent graph h => exact .inr (.inr ⟨_, rfl, .inl ⟨parent, graph, h, rfl⟩⟩)
  | spawned parent title task agentType h =>
    exact .inr (.inr ⟨_, rfl, .inr (.inl ⟨parent, title, task, agentType, h, rfl⟩)⟩)
  | branched parent sourceSeq seed message title runtime h hc =>
    exact .inr (.inr ⟨_, rfl, .inr (.inr (.inl
      ⟨parent, sourceSeq, seed, message, title, runtime, h, hc, rfl⟩))⟩)
  | deleted gone h hc => exact .inr (.inr ⟨_, rfl, .inr (.inr (.inr ⟨gone, h, hc, rfl⟩))⟩)
  | asked =>
    left
    intro e he
    obtain rfl := List.mem_singleton.mp he
    exact ⟨rfl, fun _ ha => absurd ha (by simp [SessionDomainEvent.startedAgent])⟩
  | reported => exact .inl steady_stepReport
  | stopped hc hk hs => exact .inl fun e he => steady_of_isCut (stopBelow_cut hs e he)
  | reconciled =>
    left
    intro e he
    obtain ⟨x, -, rfl⟩ := List.mem_map.mp he
    exact steady_of_isPlain rfl rfl
  | retried hc hroot hw ht hcur h => exact .inl h.steady
  | superseded hc hroot hw ht hcur hstep h =>
    left
    intro e he
    rcases List.mem_append.mp he with he | he
    · exact steady_of_isCut (superseded_cut e he)
    · exact h.steady e he

theorem Recorded.about (h : s.Recorded env c events) :
    (∀ e ∈ events, e.isLifecycle = false) ∨
      (∃ owner vendor runtime built requested, c = .lifecycle (.provision owner vendor) ∧
        s.provisions env.id owner vendor env.fresh = some (runtime, built, requested) ∧
        events = started runtime owner built requested env.now) ∨
      (∃ runtime error terminal,
        c = .lifecycle (.finishProvisioning runtime error terminal) ∧
          events = [SessionDomainEvent.finishing runtime error terminal]) ∨
      ∃ spec name, s.spec = none ∧
        events = .specRecorded env.id spec :: (Option.map .renamed name).toList := by
  have hcut {es : List SessionDomainEvent} (h : ∀ e ∈ es, e.isCut = true) :
      ∀ e ∈ es, e.isLifecycle = false :=
    fun e he => SessionDomainEvent.not_isLifecycle_of_isCut (h e he)
  have hrestarted {s : SessionState} {run : String} {target : StepRun}
      {started : List SessionDomainEvent} (h : s.Restarted env run target started) :
      ∀ e ∈ started, e.isLifecycle = false := by
    intro e he
    cases h <;> exact List.mem_singleton.mp he ▸ rfl
  cases h with
  | calm h => exact .inl fun e he => SessionDomainEvent.not_isLifecycle_of_isCalm (h e he)
  | provisioned hc hp => exact .inr (.inl ⟨_, _, _, _, _, hc, hp, rfl⟩)
  | finished hc => exact .inr (.inr (.inl ⟨_, _, _, hc, rfl⟩))
  | specified spec name h => exact .inr (.inr (.inr ⟨spec, name, h, rfl⟩))
  | created | spawned | branched | deleted | asked =>
    exact .inl fun e he => List.mem_singleton.mp he ▸ rfl
  | reported =>
    rename_i turn _ _ _
    left
    intro e he
    cases turn with
    | concluded | asked | failed => exact List.mem_singleton.mp he ▸ rfl
    | parked | interrupted => cases he
  | stopped hc hk hs => exact .inl (hcut (stopBelow_cut hs))
  | reconciled =>
    left
    intro e he
    obtain ⟨x, -, rfl⟩ := List.mem_map.mp he
    rfl
  | retried hc hroot hw ht hcur h => exact .inl (hrestarted h)
  | superseded hc hroot hw ht hcur hstep h =>
    left
    intro e he
    rcases List.mem_append.mp he with he | he
    · exact hcut superseded_cut e he
    · exact hrestarted h e he

theorem Rooted.recorded (h : s.Rooted env.id) (hfresh : s.forest.entry env.fresh = none)
    (hderived : ∀ run index, WorkflowRunSpec.stepAgentId env.newV5 run index ≠ env.id)
    (hspec : s.spec.isSome) (hr : s.Recorded env c events) : (s.applyAll events).Rooted env.id := by
  rcases hr.steady with hs | ⟨spec, name, hn, -⟩ | ⟨e, rfl, he⟩
  · refine h.applyAll hspec fun e he => ⟨(hs e he).1, ?_⟩
    intro ha
    obtain ⟨run, index, -, hri⟩ := (hs e he).2 _ ha
    exact hderived run index hri.symm
  · rw [hn] at hspec
    cases hspec
  · rcases he with ⟨parent, graph, -, rfl⟩ | ⟨parent, title, task, agentType, -, rfl⟩ |
      ⟨parent, sourceSeq, seed, message, title, runtime, -, -, rfl⟩ | ⟨gone, -, -, rfl⟩
    · exact h.inserted hspec hfresh RunKind.noConfusion rfl rfl
        (fun k => RunForest.shape_insertEntry) fun a _ => rfl
    · exact h.inserted hspec hfresh RunKind.noConfusion rfl rfl
        (fun k => RunForest.shape_insertEntry) fun a ha => AList.lookup_insert_ne ha
    · exact h.inserted hspec hfresh RunKind.noConfusion rfl rfl
        (fun k => RunForest.shape_insertEntry) fun a ha => AList.lookup_insert_ne ha
    · exact h.deleted hspec gone

theorem Rooted.handleCommand (h : s.Rooted env.id) (hfresh : s.forest.entry env.fresh = none)
    (hderived : ∀ run index, WorkflowRunSpec.stepAgentId env.newV5 run index ≠ env.id) :
    (s.applyAll (s.handleCommand env c).events).Rooted env.id := by
  cases hspec : s.spec with
  | none =>
    rcases untold_events (c := c) hspec with he | ⟨spec, name, he⟩
    · rw [he]
      exact h
    · rw [he]
      refine (h.specified hspec spec).applyAll rfl ?_
      intro e he
      obtain ⟨title, -, rfl⟩ := Option.map_eq_some_iff.mp (Option.mem_toList.mp he)
      exact ⟨rfl, by simp [SessionDomainEvent.startedAgent]⟩
  | some spec =>
    have hsome : s.spec.isSome := by rw [hspec]; rfl
    obtain ⟨recorded, hr, he⟩ := handleCommand_journals (s := s) (c := c)
    have hrec := h.recorded hfresh hderived hsome hr
    rcases he with he | he
    · rw [he]
      exact hrec
    · rw [he, applyAll_append]
      refine hrec.applyAll (spec_applyAll_isSome hsome) fun e he => ?_
      have hb := atBoundary_flushThenDrain e he
      refine ⟨hb.not_structural, fun ha => ?_⟩
      obtain ⟨run, index, -, hri⟩ := hb.startedAgent ha
      exact hderived run index hri.symm

/-! ## What a command does to one run -/

variable {r : String} {g : WorkflowRunSpec} {w : WorkflowRunState}

/-- What handling `c` makes of the record `w` of the run `r` before its boundary. -/
inductive Touched (s : SessionState) (env : Env) (c : SessionCommand) (r : String)
    (w : WorkflowRunState) : WorkflowRunState → Prop
  | kept : Touched s env c r w w
  | reported {agent : String} {turn : TurnEnd} {index : ℕ}
      (hr : s.reportOf env c = some (agent, turn))
      (hx : s.forest.executionOfAgent agent = some (r, index)) :
      Touched s env c r w (w.reportAt index turn)
  | cancelled {agent : String} (hc : s.Cancels c agent) (h : r ∈ s.forest.descendantEntries agent) :
      Touched s env c r w w.cancel
  | stopped {name : String} {key : AgentKey} {index : ℕ} {w' : WorkflowRunState}
      (hc : c = .turn (.stop name)) (hk : s.stopTarget name = some key)
      (hs : s.stopBoundary key = some (.stepCancelled r index))
      (hw : w' = w ∨ ∃ agent, stopCuts key = some agent ∧
        r ∈ s.forest.descendantEntries agent ∧ w' = w.cancel) :
      Touched s env c r w (w'.applyCancelled index)
  | reconciled (hc : c = .run .reconcileInterrupted) : Touched s env c r w w.interrupt
  | restarted {index : ℕ} {target : StepRun} (hc : c = .run (.retryStep index))
      (hroot : s.forest.root = some r) (ht : w.steps[index]? = some target) :
      Touched s env c r w (w.interrupt.applyStarted target.step
        (WorkflowRunSpec.stepAgentId env.newV5 r w.steps.length) (w.attemptsOf target.step + 1)
        target.origin target.via target.input)
  | unstarted {index : ℕ} {target : StepRun} (hc : c = .run (.retryStep index))
      (hroot : s.forest.root = some r) (ht : w.steps[index]? = some target) (error : String) :
      Touched s env c r w (w.interrupt.applyFailed error)

theorem progress_insertEntry {f : RunForest} {fresh : String} {parent : Option String}
    {state : RunState} (h : r ≠ fresh) :
    (f.insertEntry fresh parent state).progress r = f.progress r := by
  unfold RunForest.progress
  rw [RunForest.workflow_insertEntry, if_neg h]

theorem progress_applyAgentDeleted {f : RunForest} {gone : String} :
    (f.applyAgentDeleted gone).progress r = f.progress r ∨
      (f.applyAgentDeleted gone).progress r = none := by
  unfold RunForest.progress RunForest.workflow
  rcases RunForest.entry_applyAgentDeleted (f := f) (r := r) with h | h
  · rw [h]
    exact .inl rfl
  · rw [h]
    exact .inr rfl

theorem entry_of_progress (hp : s.forest.progress r = some (g, w)) :
    ∃ parent v, s.forest.entry r = some ⟨parent, .workflow v⟩ ∧ v.graph = g ∧ v.run = w := by
  obtain ⟨v, hv, hg, hw⟩ := RunForest.progress_eq_some.mp hp
  obtain ⟨parent, he⟩ := RunForest.entry_of_workflow hv
  exact ⟨parent, v, he, hg, hw⟩

theorem Rooted.not_descendant (h : s.Rooted id) (hroot : s.forest.root = some r)
    (hp : s.forest.progress r = some (g, w)) (agent : String) :
    r ∉ s.forest.descendantEntries agent := by
  obtain ⟨parent, v, he, -, -⟩ := entry_of_progress hp
  have hparent : parent = none := by
    have hshape := h.root r hroot
    unfold RunForest.shape at hshape
    rw [he] at hshape
    simp only [Option.map_some, Option.some_inj, Prod.mk.injEq] at hshape
    rcases hshape with ⟨hn, -⟩ | ⟨hn, -⟩ <;> exact hn
  intro hmem
  obtain ⟨⟨k, e⟩, hkept, rfl⟩ := List.mem_map.mp hmem
  obtain ⟨hpair, hcond⟩ := List.mem_filter.mp hkept
  cases (Map.mem_toPairs.mp hpair).symm.trans he
  subst hparent
  simp at hcond

theorem progress_rootWorkflow {v : WorkflowRun} (hroot : s.forest.root = some run)
    (hv : s.forest.rootWorkflow = some v) : s.forest.progress run = some (v.graph, v.run) := by
  unfold RunForest.rootWorkflow RunForest.rootEntry at hv
  rw [hroot] at hv
  unfold RunForest.progress RunForest.workflow
  change ((s.forest.entry run).bind (·.state.workflow?)) = some v at hv
  rw [hv]
  rfl

theorem executionsOf_eq (hp : s.forest.progress r = some (g, w)) :
    s.executionsOf r = w.steps.length := by
  obtain ⟨v, hv, -, rfl⟩ := RunForest.progress_eq_some.mp hp
  unfold executionsOf
  rw [hv]
  rfl

theorem attemptsIn_eq {step : String} (hp : s.forest.progress r = some (g, w)) :
    s.attemptsIn r step = w.attemptsOf step := by
  obtain ⟨v, hv, -, rfl⟩ := RunForest.progress_eq_some.mp hp
  unfold attemptsIn
  rw [hv]
  rfl

theorem Restarted.progress {target : StepRun}
    (h : s.Restarted env run target events) (hp : s.forest.progress r = some (g, w)) :
    (r ≠ run ∧ (s.applyAll events).forest.progress r = some (g, w)) ∨
      r = run ∧ ((s.applyAll events).forest.progress r =
          some (g, w.applyStarted target.step
            (WorkflowRunSpec.stepAgentId env.newV5 r w.steps.length)
            (w.attemptsOf target.step + 1) target.origin target.via target.input) ∨
        ∃ error, (s.applyAll events).forest.progress r = some (g, w.applyFailed error)) := by
  by_cases hr : r = run
  · right
    subst hr
    refine ⟨rfl, ?_⟩
    cases h with
    | started =>
      rw [← executionsOf_eq hp, ← attemptsIn_eq hp]
      exact .inl (progress_applyAll_own rfl
        (k := (·.applyStarted target.step _ _ target.origin target.via target.input)) rfl hp)
    | failed error =>
      exact .inr ⟨error, progress_applyAll_own rfl (k := (·.applyFailed error)) rfl hp⟩
  · have hother : some run ≠ some r := fun h => hr (Option.some.inj h).symm
    refine .inl ⟨hr, ?_⟩
    cases h with
    | started | failed =>
      refine (progress_applyAll_other rfl ?_).trans hp
      exact hother

theorem progress_stepReport {turn : TurnEnd}
    (hx : s.forest.executionOfAgent agent = some (run, index))
    (hp : s.forest.progress r = some (g, w)) :
    (s.applyAll (stepReport run index agent turn)).forest.progress r =
      some (g, if r = run then w.reportAt index turn else w) := by
  have hlookup : s.forest.agents.lookup agent = some run := by
    obtain ⟨⟨k, e⟩, howner, hx⟩ := Option.bind_eq_some_iff.mp hx
    obtain ⟨v, -, hx⟩ := Option.bind_eq_some_iff.mp hx
    obtain ⟨i, -, hi⟩ := Option.map_eq_some_iff.mp hx
    obtain ⟨k', hk', howner⟩ := Option.bind_eq_some_iff.mp howner
    obtain ⟨e', -, he'⟩ := Option.map_eq_some_iff.mp howner
    rw [hk', (Prod.mk.inj he').1, (Prod.mk.inj hi).1]
  by_cases hr : r = run
  · subst hr
    rw [if_pos rfl]
    cases turn with
    | concluded output =>
      exact progress_applyAll_own rfl (k := (·.applyConcluded index output)) rfl hp
    | asked =>
      show (s.applyEvent (.askRecorded agent)).forest.progress r = _
      rw [progress_askRecorded, if_pos hlookup, hp]
      rfl
    | failed error terminal =>
      exact progress_applyAll_own rfl
        (k := fun w => (w.applyStepFailed index error).applyFailed error) rfl hp
    | parked | interrupted => exact hp
  · have hother : some run ≠ some r := fun h => hr (Option.some.inj h).symm
    rw [if_neg hr]
    cases turn with
    | concluded | failed =>
      refine (progress_applyAll_other rfl ?_).trans hp
      exact hother
    | asked =>
      show (s.applyEvent (.askRecorded agent)).forest.progress r = _
      rw [progress_askRecorded, if_neg]
      · exact hp
      · rw [hlookup]
        exact hother
    | parked | interrupted => exact hp

theorem progress_stopBelow (key : AgentKey) (hp : s.forest.progress r = some (g, w)) :
    ∃ w', (s.applyAll (s.stopBelow key)).forest.progress r = some (g, w') ∧
      (w' = w ∨ ∃ agent, stopCuts key = some agent ∧ r ∈ s.forest.descendantEntries agent ∧
        w' = w.cancel) := by
  unfold stopBelow
  cases hcut : stopCuts key with
  | none => exact ⟨w, hp, .inl rfl⟩
  | some agent =>
    refine ⟨_, progress_cancelDescendants _ hp, ?_⟩
    split_ifs with hmem
    · exact .inr ⟨agent, rfl, hmem, rfl⟩
    · exact .inl rfl

theorem Recorded.touched (h : s.Rooted env.id) (hfresh : s.forest.entry env.fresh = none)
    (hr : s.Recorded env c events) (hp : s.forest.progress r = some (g, w)) :
    (s.applyAll events).forest.progress r = none ∨
      ∃ w', (s.applyAll events).forest.progress r = some (g, w') ∧ Touched s env c r w w' := by
  have hne : r ≠ env.fresh := by
    rintro rfl
    obtain ⟨parent, v, he, -, -⟩ := entry_of_progress hp
    rw [hfresh] at he
    cases he
  cases hr with
  | calm hq =>
    refine .inr ⟨w, (progress_applyAll_quiet fun e he => ?_).trans hp, .kept⟩
    exact SessionDomainEvent.isQuiet_of_isCalm (hq e he)
  | provisioned =>
    refine .inr ⟨w, (progress_applyAll_quiet fun e he => ?_).trans hp, .kept⟩
    exact SessionDomainEvent.isQuiet_of_started he
  | finished =>
    refine .inr ⟨w, (progress_applyAll_quiet fun e he => ?_).trans hp, .kept⟩
    exact List.mem_singleton.mp he ▸ SessionDomainEvent.isQuiet_finishing _ _ _
  | specified spec name hs =>
    rw [h.untold hs] at hp
    exact absurd hp (by simp [RunForest.progress, RunForest.workflow, RunForest.entry,
      RunForest.empty])
  | created | spawned | branched =>
    exact .inr ⟨w, (progress_insertEntry hne).trans hp, .kept⟩
  | deleted gone =>
    rcases progress_applyAgentDeleted (r := r) (f := s.forest) with hd | hd
    · exact .inr ⟨w, hd.trans hp, .kept⟩
    · exact .inl hd
  | asked hkey =>
    right
    refine ⟨w, ?_, .kept⟩
    show (s.applyEvent (.askRecorded env.id)).forest.progress r = _
    rw [progress_askRecorded, if_neg]
    · exact hp
    intro hlookup
    obtain ⟨⟨k, e⟩, howner, hstate⟩ := Option.map_eq_some_iff.mp hkey
    have hmain : ∃ m, e.state = .main m := by
      dsimp only at hstate
      cases hs : e.state with
      | main m => exact ⟨m, rfl⟩
      | sub | workflow | subSession =>
        rw [hs] at hstate
        cases hstate
    obtain ⟨m, hm⟩ := hmain
    obtain ⟨k', -, hk'⟩ := Option.bind_eq_some_iff.mp howner
    obtain ⟨e', he', hke⟩ := Option.map_eq_some_iff.mp hk'
    obtain ⟨rfl, rfl⟩ := Prod.mk.inj hke
    have hshape : s.forest.shape k' = some (e'.parent, .main) := by
      unfold RunForest.shape
      rw [he', Option.map_some, hm]
      rfl
    obtain ⟨hk, hself⟩ := h.main _ _ hshape
    rw [hself] at hlookup
    cases hlookup
    obtain ⟨parent, v, hv, -, -⟩ := entry_of_progress hp
    rw [← hk, he'] at hv
    cases hv
    exact RunState.noConfusion hm
  | reported hrep hx =>
    right
    refine ⟨_, progress_stepReport hx hp, ?_⟩
    split_ifs with hrun
    · subst hrun
      exact .reported hrep hx
    · exact .kept
  | stopped hc hk hs =>
    rename_i key stopped
    right
    obtain ⟨w', hw', hcut⟩ := progress_stopBelow key hp
    rw [applyAll_append]
    by_cases hrun : stopped.run? = some r
    · obtain ⟨index, rfl⟩ : ∃ index, stopped = .stepCancelled r index := by
        unfold stopBoundary at hs
        cases key with
        | main =>
          obtain ⟨root, -, hs⟩ := Option.bind_eq_some_iff.mp hs
          split_ifs at hs
          cases hs
          exact absurd hrun (by simp [SessionDomainEvent.run?, SessionDomainEvent.onRun])
        | step agent =>
          obtain ⟨⟨run, index⟩, -, hs⟩ := Option.bind_eq_some_iff.mp hs
          obtain ⟨v, -, hs⟩ := Option.bind_eq_some_iff.mp hs
          split_ifs at hs
          cases hs
          cases hrun
          exact ⟨index, rfl⟩
        | sub agent | subSession agent =>
          obtain ⟨v, -, hs⟩ := Option.bind_eq_some_iff.mp hs
          split_ifs at hs
          cases hs
          exact absurd hrun (by simp [SessionDomainEvent.run?, SessionDomainEvent.onRun])
      refine ⟨_, progress_applyAll_own rfl (k := (·.applyCancelled index)) rfl hw', ?_⟩
      exact .stopped hc hk hs hcut
    · have hplain := SessionDomainEvent.isPlain_of_isCut (stopBoundary_cut hs)
      refine ⟨w', (progress_applyAll_other hplain hrun).trans hw', ?_⟩
      rcases hcut with rfl | ⟨agent, hcut, hmem, rfl⟩
      · exact .kept
      · refine .cancelled ?_ hmem
        rw [hc]
        exact .stop hk hs hcut
  | reconciled hc => exact .inr ⟨w.interrupt, progress_reconciledSteps hp, .reconciled hc⟩
  | retried hc hroot hw hat hcur hst =>
    rename_i run v target
    right
    rcases hst.progress hp with ⟨-, hsame⟩ | ⟨rfl, hown⟩
    · exact ⟨w, hsame, .kept⟩
    have hpv := progress_rootWorkflow hroot hw
    rw [hp] at hpv
    cases hpv
    have hint : v.run.interrupt = v.run := by
      unfold WorkflowRunState.interrupt
      rw [hcur]
    rcases hown with hown | ⟨error, hown⟩
    · refine ⟨_, hown, ?_⟩
      have ht : Touched s env c r v.run _ := .restarted hc hroot hat
      rwa [hint] at ht
    · refine ⟨_, hown, ?_⟩
      have ht : Touched s env c r v.run _ := .unstarted hc hroot hat error
      rwa [hint] at ht
  | superseded hc hroot hw hat hcur hstep hst =>
    rename_i index current run v target step started
    right
    have hbelow := progress_cancelDescendants step.agent hp
    rw [applyAll_append]
    by_cases hrun : r = run
    · subst hrun
      have hpv := progress_rootWorkflow hroot hw
      rw [hp] at hpv
      cases hpv
      rw [if_neg (h.not_descendant hroot hp _)] at hbelow
      have hint : v.run.interrupt = v.run.applyCancelled current := by
        unfold WorkflowRunState.interrupt
        rw [hcur]
      have hcancelled := progress_applyAll_own (e := .stepCancelled r current) rfl
        (k := (·.applyCancelled current)) rfl hbelow
      rw [← applyAll_append] at hcancelled
      rcases hst.progress hcancelled with ⟨hne, -⟩ |
        ⟨-, hown | ⟨error, hown⟩⟩
      · exact absurd rfl hne
      · refine ⟨_, hown, ?_⟩
        have hlength : (v.run.applyCancelled current).steps.length = v.run.steps.length :=
          List.length_modify _ _ _
        rw [hlength, WorkflowRunState.attemptsOf_applyCancelled, ← hint]
        exact .restarted hc hroot hat
      · refine ⟨_, hown, ?_⟩
        rw [← hint]
        exact .unstarted hc hroot hat error
    · have hother : some run ≠ some r := fun h => hrun (Option.some.inj h).symm
      have hkept := (progress_applyAll_other (e := .stepCancelled run current) rfl hother).trans
        hbelow
      rw [← applyAll_append] at hkept
      rcases hst.progress hkept with ⟨-, hsame⟩ | ⟨heq, -⟩
      · refine ⟨_, hsame, ?_⟩
        split_ifs with hmem
        · refine .cancelled ?_ hmem
          rw [hc]
          exact .retry hw hcur hstep
        · exact .kept
      · exact absurd heq hrun

theorem Recorded.new (hr : s.Recorded env c events)
    (hp : s.forest.progress r = none) :
    (s.applyAll events).forest.progress r = none ∨
      ∃ g, (s.applyAll events).forest.progress r = some (g, .default) := by
  have hplain : (∀ e ∈ events, e.isPlain = true) →
      (s.applyAll events).forest.progress r = none := by
    intro he
    rw [progress_applyAll he, hp]
    rfl
  have hasked : ∀ agent, (s.applyAll [.askRecorded agent]).forest.progress r = none := by
    intro agent
    show (s.applyEvent (.askRecorded agent)).forest.progress r = none
    rw [progress_askRecorded, hp]
    exact ite_self _
  have hinserted : ∀ (fresh : String) (parent : Option String) (state : RunState),
      state.workflow? = none → (s.forest.insertEntry fresh parent state).progress r = none := by
    intro fresh parent state hstate
    rw [RunForest.progress_eq_none, RunForest.workflow_insertEntry, hstate,
      RunForest.progress_eq_none.mp hp]
    exact ite_self _
  have hcreated : ∀ (fresh : String) (parent : Option String) (w : WorkflowRun),
      w.run = .default → (s.forest.insertEntry fresh parent (.workflow w)).progress r = none ∨
        ∃ g, (s.forest.insertEntry fresh parent (.workflow w)).progress r = some (g, .default) := by
    intro fresh parent w hw
    by_cases hf : r = fresh
    · refine .inr ⟨w.graph, ?_⟩
      unfold RunForest.progress
      rw [RunForest.workflow_insertEntry, if_pos hf, ← hw]
      rfl
    · exact .inl ((progress_insertEntry hf).trans hp)
  cases hr with
  | calm hq =>
    refine .inl (hplain fun e he => ?_)
    exact SessionDomainEvent.isPlain_of_isQuiet (SessionDomainEvent.isQuiet_of_isCalm (hq e he))
  | provisioned =>
    refine .inl (hplain fun e he => ?_)
    exact SessionDomainEvent.isPlain_of_isQuiet (SessionDomainEvent.isQuiet_of_started he)
  | finished =>
    refine .inl (hplain fun e he => ?_)
    obtain rfl := List.mem_singleton.mp he
    exact SessionDomainEvent.isPlain_of_isQuiet (SessionDomainEvent.isQuiet_finishing _ _ _)
  | specified spec name hs =>
    have hname : ∀ e ∈ (name.map SessionDomainEvent.renamed).toList, e.isPlain = true := by
      intro e he
      obtain ⟨title, -, rfl⟩ := Option.map_eq_some_iff.mp (Option.mem_toList.mp he)
      rfl
    show ((s.applyEvent _).applyAll _).forest.progress r = none ∨
      ∃ g, ((s.applyEvent _).applyAll _).forest.progress r = some (g, .default)
    obtain ⟨kind, runtime⟩ := spec
    cases kind with
    | agent =>
      left
      rw [progress_applyAll hname]
      show (((s.forest.insertEntry _ _ _).progress r).map _) = none
      rw [hinserted _ _ _ rfl]
      rfl
    | workflow run =>
      have hroot := hcreated env.id none
        ⟨run.workflow, run, .default, false, rootChoice ⟨.workflow run, runtime⟩⟩ rfl
      have hfold : ∀ w : WorkflowRunState,
          (name.map SessionDomainEvent.renamed).toList.foldl (.journaled r) w = w := by
        intro w
        cases name <;> rfl
      rw [progress_applyAll hname]
      simp only [hfold]
      rcases hroot with hroot | ⟨g, hroot⟩
      · left
        show (((s.forest.insertEntry _ _ _).progress r).map _) = none
        rw [hroot]
        rfl
      · right
        refine ⟨g, ?_⟩
        show (((s.forest.insertEntry _ _ _).progress r).map _) = _
        rw [hroot]
        rfl
  | created parent graph =>
    exact hcreated env.fresh (some parent) ⟨graph.workflow, graph, .default, false, .inherit⟩ rfl
  | spawned parent title task agentType => exact .inl (hinserted _ _ _ rfl)
  | branched parent sourceSeq seed message title runtime => exact .inl (hinserted _ _ _ rfl)
  | deleted gone =>
    left
    rcases progress_applyAgentDeleted (r := r) (f := s.forest) with hd | hd
    · exact hd.trans hp
    · exact hd
  | asked => exact .inl (hasked env.id)
  | reported hrep hx =>
    rename_i agent run turn index
    left
    cases turn with
    | concluded | failed =>
      apply hplain
      intro e he
      obtain rfl := List.mem_singleton.mp he
      rfl
    | asked => exact hasked agent
    | parked | interrupted => exact hp
  | stopped hc hk hs =>
    refine .inl (hplain fun e he => ?_)
    exact SessionDomainEvent.isPlain_of_isCut (stopBelow_cut hs e he)
  | reconciled => exact .inl (hplain reconciledSteps_plain)
  | retried hc hroot hw ht hcur hst =>
    apply Or.inl (hplain _)
    intro e he
    cases hst <;> obtain rfl := List.mem_singleton.mp he <;> rfl
  | superseded hc hroot hw ht hcur hstep hst =>
    apply Or.inl (hplain _)
    intro e he
    rcases List.mem_append.mp he with he | he
    · exact SessionDomainEvent.isPlain_of_isCut (superseded_cut e he)
    · cases hst <;> obtain rfl := List.mem_singleton.mp he <;> rfl

/-- What the record of a run is once a command is handled: what the command makes of it, moved on by
the boundary. -/
theorem handled (h : s.Rooted env.id) (hfresh : s.forest.entry env.fresh = none)
    (hp : (s.applyAll (s.handleCommand env c).events).forest.progress r = some (g, w)) :
    ∃ w', WorkflowOrchestrator.Advanced env.newV5 ⟨r, g⟩ w' w ∧
      ((s.forest.progress r = none ∧ w' = .default) ∨
        ∃ before, s.forest.progress r = some (g, before) ∧ Touched s env c r before w') := by
  obtain ⟨recorded, hr, he⟩ := handleCommand_journals (s := s) (c := c)
  have hrecorded : ∃ w', (s.applyAll recorded).forest.progress r = some (g, w') ∧
      WorkflowOrchestrator.Advanced env.newV5 ⟨r, g⟩ w' w := by
    rcases he with he | he
    · rw [he] at hp
      exact ⟨w, hp, .inl rfl⟩
    · rw [he, applyAll_append] at hp
      cases hrec : (s.applyAll recorded).forest.progress r with
      | none =>
        rw [progress_flushThenDrain_none hrec] at hp
        cases hp
      | some p =>
        obtain ⟨g', w'⟩ := p
        obtain ⟨w'', hw'', hadv⟩ := progress_flushThenDrain hrec
        rw [hw''] at hp
        cases hp
        exact ⟨w', rfl, hadv⟩
  obtain ⟨w', hw', hadv⟩ := hrecorded
  refine ⟨w', hadv, ?_⟩
  cases hbefore : s.forest.progress r with
  | none =>
    left
    rcases hr.new hbefore with hn | ⟨g', hn⟩ <;> rw [hw'] at hn
    · cases hn
    · exact ⟨rfl, (Prod.mk.inj (Option.some.inj hn)).2⟩
  | some p =>
    obtain ⟨g', before⟩ := p
    right
    rcases hr.touched h hfresh hbefore with hn | ⟨w'', hn, ht⟩ <;> rw [hw'] at hn
    · cases hn
    · cases hn
      exact ⟨before, rfl, ht⟩

theorem shape_applyAll_steady
    (h : ∀ e ∈ events, Steady newV5 e) : (s.applyAll events).forest.shape r = s.forest.shape r := by
  induction events generalizing s with
  | nil => rfl
  | cons e es ih =>
    refine (ih fun e' he' => h e' (List.mem_cons_of_mem _ he')).trans ?_
    exact shape_applyEvent (h e List.mem_cons_self).1

theorem shape_handleCommand {x y : Option String × RunKind} (h : s.Rooted env.id)
    (hfresh : s.forest.entry env.fresh = none) (hx : s.forest.shape r = some x)
    (hy : (s.applyAll (s.handleCommand env c).events).forest.shape r = some y) : x = y := by
  have hne : r ≠ env.fresh := by
    rintro rfl
    unfold RunForest.shape at hx
    rw [hfresh] at hx
    cases hx
  obtain ⟨recorded, hr, he⟩ := handleCommand_journals (s := s) (c := c)
  have hrec : (s.applyAll recorded).forest.shape r = some y := by
    rcases he with he | he
    · rwa [he] at hy
    · rw [he, applyAll_append, shape_applyAll_steady fun e he => steady_of_atBoundary
        (atBoundary_flushThenDrain e he)] at hy
      exact hy
  rcases hr.steady with hs | ⟨spec, name, hn, -⟩ | ⟨e, rfl, hstr⟩
  · rw [shape_applyAll_steady hs, hx] at hrec
    exact Option.some.inj hrec
  · rw [h.untold hn] at hx
    exact absurd hx (by simp [RunForest.shape, RunForest.entry, RunForest.empty])
  · rcases hstr with ⟨parent, graph, -, rfl⟩ | ⟨parent, title, task, agentType, -, rfl⟩ |
      ⟨parent, sourceSeq, seed, message, title, runtime, -, -, rfl⟩ | ⟨gone, -, -, rfl⟩
    · have hkept : (s.forest.insertEntry env.fresh (some parent) _).shape r = some y := hrec
      rw [RunForest.shape_insertEntry, if_neg hne, hx] at hkept
      exact Option.some.inj hkept
    · have hkept : (s.forest.insertEntry env.fresh (some parent) _).shape r = some y := hrec
      rw [RunForest.shape_insertEntry, if_neg hne, hx] at hkept
      exact Option.some.inj hkept
    · have hkept : (s.forest.insertEntry env.fresh (some parent) _).shape r = some y := hrec
      rw [RunForest.shape_insertEntry, if_neg hne, hx] at hkept
      exact Option.some.inj hkept
    · change (s.forest.applyAgentDeleted gone).shape r = _ at hrec
      unfold RunForest.shape at hx hrec
      rcases RunForest.entry_applyAgentDeleted (f := s.forest) (r := r) with h | h
      · rw [h, hx] at hrec
        exact Option.some.inj hrec
      · rw [h] at hrec
        cases hrec

end SessionState

/-! ## The commands of a session -/

/-- The same readings, in the session `id`. -/
def Env.serving (env : Env) (id : String) (newV5 : String → String → String) : Env :=
  { env with id, newV5 }

/-- An id that names nothing yet, and that no id of a step agent is derived to be. -/
structure SessionState.Unused (s : SessionState) (newV5 : String → String → String)
    (fresh : String) : Prop where
  entry : s.forest.entry fresh = none
  runtime : s.runtimes.lookup fresh = none
  owner : ∀ r x, s.runtimes.lookup r = some x → x.owner ≠ fresh
  derived : ∀ run index, WorkflowRunSpec.stepAgentId newV5 run index ≠ fresh

/-- The session `id` from its beginning: commands of any kind, in any order, each handled on what
the ones before it journaled, with an unused id to mint. -/
def running (id : String) (newV5 : String → String → String) :
    System SessionState (Env × SessionCommand) where
  Init s := s = .empty
  Step s l t := s.Unused newV5 l.1.fresh ∧
    t = s.applyAll (s.handleCommand (l.1.serving id newV5) l.2).events

/-! ### Executions that can be computed -/

def joined (run name : String) : String := run ++ "/" ++ name

/-- Ids to mint, none of them derived by joining. -/
def mintable : List String := ["1", "2", "3", "4", "5", "6"]

theorem joined_ne {x : String} (hx : x.length = 1) (run : String) (index : ℕ) :
    WorkflowRunSpec.stepAgentId joined run index ≠ x := by
  intro h
  have hlength := congrArg String.length h
  unfold WorkflowRunSpec.stepAgentId joined at hlength
  simp only [String.length_append] at hlength
  have hstep : "step:".length = 5 := rfl
  omega

/-- The step of the session `s` whose ids are derived by joining, as a function. -/
def serve? (s : SessionState) (l : Env × SessionCommand) : Option SessionState :=
  if l.1.fresh ∈ mintable ∧ (s.forest.entry l.1.fresh).isNone ∧
      (s.runtimes.lookup l.1.fresh).isNone ∧
        (∀ r ∈ s.runtimes.toPairs, r.2.owner ≠ l.1.fresh) then
    some (s.applyAll (s.handleCommand (l.1.serving "s" joined) l.2).events)
  else none

variable {t : SessionState}

theorem step_of_serve? {s : SessionState} {l : Env × SessionCommand} (h : serve? s l = some t) :
    (running "s" joined).Step s l t := by
  obtain ⟨⟨hmint, hentry, hruntime, howner⟩, h⟩ := Option.ite_none_right_eq_some.mp h
  have hlength : ∀ x ∈ mintable, x.length = 1 := by decide
  exact ⟨⟨Option.isNone_iff_eq_none.mp hentry, Option.isNone_iff_eq_none.mp hruntime,
    fun r x hx => howner (r, x) (Map.mem_toPairs.mpr hx), joined_ne (hlength _ hmint)⟩,
      (Option.some.inj h).symm⟩

theorem exec_serve? {ls : List (Env × SessionCommand)}
    (h : System.steps? serve? .empty ls = some t) :
    ∃ tr, (running "s" joined).Exec .empty tr t ∧ tr.map (·.2.1) = ls :=
  System.exec_of_steps? (fun _ _ _ => step_of_serve?) h

/-- The same, each meeting `G`. -/
theorem exec_guarded_serve? {ls : List (Env × SessionCommand)}
    {G : SessionState → Env × SessionCommand → Prop} [∀ s l, Decidable (G s l)]
    (h : System.steps? (System.guarded? G serve?) .empty ls = some t) :
    ∃ tr, (running "s" joined).Exec .empty tr t ∧ tr.map (·.2.1) = ls ∧
      ∀ x ∈ tr, G x.1 x.2.1 :=
  System.exec_of_guarded? (fun _ _ _ _ => step_of_serve?) h

/-- What a handler reads where every actor can be reached and nothing is named twice. -/
def Env.plain (fresh : String) : Env where
  id := ""
  now := 0
  fresh := fresh
  newV5 := joined
  spawns _ := true
  tells _ := true
  resident _ := true
  maxSubagents _ := some 4
  logHead _ := some 0
  renames := false
  spawnedAtMs _ := 0
  endedAtMs _ := 0

namespace SessionState

theorem rooted_empty (id : String) : SessionState.empty.Rooted id where
  main k p hk := absurd hk (by simp [RunForest.shape, RunForest.entry, SessionState.empty,
    RunForest.empty])
  root k hk := absurd hk (by simp [SessionState.empty, RunForest.empty])
  untold _ := rfl

theorem rooted_of_reachable {id : String} {newV5 : String → String → String}
    (hderived : ∀ run index, WorkflowRunSpec.stepAgentId newV5 run index ≠ id) {s : SessionState}
    (h : (running id newV5).Reachable s) : s.Rooted id := by
  refine h.invariant ?_ ?_
  · rintro s rfl
    exact rooted_empty id
  · rintro s l t - hs ⟨hunused, rfl⟩
    have hserved : s.Rooted (l.1.serving id newV5).id := hs
    exact hserved.handleCommand hunused.entry hderived

end SessionState

end Horsie.Session
