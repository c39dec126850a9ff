import Horsie.Session.Workflow

/-!
# The forest through its events

What an event does to the two things most facts about a session are about: the shape of the forest,
which entry is what and runs under whom, and the record of one workflow run, as its driver reads it.
Only the events that insert or remove entries change the shape (`shape_applyEvent`), and a run's
record is changed by the events about that run alone (`progress_applyEvent`).
-/

namespace Horsie.Session

open Lib

/-! ## What an entry is -/

inductive RunKind
  | main
  | sub
  | workflow
  | subSession
deriving DecidableEq

def RunState.kind : RunState → RunKind
  | .main _ => .main
  | .sub _ => .sub
  | .workflow _ => .workflow
  | .subSession _ => .subSession

namespace RunState

variable (s : RunState)

@[simp]
theorem kind_mapMain (g : MainRun → MainRun) : (s.mapMain g).kind = s.kind := by cases s <;> rfl

@[simp]
theorem kind_mapSub (g : SubAgentRun → SubAgentRun) : (s.mapSub g).kind = s.kind := by
  cases s <;> rfl

@[simp]
theorem kind_mapWorkflow (g : WorkflowRun → WorkflowRun) : (s.mapWorkflow g).kind = s.kind := by
  cases s <;> rfl

@[simp]
theorem kind_mapSubSession (g : SubSessionRun → SubSessionRun) :
    (s.mapSubSession g).kind = s.kind := by
  cases s <;> rfl

theorem workflow?_mapMain (g : MainRun → MainRun) : (s.mapMain g).workflow? = s.workflow? := by
  cases s <;> rfl

theorem workflow?_mapSub (g : SubAgentRun → SubAgentRun) :
    (s.mapSub g).workflow? = s.workflow? := by
  cases s <;> rfl

theorem workflow?_mapSubSession (g : SubSessionRun → SubSessionRun) :
    (s.mapSubSession g).workflow? = s.workflow? := by
  cases s <;> rfl

theorem workflow?_mapWorkflow (g : WorkflowRun → WorkflowRun) :
    (s.mapWorkflow g).workflow? = s.workflow?.map g := by
  cases s <;> rfl

end RunState

namespace RunForest

/-- Under whom an entry runs, and what it is. -/
def shape (f : RunForest) (id : String) : Option (Option String × RunKind) :=
  (f.entry id).map fun e => (e.parent, e.state.kind)

def progress (f : RunForest) (run : String) : Option (WorkflowRunSpec × WorkflowRunState) :=
  (f.workflow run).map fun w => (w.graph, w.run)

section

variable {f : RunForest} {id r : String} {g : RunState → RunState}

theorem entry_modifyState : (f.modifyState id g).entry r =
    if r = id then (f.entry r).map fun e => { e with state := g e.state } else f.entry r :=
  Map.lookup_adjust

theorem shape_modifyState (hg : ∀ s, (g s).kind = s.kind) :
    (f.modifyState id g).shape r = f.shape r := by
  unfold shape
  rw [entry_modifyState]
  split_ifs
  · rw [Option.map_map]
    congr 1
    funext e
    show (e.parent, (g e.state).kind) = _
    rw [hg]
  · rfl

theorem workflow_modifyState {k : Option WorkflowRun → Option WorkflowRun}
    (hg : ∀ s, (g s).workflow? = k s.workflow?) (hk : k none = none) :
    (f.modifyState id g).workflow r = if r = id then k (f.workflow r) else f.workflow r := by
  unfold workflow
  rw [entry_modifyState]
  split_ifs
  · cases f.entry r with
    | none => exact hk.symm
    | some e => exact hg e.state
  · rfl

theorem workflow_modifyWorkflow {g : WorkflowRun → WorkflowRun} :
    (f.modifyWorkflow id g).workflow r =
      if r = id then (f.workflow r).map g else f.workflow r :=
  workflow_modifyState (k := Option.map g) (fun s => s.workflow?_mapWorkflow g) rfl

theorem progress_modifyState (hg : ∀ s, (g s).workflow? = s.workflow?) :
    (f.modifyState id g).progress r = f.progress r := by
  unfold progress
  rw [workflow_modifyState (k := fun w => w) hg rfl, ite_self]

theorem progress_modifyWorkflow {g : WorkflowRun → WorkflowRun}
    {k : WorkflowRunState → WorkflowRunState}
    (hg : ∀ w, ((g w).graph, (g w).run) = (w.graph, k w.run)) :
    (f.modifyWorkflow id g).progress r =
      if r = id then (f.progress r).map fun p => (p.1, k p.2) else f.progress r := by
  unfold progress
  rw [workflow_modifyWorkflow]
  split_ifs
  · rw [Option.map_map, Option.map_map]
    congr 1
    funext w
    exact hg w
  · rfl

variable {parent : Option String} {state : RunState}

theorem entry_insertEntry :
    (f.insertEntry id parent state).entry r =
      if r = id then some ⟨parent, state⟩ else f.entry r :=
  Map.lookup_insert_eq

theorem shape_insertEntry :
    (f.insertEntry id parent state).shape r =
      if r = id then some (parent, state.kind) else f.shape r := by
  unfold shape
  rw [entry_insertEntry]
  split_ifs <;> rfl

theorem workflow_insertEntry :
    (f.insertEntry id parent state).workflow r =
      if r = id then state.workflow? else f.workflow r := by
  unfold workflow
  rw [entry_insertEntry]
  split_ifs <;> rfl

theorem progress_eq_some {p : WorkflowRunSpec × WorkflowRunState} :
    f.progress r = some p ↔ ∃ w, f.workflow r = some w ∧ w.graph = p.1 ∧ w.run = p.2 := by
  unfold progress
  rw [Option.map_eq_some_iff]
  constructor
  · rintro ⟨w, hw, rfl⟩
    exact ⟨w, hw, rfl, rfl⟩
  · rintro ⟨w, hw, hg, hr⟩
    exact ⟨w, hw, Prod.ext hg hr⟩

theorem progress_eq_none : f.progress r = none ↔ f.workflow r = none := Option.map_eq_none_iff

theorem entry_of_workflow {w : WorkflowRun} (h : f.workflow r = some w) :
    ∃ parent, f.entry r = some ⟨parent, .workflow w⟩ := by
  obtain ⟨⟨parent, state⟩, he, hw⟩ := Option.bind_eq_some_iff.mp h
  cases state with
  | workflow w' =>
    cases hw
    exact ⟨parent, he⟩
  | main | sub | subSession => exact absurd hw (by simp [RunState.workflow?])

theorem mem_delegated {depth : ℕ} {frontier : List String} (h : r ∈ f.delegated depth frontier) :
    ∃ e, f.entry r = some e ∧ e.parent.isSome ∧ e.state.isDelegated = true := by
  induction depth generalizing frontier with
  | zero => cases h
  | succ depth ih =>
    unfold delegated at h
    dsimp only at h
    split_ifs at h
    · cases h
    rcases List.mem_append.mp h with h | h
    · obtain ⟨⟨k, e⟩, hmem, rfl⟩ := List.mem_map.mp h
      obtain ⟨hmem, hp⟩ := List.mem_filter.mp hmem
      rw [Bool.and_eq_true] at hp
      refine ⟨e, Map.mem_toPairs.mp hmem, ?_, hp.2⟩
      have hany := hp.1
      cases hparent : e.parent with
      | none =>
        rw [hparent] at hany
        cases hany
      | some parent => rfl
    · exact ih h

theorem agents_applyAgentDeleted_of_host {agent : String}
    (hr : ((f.applyAgentDeleted id).entry r).isSome) (ha : f.agents.lookup agent = some r)
    (hnone : f.entry agent = none) : (f.applyAgentDeleted id).agents.lookup agent = some r := by
  unfold applyAgentDeleted at hr ⊢
  split_ifs with hid
  · rw [if_pos hid] at hr
    have hne : agent ≠ id := by
      rintro rfl
      unfold sub subSession at hid
      rw [hnone] at hid
      cases hid
    have hagent : agent ∉ f.delegated f.entries.entries.length [id] := by
      intro hmem
      obtain ⟨e, he, -⟩ := mem_delegated hmem
      rw [hnone] at he
      cases he
    have hhost : r ∉ f.delegated f.entries.entries.length [id] := by
      intro hmem
      change (AList.lookup r (Map.retain _ _)).isSome at hr
      rw [Map.lookup_retain] at hr
      obtain ⟨e, he⟩ := Option.isSome_iff_exists.mp hr
      have hcond := (Option.filter_eq_some_iff.mp he).2
      simp [hmem] at hcond
    show AList.lookup agent (Map.retain _ _) = _
    rw [Map.lookup_retain, ha, Option.filter_some, if_pos]
    simp [hagent, hhost, hne]
  · exact ha

theorem entry_applyAgentDeleted :
    (f.applyAgentDeleted id).entry r = f.entry r ∨ (f.applyAgentDeleted id).entry r = none := by
  unfold applyAgentDeleted
  split_ifs
  · unfold entry
    rw [Map.lookup_retain]
    cases f.entries.lookup r with
    | none => exact .inl rfl
    | some e =>
      rw [Option.filter_some]
      split_ifs
      · exact .inl rfl
      · exact .inr rfl
  · exact .inl rfl

/-- A main agent and a run that nobody invoked stay when others are removed. -/
theorem entry_applyAgentDeleted_of_root {e : RunEntry} (he : f.entry r = some e)
    (hr : e.state.kind = .main ∨ e.state.kind = .workflow ∧ e.parent = none) :
    (f.applyAgentDeleted id).entry r = some e := by
  unfold applyAgentDeleted
  split_ifs with hid
  · have hne : r ≠ id := by
      rintro rfl
      unfold sub subSession at hid
      rw [he] at hid
      simp only [Option.bind_some] at hid
      cases hs : e.state with
      | main | workflow =>
        rw [hs] at hid
        cases hid
      | sub | subSession =>
        rw [hs] at hr
        rcases hr with hr | ⟨hr, -⟩ <;> exact RunKind.noConfusion hr
    have hdoomed : r ∉ f.delegated f.entries.entries.length [id] := by
      intro hmem
      obtain ⟨e', he', hparent, hdel⟩ := mem_delegated hmem
      cases he.symm.trans he'
      rcases hr with hr | ⟨-, hr⟩
      · cases hs : e.state with
        | main =>
          rw [hs] at hdel
          cases hdel
        | sub | workflow | subSession =>
          rw [hs] at hr
          exact RunKind.noConfusion hr
      · rw [hr] at hparent
        cases hparent
    show AList.lookup r (Map.retain _ _) = _
    unfold entry at he
    rw [Map.lookup_retain, he, Option.filter_some, if_pos]
    simp [hdoomed, hne]
  · exact he

theorem agents_applyAgentDeleted_of_main {e : RunEntry} (he : f.entry r = some e)
    (hr : e.state.kind = .main) (ha : f.agents.lookup r = some r) :
    (f.applyAgentDeleted id).agents.lookup r = some r := by
  have hkept : (f.applyAgentDeleted id).entry r = some e :=
    entry_applyAgentDeleted_of_root he (.inl hr)
  unfold applyAgentDeleted at hkept ⊢
  split_ifs with hid
  · rw [if_pos hid] at hkept
    change AList.lookup r (Map.retain _ _) = _ at hkept
    show AList.lookup r (Map.retain _ _) = _
    unfold entry at he
    rw [Map.lookup_retain, he, Option.filter_some] at hkept
    rw [Map.lookup_retain, ha, Option.filter_some, if_pos]
    have hcond := (Option.ite_none_right_eq_some.mp hkept).1
    simp only [Bool.and_eq_true, Bool.not_eq_true', decide_eq_true_eq] at hcond ⊢
    exact ⟨⟨hcond.1, hcond.1⟩, hcond.2⟩
  · exact ha

end

end RunForest

/-! ## Events -/

namespace SessionDomainEvent

/-- Whether an event inserts or removes entries. -/
def isStructural : SessionDomainEvent → Bool
  | .specRecorded _ _ | .agentDeleted _ | .subAgentSpawned _ _ _ _ _ | .runCreated _ _ _
  | .subSessionCreated _ _ _ _ _ _ _ => true
  | _ => false

def onRun : SessionDomainEvent → Option (String × (WorkflowRunState → WorkflowRunState))
  | .stepStarted run _ step agent attempt origin via input =>
    some (run, (·.applyStarted step agent attempt origin via input))
  | .stepConcluded run index output => some (run, (·.applyConcluded index output))
  | .stepFailed run index error =>
    some (run, fun w => (w.applyStepFailed index error).applyFailed error)
  | .stepCancelled run index => some (run, (·.applyCancelled index))
  | .runFinished run output => some (run, (·.applyFinished output))
  | .runFailed run error => some (run, (·.applyFailed error))
  | _ => none

def run? (e : SessionDomainEvent) : Option String := e.onRun.map (·.1)

def startedAgent : SessionDomainEvent → Option String
  | .stepStarted _ _ _ agent _ _ _ _ => some agent
  | _ => none

end SessionDomainEvent

namespace SessionState

variable {s : SessionState} {e : SessionDomainEvent} {r : String}

theorem shape_applyAsked {f : RunForest} {agent : String} :
    (f.applyAsked agent).shape r = f.shape r := by
  unfold RunForest.applyAsked
  cases f.agents.lookup agent with
  | none => rfl
  | some id =>
    refine RunForest.shape_modifyState ?_
    intro st
    cases st <;> rfl

theorem shape_applyMainTitled {f : RunForest} {title : String} :
    (f.applyMainTitled title).shape r = f.shape r := by
  unfold RunForest.applyMainTitled
  cases f.root with
  | none => rfl
  | some id => exact RunForest.shape_modifyState (fun st => st.kind_mapMain _)

theorem shape_applyEvent (h : e.isStructural = false) :
    (s.applyEvent e).forest.shape r = s.forest.shape r := by
  cases e with
  | specRecorded | agentDeleted | subAgentSpawned | runCreated | subSessionCreated => cases h
  | askRecorded => exact shape_applyAsked
  | renamed => exact shape_applyMainTitled
  | runtimeRequested runtime owner env =>
    refine RunForest.shape_modifyState ?_
    intro st
    cases st <;> rfl
  | turnBegan | turnEnded | turnFailed | turnStopped | turnInterrupted =>
    exact RunForest.shape_modifyState (fun st => st.kind_mapMain _)
  | subAgentRunning | subAgentCompleted | subAgentFailed | subAgentNotified =>
    exact RunForest.shape_modifyState (fun st => st.kind_mapSub _)
  | subSessionSeeded | subSessionStatusChanged | subSessionTurnEnded =>
    exact RunForest.shape_modifyState (fun st => st.kind_mapSubSession _)
  | stepStarted | stepConcluded | stepFailed | stepCancelled | runFinished | runFailed
  | runNotified =>
    exact RunForest.shape_modifyState (fun st => st.kind_mapWorkflow _)
  | provisioningFailed runtime error terminal => cases terminal <;> rfl
  | provisioningStarted | provisioningProgress | provisioningSucceeded | sessionFailed
  | usageRecorded => rfl

theorem root_applyEvent (h : e.isStructural = false) :
    (s.applyEvent e).forest.root = s.forest.root := by
  cases e with
  | specRecorded | agentDeleted | subAgentSpawned | runCreated | subSessionCreated => cases h
  | askRecorded agent =>
    show (s.forest.applyAsked agent).root = _
    unfold RunForest.applyAsked
    cases s.forest.agents.lookup agent <;> rfl
  | renamed title =>
    show (s.forest.applyMainTitled title).root = _
    unfold RunForest.applyMainTitled
    cases hroot : s.forest.root with
    | none => exact hroot
    | some id => exact hroot
  | provisioningFailed runtime error terminal => cases terminal <;> rfl
  | _ => rfl

theorem agents_applyEvent (h : e.isStructural = false) (ha : e.startedAgent ≠ some r) :
    (s.applyEvent e).forest.agents.lookup r = s.forest.agents.lookup r := by
  cases e with
  | specRecorded | agentDeleted | subAgentSpawned | runCreated | subSessionCreated => cases h
  | stepStarted run index step agent attempt origin via input =>
    exact AList.lookup_insert_ne fun hr => ha (congrArg some hr.symm)
  | askRecorded agent =>
    show (s.forest.applyAsked agent).agents.lookup r = _
    unfold RunForest.applyAsked
    cases s.forest.agents.lookup agent <;> rfl
  | renamed title =>
    show (s.forest.applyMainTitled title).agents.lookup r = _
    unfold RunForest.applyMainTitled
    cases s.forest.root <;> rfl
  | provisioningFailed runtime error terminal => cases terminal <;> rfl
  | _ => rfl

theorem spec_applyEvent (h : ∀ session spec, e ≠ .specRecorded session spec) :
    (s.applyEvent e).spec = s.spec := by
  cases e with
  | specRecorded session spec => exact absurd rfl (h session spec)
  | provisioningFailed runtime error terminal => cases terminal <;> rfl
  | _ => rfl

theorem progress_applyEvent (h : e.isStructural = false) (ha : ∀ agent, e ≠ .askRecorded agent) :
    (s.applyEvent e).forest.progress r =
      match e.onRun with
      | some (run, g) =>
        if r = run then (s.forest.progress r).map fun p => (p.1, g p.2) else s.forest.progress r
      | none => s.forest.progress r := by
  cases e with
  | specRecorded | agentDeleted | subAgentSpawned | runCreated | subSessionCreated => cases h
  | askRecorded agent => exact absurd rfl (ha agent)
  | renamed title =>
    show (s.forest.applyMainTitled title).progress r = _
    unfold RunForest.applyMainTitled
    cases s.forest.root with
    | none => rfl
    | some id => exact RunForest.progress_modifyState (fun st => st.workflow?_mapMain _)
  | runtimeRequested runtime owner env =>
    show (s.forest.pointAtRuntime owner (.on runtime)).progress r = _
    unfold RunForest.progress RunForest.pointAtRuntime
    rw [RunForest.workflow_modifyState
      (k := Option.map fun w => { w with runtime := .on runtime })
      (fun st => by cases st <;> rfl) rfl]
    show _ = Option.map _ _
    split_ifs
    · rw [Option.map_map]
      rfl
    · rfl
  | turnBegan | turnEnded | turnFailed | turnStopped | turnInterrupted =>
    exact RunForest.progress_modifyState (fun st => st.workflow?_mapMain _)
  | subAgentRunning | subAgentCompleted | subAgentFailed | subAgentNotified =>
    exact RunForest.progress_modifyState (fun st => st.workflow?_mapSub _)
  | subSessionSeeded | subSessionStatusChanged | subSessionTurnEnded =>
    exact RunForest.progress_modifyState (fun st => st.workflow?_mapSubSession _)
  | stepStarted run index step agent attempt origin via input =>
    exact RunForest.progress_modifyWorkflow
      (k := (·.applyStarted step agent attempt origin via input)) fun w => rfl
  | stepConcluded run index output =>
    exact RunForest.progress_modifyWorkflow (k := (·.applyConcluded index output)) fun w => rfl
  | stepFailed run index error =>
    exact RunForest.progress_modifyWorkflow
      (k := fun w => (w.applyStepFailed index error).applyFailed error) fun w => rfl
  | stepCancelled run index =>
    exact RunForest.progress_modifyWorkflow (k := (·.applyCancelled index)) fun w => rfl
  | runFinished run output =>
    exact RunForest.progress_modifyWorkflow (k := (·.applyFinished output)) fun w => rfl
  | runFailed run error =>
    exact RunForest.progress_modifyWorkflow (k := (·.applyFailed error)) fun w => rfl
  | runNotified run =>
    show (s.forest.modifyWorkflow run fun w => { w with notified := true }).progress r = _
    rw [RunForest.progress_modifyWorkflow (g := fun w => { w with notified := true })
      (k := fun w => w) fun w => rfl]
    show (if r = run then Option.map id _ else _) = _
    rw [Option.map_id]
    exact ite_self _
  | provisioningFailed runtime error terminal => cases terminal <;> rfl
  | provisioningStarted | provisioningProgress | provisioningSucceeded | sessionFailed
  | usageRecorded => rfl

theorem progress_askRecorded {agent : String} :
    (s.applyEvent (.askRecorded agent)).forest.progress r =
      if s.forest.agents.lookup agent = some r then
        (s.forest.progress r).map fun p => (p.1, p.2.applyAwaiting)
      else s.forest.progress r := by
  show (s.forest.applyAsked agent).progress r = _
  unfold RunForest.applyAsked
  cases h : s.forest.agents.lookup agent with
  | none => rfl
  | some id =>
    unfold RunForest.progress
    rw [RunForest.workflow_modifyState
      (k := Option.map fun w => { w with run := w.run.applyAwaiting })
      (fun st => by cases st <;> rfl) rfl]
    by_cases hr : r = id
    · subst hr
      rw [if_pos rfl, if_pos rfl, Option.map_map, Option.map_map]
      rfl
    · rw [if_neg hr, if_neg fun hs => hr (Option.some.inj hs).symm]

end SessionState

end Horsie.Session
