import Horsie.Session.Runs

/-!
# Who changes what a session is called

The title of a session is its main agent's, on the root entry of the forest. It is there from the
record of what the session is, and changed by a `Renamed` alone: the other events add entries under
ids of their own, remove delegated work, or change an entry in other respects.
-/

namespace Horsie.Session

open Lib
open Agent (AgentOutcome)

/-! ## The title of an entry -/

def RunState.titling (s : RunState) : Option (Option String) := s.main?.map (·.title)

namespace RunForest

/-- What the main agent of an entry is titled, if the entry is one. -/
def titling (f : RunForest) (id : String) : Option (Option String) :=
  (f.entry id).bind (·.state.titling)

section

variable {f : RunForest} {id r : String} {g : RunState → RunState}

theorem titling_modifyState (hg : ∀ s, (g s).titling = s.titling) :
    (f.modifyState id g).titling r = f.titling r := by
  unfold titling
  rw [entry_modifyState]
  split_ifs
  · cases f.entry r with
    | none => rfl
    | some e => exact hg e.state
  · rfl

theorem titling_modifyMain {g : MainRun → MainRun} (hg : ∀ r, (g r).title = r.title) :
    (f.modifyMain id g).titling r = f.titling r := by
  refine titling_modifyState fun s => ?_
  cases s with
  | main m => exact congrArg some (hg m)
  | sub | workflow | subSession => rfl

theorem titling_insertEntry {parent : Option String} {state : RunState} (h : r ≠ id) :
    (f.insertEntry id parent state).titling r = f.titling r := by
  unfold titling
  rw [entry_insertEntry, if_neg h]

/-- Only a subagent or a sub session is removed, with the work it delegated. -/
theorem titling_applyAgentDeleted : (f.applyAgentDeleted id).titling r = f.titling r := by
  unfold titling
  have hkept : (f.applyAgentDeleted id).entry r = f.entry r ∨
      (f.applyAgentDeleted id).entry r = none := entry_applyAgentDeleted
  cases he : f.entry r with
  | none =>
    rcases hkept with h | h
    · rw [h, he]
    · rw [h]
  | some e =>
    cases hs : e.state with
    | main m =>
      rw [entry_applyAgentDeleted_of_root he (.inl (by rw [hs]; rfl))]
    | sub | workflow | subSession =>
      rcases hkept with h | h
      · rw [h, he]
      · rw [h, Option.bind_some, hs]
        rfl

theorem titling_modifyMain_self {g : MainRun → MainRun} :
    (f.modifyMain r g).titling r =
      ((f.entry r).bind (·.state.main?)).map fun m => (g m).title := by
  unfold titling modifyMain
  rw [entry_modifyState, if_pos rfl]
  cases f.entry r with
  | none => rfl
  | some e =>
    obtain ⟨parent, state⟩ := e
    cases state <;> rfl

end

end RunForest

/-! ## The title of a session -/

namespace SessionDomainEvent

def leavesTitle (root : Option String) : SessionDomainEvent → Bool
  | .specRecorded _ _ | .renamed _ => false
  | .subAgentSpawned id _ _ _ _ | .runCreated id _ _ | .subSessionCreated id _ _ _ _ _ _ =>
    root ≠ some id
  | _ => true

end SessionDomainEvent

namespace SessionState

def titling (s : SessionState) : Option (Option String) := s.forest.root.bind s.forest.titling

/-- Whether the session is one agent's and not a workflow run. -/
def hasMain (s : SessionState) : Bool := s.titling.isSome

section

variable {s : SessionState} {e : SessionDomainEvent} {r : String}

theorem mainTitle_eq : s.forest.mainTitle = s.titling.join := by
  unfold titling RunForest.mainTitle RunForest.rootEntry RunForest.titling RunState.titling
  cases s.forest.root with
  | none => rfl
  | some root =>
    simp only [Option.bind_some]
    cases s.forest.entry root with
    | none => rfl
    | some e =>
      simp only [Option.bind_some]
      cases e.state.main? <;> rfl

theorem root_of_leavesTitle (h : e.leavesTitle s.forest.root = true) :
    (s.applyEvent e).forest.root = s.forest.root := by
  by_cases hs : e.isStructural = true
  · cases e with
    | specRecorded => cases h
    | agentDeleted id =>
      show (s.forest.applyAgentDeleted id).root = _
      unfold RunForest.applyAgentDeleted
      split_ifs <;> rfl
    | subAgentSpawned | runCreated | subSessionCreated => rfl
    | _ => cases hs
  · exact root_applyEvent (by simpa using hs)

theorem spec_of_leavesTitle (h : e.leavesTitle s.forest.root = true) :
    (s.applyEvent e).spec = s.spec := by
  refine spec_applyEvent fun session spec he => ?_
  rw [he] at h
  exact Bool.false_ne_true h

theorem forest_titling_of_leavesTitle (h : e.leavesTitle s.forest.root = true)
    (hr : s.forest.root = some r) : (s.applyEvent e).forest.titling r = s.forest.titling r := by
  cases e with
  | specRecorded | renamed => cases h
  | agentDeleted => exact RunForest.titling_applyAgentDeleted
  | subAgentSpawned id | runCreated id | subSessionCreated id =>
    refine RunForest.titling_insertEntry ?_
    rintro rfl
    rw [hr] at h
    exact absurd h (by simp [SessionDomainEvent.leavesTitle])
  | askRecorded agent =>
    show (s.forest.applyAsked agent).titling r = _
    unfold RunForest.applyAsked
    cases s.forest.agents.lookup agent with
    | none => rfl
    | some id => exact RunForest.titling_modifyState fun st => by cases st <;> rfl
  | turnBegan | turnEnded | turnFailed | turnStopped | turnInterrupted =>
    exact RunForest.titling_modifyMain fun _ => rfl
  | runtimeRequested | subAgentRunning | subAgentCompleted | subAgentFailed | subAgentNotified
  | subSessionSeeded | subSessionStatusChanged | subSessionTurnEnded | stepStarted | stepConcluded
  | stepFailed | stepCancelled | runFinished | runFailed | runNotified =>
    exact RunForest.titling_modifyState fun st => by cases st <;> rfl
  | provisioningFailed runtime error terminal => cases terminal <;> rfl
  | provisioningStarted | provisioningProgress | provisioningSucceeded | sessionFailed
  | usageRecorded => rfl

theorem titling_of_leavesTitle (h : e.leavesTitle s.forest.root = true) :
    (s.applyEvent e).titling = s.titling := by
  unfold titling
  rw [root_of_leavesTitle h]
  cases hr : s.forest.root with
  | none => rfl
  | some r => exact forest_titling_of_leavesTitle h hr

variable {events : List SessionDomainEvent}

theorem applyAll_leavesTitle (h : ∀ e ∈ events, e.leavesTitle s.forest.root = true) :
    (s.applyAll events).titling = s.titling ∧ (s.applyAll events).spec = s.spec ∧
      (s.applyAll events).forest.root = s.forest.root := by
  induction events generalizing s with
  | nil => exact ⟨rfl, rfl, rfl⟩
  | cons e events ih =>
    obtain ⟨he, hrest⟩ := List.forall_mem_cons.mp h
    have hroot := root_of_leavesTitle he
    obtain ⟨ht, hs, hr⟩ := ih (s := s.applyEvent e) (by rwa [hroot])
    exact ⟨ht.trans (titling_of_leavesTitle he), hs.trans (spec_of_leavesTitle he), hr.trans hroot⟩

theorem titling_renamed {name : String} :
    (s.applyEvent (.renamed name)).titling = s.titling.map fun _ => some name := by
  unfold titling
  rw [root_applyEvent rfl]
  cases hr : s.forest.root with
  | none => rfl
  | some r =>
    show (s.forest.applyMainTitled name).titling r = _
    unfold RunForest.applyMainTitled
    rw [hr]
    refine RunForest.titling_modifyMain_self.trans ?_
    unfold RunForest.titling RunState.titling
    rw [Option.bind_some]
    cases s.forest.entry r with
    | none => rfl
    | some e =>
      simp only [Option.bind_some]
      cases e.state.main? <;> rfl

theorem mainTitle_renamed {name : String} (h : s.hasMain = true) :
    (s.applyEvent (.renamed name)).forest.mainTitle = some name := by
  obtain ⟨title, ht⟩ := Option.isSome_iff_exists.mp h
  rw [mainTitle_eq, titling_renamed, ht]
  rfl

theorem titling_specRecorded {session : String} {spec : SessionSpec} :
    (s.applyEvent (.specRecorded session spec)).titling =
      match spec.kind with
      | .agent => some none
      | .workflow _ => none := by
  obtain ⟨kind, runtime⟩ := spec
  unfold titling
  cases kind with
  | agent =>
    show RunForest.titling _ session = _
    unfold RunForest.titling
    show Option.bind (RunForest.entry (s.forest.insertEntry session none _) session) _ = _
    rw [RunForest.entry_insertEntry, if_pos rfl]
    rfl
  | workflow run =>
    show RunForest.titling _ session = _
    unfold RunForest.titling
    show Option.bind (RunForest.entry (s.forest.insertEntry session none _) session) _ = _
    rw [RunForest.entry_insertEntry, if_pos rfl]
    rfl

end

end SessionState

/-- What is journaled leaves alone what a session with this root is called. -/
def LeavesTitle (root : Option String) (events : List SessionDomainEvent) : Prop :=
  ∀ e ∈ events, e.leavesTitle root = true

end Horsie.Session
