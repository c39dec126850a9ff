import Horsie.Session.DeadEnds

/-!
# The repair of a load, and what was begun since

As a session is loaded, what was in flight in its journal is interrupted: executions and subagents
by commands the session sends itself, turns by a report of their agents. These are messages like
others, and what they interrupt is decided as they are handled. What is in flight by then was in
flight as the session was loaded, or was begun by a command handled in between
(`inFlight_of_exec`), and a repair does not tell which.
-/

namespace Horsie.Session

open Lib
open Agent (AgentOutcome)

/-! ## What is in flight -/

/-- A piece of work of an entry: a turn of its own, or one of its executions. -/
structure Work where
  entry : String
  execution : Option ℕ
deriving DecidableEq

def WorkflowRunState.isRunningAt (w : WorkflowRunState) (index : ℕ) : Bool :=
  (w.steps[index]?).any (·.status = .running)

/-- Whether an entry has its turn, or an execution, in flight. -/
def RunState.inFlight : RunState → Option ℕ → Bool
  | .main r, none => r.turn = .running
  | .sub r, none => r.status = .running
  | .subSession r, none => r.status = .running
  | .workflow w, some index => w.run.isRunningAt index
  | .main _, some _ | .sub _, some _ | .subSession _, some _ | .workflow _, none => false

def RunForest.inFlight (f : RunForest) (w : Work) : Bool :=
  (f.entry w.entry).any (·.state.inFlight w.execution)

namespace SessionDomainEvent

def begins : SessionDomainEvent → Work → Bool
  | .turnBegan id, ⟨entry, none⟩ | .subAgentSpawned id _ _ _ _, ⟨entry, none⟩
  | .subAgentRunning id, ⟨entry, none⟩ | .subSessionStatusChanged id .running, ⟨entry, none⟩ =>
    entry = id
  | .stepStarted run _ _ _ _ _ _ _, ⟨entry, some _⟩ => entry = run
  | _, _ => false

def interrupts : SessionDomainEvent → Option Work
  | .stepCancelled run index => some ⟨run, some index⟩
  | .subAgentFailed id _ | .turnInterrupted id | .subSessionTurnEnded id .interrupted =>
    some ⟨id, none⟩
  | _ => none

end SessionDomainEvent

variable {i : ℕ} {w : WorkflowRunState}

theorem WorkflowRunState.isRunningAt_modifyStep {index : ℕ}
    {f : StepRun → StepRun} (hf : ∀ step, (f step).status ≠ .running)
    (h : (w.modifyStep index f).isRunningAt i = true) : i ≠ index ∧ w.isRunningAt i = true := by
  unfold isRunningAt modifyStep at h
  rw [List.getElem?_modify] at h
  unfold isRunningAt
  cases hi : w.steps[i]? with
  | none =>
    rw [hi] at h
    cases h
  | some step =>
    rw [hi] at h
    have hrunning := of_decide_eq_true h
    split_ifs at hrunning with hindex
    · exact absurd hrunning (hf step)
    · exact ⟨fun heq => hindex heq.symm, decide_eq_true hrunning⟩

namespace RunForest

variable {f : RunForest} {id : String} {w : Work} {g : RunState → RunState}

theorem inFlight_modifyState
    (hg : w.entry = id → ∀ st, (g st).inFlight w.execution = true →
      st.inFlight w.execution = true)
    (h : (f.modifyState id g).inFlight w = true) : f.inFlight w = true := by
  unfold inFlight at h ⊢
  rw [entry_modifyState] at h
  split_ifs at h with hid
  · cases he : f.entry w.entry with
    | none =>
      rw [he] at h
      exact h
    | some e =>
      rw [he] at h
      exact hg hid e.state h
  · exact h

theorem inFlight_modifyState_kept
    (hg : w.entry = id → ∀ st, st.inFlight w.execution = true →
      (g st).inFlight w.execution = true)
    (h : f.inFlight w = true) : (f.modifyState id g).inFlight w = true := by
  unfold inFlight at h ⊢
  rw [entry_modifyState]
  split_ifs with hid
  · cases he : f.entry w.entry with
    | none =>
      rw [he] at h
      exact h
    | some e =>
      rw [he] at h
      exact hg hid e.state h
  · exact h

theorem inFlight_insertEntry {parent : Option String} {state : RunState}
    (hstate : w.entry = id → state.inFlight w.execution = false)
    (h : (f.insertEntry id parent state).inFlight w = true) : f.inFlight w = true := by
  unfold inFlight at h ⊢
  rw [entry_insertEntry] at h
  split_ifs at h with hid
  · exact absurd ((hstate hid).symm.trans h) Bool.false_ne_true
  · exact h

theorem inFlight_applyAgentDeleted (h : (f.applyAgentDeleted id).inFlight w = true) :
    f.inFlight w = true := by
  unfold inFlight at h ⊢
  rcases entry_applyAgentDeleted (f := f) (r := w.entry) with he | he
  · rwa [he] at h
  · rw [he] at h
    cases h

end RunForest

theorem WorkflowRunState.isRunningAt_modifyStep_ne {index : ℕ}
    {f : StepRun → StepRun} (hne : i ≠ index) (h : w.isRunningAt i = true) :
    (w.modifyStep index f).isRunningAt i = true := by
  unfold isRunningAt modifyStep
  rw [List.getElem?_modify]
  cases hi : w.steps[i]? with
  | none =>
    unfold isRunningAt at h
    rw [hi] at h
    cases h
  | some step =>
    show decide ((if index = i then f step else step).status = .running) = true
    rw [if_neg (Ne.symm hne)]
    unfold isRunningAt at h
    rw [hi] at h
    exact h

theorem WorkflowRunState.isRunningAt_applyStarted
    (step agent : String) (attempt : ℕ) (origin : Option ℕ) (via : Option String) (input : String)
    (h : w.isRunningAt i = true) :
    (w.applyStarted step agent attempt origin via input).isRunningAt i = true := by
  obtain ⟨x, hx, -⟩ := (Option.any_eq_true _ _).mp h
  have hlt : i < w.steps.length := (List.getElem?_eq_some_iff.mp hx).1
  show (((w.steps ++ _)[i]?).any _) = true
  rw [List.getElem?_append_left hlt]
  exact h

/-! ## What was begun -/

namespace SessionState

variable {s : SessionState} {e : SessionDomainEvent} {w : Work}

theorem inFlight_applyEvent (hb : e.begins w = false)
    (h : (s.applyEvent e).forest.inFlight w = true) : s.forest.inFlight w = true := by
  obtain ⟨entry, execution⟩ := w
  cases e with
  | specRecorded session spec =>
    cases hk : spec.kind <;> simp only [applyEvent, mapForest, hk] at h <;>
      exact RunForest.inFlight_insertEntry (fun _ => by cases execution <;> rfl) h
  | agentDeleted => exact RunForest.inFlight_applyAgentDeleted h
  | subAgentSpawned id =>
    refine RunForest.inFlight_insertEntry (fun hid => ?_) h
    cases execution with
    | none => exact absurd (hb.symm.trans (decide_eq_true hid)) Bool.false_ne_true
    | some => rfl
  | runCreated | subSessionCreated =>
    exact RunForest.inFlight_insertEntry (fun _ => by cases execution <;> rfl) h
  | askRecorded agent =>
    change (s.forest.applyAsked agent).inFlight _ = true at h
    unfold RunForest.applyAsked at h
    cases hl : s.forest.agents.lookup agent with
    | none => rwa [hl] at h
    | some id =>
      rw [hl] at h
      refine RunForest.inFlight_modifyState (fun _ st hst => ?_) h
      cases st with
      | main => cases execution <;> exact absurd hst Bool.false_ne_true
      | workflow | sub | subSession => cases execution <;> exact hst
  | renamed title =>
    change (s.forest.applyMainTitled title).inFlight _ = true at h
    unfold RunForest.applyMainTitled at h
    cases hr : s.forest.root with
    | none => rwa [hr] at h
    | some id =>
      rw [hr] at h
      refine RunForest.inFlight_modifyState (fun _ st hst => ?_) h
      cases execution <;> cases st <;> exact hst
  | runtimeRequested =>
    refine RunForest.inFlight_modifyState (fun _ st hst => ?_) h
    cases execution <;> cases st <;> exact hst
  | turnBegan id | subAgentRunning id =>
    refine RunForest.inFlight_modifyState (fun hid st hst => ?_) h
    cases execution with
    | none => exact absurd (hb.symm.trans (decide_eq_true hid)) Bool.false_ne_true
    | some => cases st <;> exact hst
  | turnEnded | turnFailed | turnStopped | turnInterrupted | subAgentCompleted | subAgentFailed =>
    refine RunForest.inFlight_modifyState (fun _ st hst => ?_) h
    cases execution <;> cases st <;> first | exact hst | exact absurd hst Bool.false_ne_true
  | subSessionSeeded =>
    refine RunForest.inFlight_modifyState (fun _ st hst => ?_) h
    cases st with
    | subSession r =>
      cases execution with
      | none =>
        change decide ((if r.status = .provisioning then { r with status := .idle } else r).status =
          .running) = true at hst
        split_ifs at hst with hp
        · cases hst
        · exact hst
      | some => exact hst
    | main | sub | workflow => exact hst
  | subSessionStatusChanged id status =>
    refine RunForest.inFlight_modifyState (fun hid st hst => ?_) h
    cases execution with
    | none =>
      cases st with
      | subSession r =>
        change decide (status = .running) = true at hst
        obtain rfl := of_decide_eq_true hst
        exact absurd (hb.symm.trans (decide_eq_true hid)) Bool.false_ne_true
      | main | sub | workflow => exact hst
    | some => cases st <;> exact hst
  | subSessionTurnEnded id outcome =>
    refine RunForest.inFlight_modifyState (fun _ st hst => ?_) h
    cases execution with
    | none =>
      cases st with
      | subSession r => cases outcome <;> exact absurd hst Bool.false_ne_true
      | main | sub | workflow => exact hst
    | some => cases st <;> exact hst
  | stepStarted run =>
    refine RunForest.inFlight_modifyState (fun hid st hst => ?_) h
    cases execution with
    | none => cases st <;> exact hst
    | some => exact absurd (hb.symm.trans (decide_eq_true hid)) Bool.false_ne_true
  | stepConcluded run index | stepFailed run index | stepCancelled run index =>
    refine RunForest.inFlight_modifyState (fun _ st hst => ?_) h
    cases execution with
    | none => cases st <;> exact hst
    | some i =>
      cases st with
      | workflow v =>
        exact (WorkflowRunState.isRunningAt_modifyStep (by simp) hst).2
      | main | sub | subSession => exact hst
  | runFinished | runFailed | runNotified | subAgentNotified =>
    refine RunForest.inFlight_modifyState (fun _ st hst => ?_) h
    cases execution <;> cases st <;> exact hst
  | provisioningFailed runtime error terminal => cases terminal <;> exact h
  | provisioningStarted | provisioningProgress | provisioningSucceeded | sessionFailed
  | usageRecorded => exact h

theorem inFlight_applyAll {events : List SessionDomainEvent}
    (h : (s.applyAll events).forest.inFlight w = true) :
    s.forest.inFlight w = true ∨ ∃ e ∈ events, e.begins w = true := by
  induction events generalizing s with
  | nil => exact .inl h
  | cons e es ih =>
    rcases ih h with h | ⟨x, hx, hb⟩
    · by_cases hb : e.begins w = true
      · exact .inr ⟨e, List.mem_cons_self, hb⟩
      · exact .inl (inFlight_applyEvent (Bool.not_eq_true _ ▸ hb) h)
    · exact .inr ⟨x, List.mem_cons_of_mem _ hx, hb⟩

/-- What a repair or a boundary records leaves in flight what it does not say was interrupted. -/
theorem inFlight_applyEvent_kept {newV5 : String → String → String}
    (he : e.interrupts.isSome ∨ e.AtBoundary newV5) (hne : e.interrupts ≠ some w)
    (h : s.forest.inFlight w = true) : (s.applyEvent e).forest.inFlight w = true := by
  obtain ⟨entry, execution⟩ := w
  cases e with
  | stepCancelled run index =>
    refine RunForest.inFlight_modifyState_kept (fun hid st hst => ?_) h
    cases execution with
    | none => cases st <;> exact hst
    | some i =>
      cases st with
      | workflow v =>
        refine WorkflowRunState.isRunningAt_modifyStep_ne ?_ hst
        rintro rfl
        exact hne (congrArg (fun k => some (Work.mk k _)) hid.symm)
      | main | sub | subSession => exact hst
  | subAgentFailed id | turnInterrupted id =>
    refine RunForest.inFlight_modifyState_kept (fun hid st hst => ?_) h
    cases execution with
    | none => exact absurd (congrArg (fun k => some (Work.mk k none)) hid.symm) hne
    | some => cases st <;> exact hst
  | subSessionTurnEnded id outcome =>
    cases outcome with
    | interrupted =>
      refine RunForest.inFlight_modifyState_kept (fun hid st hst => ?_) h
      cases execution with
      | none => exact absurd (congrArg (fun k => some (Work.mk k none)) hid.symm) hne
      | some => cases st <;> exact hst
    | _ => exact (he.resolve_left Bool.false_ne_true).elim
  | stepStarted run index step agent attempt origin via input =>
    refine RunForest.inFlight_modifyState_kept (fun _ st hst => ?_) h
    cases execution with
    | none => cases st <;> exact hst
    | some i =>
      cases st with
      | workflow v => exact v.run.isRunningAt_applyStarted step agent attempt origin via input hst
      | main | sub | subSession => exact hst
  | runFinished | runFailed | runNotified | subAgentNotified =>
    refine RunForest.inFlight_modifyState_kept (fun _ st hst => ?_) h
    cases execution <;> cases st <;> exact hst
  | _ => exact (he.resolve_left Bool.false_ne_true).elim

theorem inFlight_applyAll_kept {newV5 : String → String → String}
    {events : List SessionDomainEvent}
    (he : ∀ e ∈ events, e.interrupts.isSome ∨ e.AtBoundary newV5)
    (hne : ∀ e ∈ events, e.interrupts ≠ some w) (h : s.forest.inFlight w = true) :
    (s.applyAll events).forest.inFlight w = true := by
  induction events generalizing s with
  | nil => exact h
  | cons e es ih =>
    exact ih (fun x hx => he x (List.mem_cons_of_mem _ hx))
      (fun x hx => hne x (List.mem_cons_of_mem _ hx))
      (inFlight_applyEvent_kept (he e List.mem_cons_self) (hne e List.mem_cons_self) h)

end SessionState

/-- Whether one of the commands handled began `w`. -/
def Begun (id : String) (newV5 : String → String → String)
    (tr : List (SessionState × (Env × SessionCommand) × SessionState)) (w : Work) : Prop :=
  ∃ x ∈ tr, ∃ e ∈ (x.1.handleCommand (x.2.1.1.serving id newV5) x.2.1.2).events,
    e.begins w = true

/-- What is in flight after any commands was before them, or one of them began it. -/
theorem inFlight_of_exec {id : String} {newV5 : String → String → String} {s₀ s : SessionState}
    {tr : List (SessionState × (Env × SessionCommand) × SessionState)}
    (h : (running id newV5).Exec s₀ tr s) {w : Work} (hw : s.forest.inFlight w = true) :
    s₀.forest.inFlight w = true ∨ Begun id newV5 tr w := by
  induction h with
  | nil => exact .inl hw
  | @snoc tr t l u _ hstep ih =>
    obtain ⟨-, rfl⟩ := hstep
    rcases SessionState.inFlight_applyAll hw with hw | ⟨e, he, hb⟩
    · rcases ih hw with hold | ⟨x, hx, hbegun⟩
      · exact .inl hold
      · exact .inr ⟨x, List.mem_append_left _ hx, hbegun⟩
    · exact .inr ⟨_, List.mem_append_right _ (List.mem_singleton_self _), e, he, hb⟩

/-! ## The repairs -/

/-- What interrupts the work a load finds in flight. -/
inductive Repair
  | runs
  | subAgents
  | turn (agent : String)
deriving DecidableEq

def Repair.command : Repair → SessionCommand
  | .runs => .run .reconcileInterrupted
  | .subAgents => .subAgent .reconcile
  | .turn agent => .agentOutcome agent .interrupted

theorem RunForest.inFlight_execution {f : RunForest} {r : String} :
    f.inFlight ⟨r, some i⟩ = (f.progress r).any fun p => p.2.isRunningAt i := by
  unfold RunForest.inFlight RunForest.progress RunForest.workflow
  cases f.entry r with
  | none => rfl
  | some e => obtain ⟨parent, st⟩ := e; cases st <;> rfl

namespace SessionState

variable {s : SessionState} {env : Env} {k : Repair} {w : Work}

def Covers (s : SessionState) : Repair → Work → Prop
  | .runs, w =>
    w.execution.isSome ∧ (s.forest.workflow w.entry).bind (·.run.current) = w.execution
  | .subAgents, w => w.execution = none ∧ (s.forest.sub w.entry).isSome
  | .turn agent, w =>
    w.execution = none ∧
      (s.agentKeyOf agent = some .main ∧ s.forest.root = some w.entry ∨
        s.agentKeyOf agent = some (.subSession agent) ∧ w.entry = agent ∧
          (s.forest.subSession agent).isSome)

theorem inFlight_of_mainTurn (hroot : s.Rooted env.id)
    (h : s.forest.mainTurn = some .running) :
    s.forest.root = some env.id ∧ s.forest.inFlight ⟨env.id, none⟩ = true := by
  obtain ⟨m, hm, hturn⟩ := Option.map_eq_some_iff.mp h
  obtain ⟨⟨parent, st⟩, he, hmain⟩ := Option.bind_eq_some_iff.mp hm
  obtain ⟨root, hr, he⟩ := Option.bind_eq_some_iff.mp he
  cases st with
  | main r =>
    cases hmain
    have hshape : s.forest.shape root = some (parent, .main) := by
      unfold RunForest.shape
      rw [he]
      rfl
    obtain ⟨rfl, -⟩ := hroot.main root parent hshape
    refine ⟨hr, ?_⟩
    show (s.forest.entry _).any _ = true
    rw [he]
    exact decide_eq_true hturn
  | sub | workflow | subSession => exact absurd hmain (by simp [RunState.main?])

theorem mainTurn_of_inFlight (hroot : s.Rooted env.id) {entry : String}
    (hr : s.forest.root = some entry) (hw : s.forest.inFlight ⟨entry, none⟩ = true) :
    s.forest.mainTurn = some .running ∧ s.forest.shape entry = some (none, .main) := by
  change (s.forest.entry entry).any _ = true at hw
  rcases hroot.root entry hr with hshape | hshape
  · refine ⟨?_, hshape⟩
    obtain ⟨⟨parent, st⟩, he, hkind⟩ := Option.map_eq_some_iff.mp hshape
    rw [he] at hw
    show ((s.forest.root.bind s.forest.entry).bind _).map _ = _
    rw [hr, Option.bind_some, he]
    cases st with
    | main r => exact congrArg some (of_decide_eq_true hw)
    | sub | workflow | subSession => cases hkind
  · obtain ⟨⟨parent, st⟩, he, hkind⟩ := Option.map_eq_some_iff.mp hshape
    rw [he] at hw
    cases st with
    | workflow => cases hw
    | main | sub | subSession => cases hkind

variable {e : SessionDomainEvent}

theorem repair_records (hroot : s.Rooted env.id)
    (he : e ∈ (s.handleCommand env k.command).events) :
    (∃ w, e.interrupts = some w ∧ s.Covers k w ∧ s.forest.inFlight w = true) ∨
      e.AtBoundary env.newV5 := by
  cases hspec : s.spec with
  | none =>
    unfold handleCommand at he
    rw [hspec] at he
    cases k <;> exact absurd he List.not_mem_nil
  | some spec =>
    rw [handleCommand_of_told (hspec ▸ rfl)] at he
    cases k with
    | runs =>
      obtain ⟨⟨run, index, agent⟩, hx, rfl⟩ := List.mem_map.mp he
      obtain ⟨⟨r, v⟩, hv, hx⟩ := List.mem_filterMap.mp hx
      obtain ⟨i, hcur, hx⟩ := Option.bind_eq_some_iff.mp hx
      obtain ⟨step, hstep, hx⟩ := Option.map_eq_some_iff.mp hx
      cases hx
      obtain ⟨⟨r, entry⟩, hentry, hv⟩ := List.mem_filterMap.mp hv
      obtain ⟨v, hw, hv⟩ := Option.map_eq_some_iff.mp hv
      cases hv
      have hentry : s.forest.entry r = some entry := Map.mem_toPairs.mp hentry
      have hworkflow : s.forest.workflow r = some v := by
        unfold RunForest.workflow
        rw [hentry]
        exact hw
      refine .inl ⟨⟨r, some index⟩, rfl, ⟨rfl, ?_⟩, ?_⟩
      · rw [hworkflow]
        exact hcur
      · obtain ⟨step', hstep', hrunning⟩ := getElem?_current hcur
        rw [RunForest.inFlight_execution, RunForest.progress, hworkflow]
        show (v.run.steps[index]?).any _ = true
        rw [hstep']
        exact decide_eq_true hrunning
    | subAgents =>
      obtain ⟨id, hid, rfl⟩ := List.mem_map.mp he
      obtain ⟨⟨id', sub⟩, hmem, rfl⟩ := List.mem_map.mp hid
      obtain ⟨hmem, hrunning⟩ := List.mem_filter.mp hmem
      obtain ⟨⟨id, ⟨parent, st⟩⟩, hentry, hsub⟩ := List.mem_filterMap.mp hmem
      obtain ⟨sub', hst, heq⟩ := Option.map_eq_some_iff.mp hsub
      cases heq
      have hentry : s.forest.entry id = some ⟨parent, st⟩ := Map.mem_toPairs.mp hentry
      cases st with
      | sub r =>
        cases hst
        refine .inl ⟨⟨id, none⟩, rfl, ⟨rfl, ?_⟩, ?_⟩
        · unfold RunForest.sub
          rw [hentry]
          rfl
        · show (s.forest.entry id).any _ = true
          rw [hentry]
          exact hrunning
      | main | workflow | subSession => exact absurd hst (by simp [RunState.sub?])
    | turn agent =>
      change e ∈ (s.onTurnEnd env agent .interrupted).events at he
      unfold onTurnEnd at he
      split at he
      · rename_i hkey
        unfold onMainOutcome at he
        split_ifs at he with hturn
        · obtain ⟨hr, hw⟩ := inFlight_of_mainTurn hroot hturn
          rcases List.mem_cons.mp he with rfl | he
          · exact .inl ⟨⟨env.id, none⟩, rfl, ⟨rfl, .inl ⟨hkey, hr⟩⟩, hw⟩
          · exact .inr (atBoundary_flushThenDrain e he)
        · cases he
      · split at he <;> exact absurd he List.not_mem_nil
      · rename_i id hkey
        unfold onSubSessionOutcome at he
        split_ifs at he with hrunning
        · rcases List.mem_cons.mp he with rfl | he
          · obtain ⟨r, hr, hstatus⟩ := (Option.any_eq_true _ _).mp hrunning
            obtain rfl : id = agent := by
              obtain ⟨x, -, hx⟩ := Option.map_eq_some_iff.mp hkey
              cases hst : x.2.state <;> simp only [hst] at hx <;> cases hx
              rfl
            refine .inl ⟨⟨id, none⟩, rfl, ⟨rfl, .inr ⟨hkey, rfl, hr ▸ rfl⟩⟩, ?_⟩
            obtain ⟨⟨parent, st⟩, hentry, hst⟩ := Option.bind_eq_some_iff.mp hr
            show (s.forest.entry id).any _ = true
            rw [hentry]
            cases st with
            | subSession r' =>
              cases hst
              exact hstatus
            | main | workflow | sub => exact absurd hst (by simp [RunState.subSession?])
          · exact .inr (atBoundary_flushThenDrain e he)
        · cases he
      · unfold onSubAgentOutcome at he
        split_ifs at he <;> exact absurd he List.not_mem_nil
      · cases he

variable {id : String}

theorem not_inFlight_of_subFailed {error : String} {parent : Option String}
    (h : s.forest.shape id = some (parent, .sub)) :
    (s.applyEvent (.subAgentFailed id error)).forest.inFlight ⟨id, none⟩ = false := by
  show ((s.forest.modifyState id _).entry id).any _ = false
  rw [RunForest.entry_modifyState, if_pos rfl]
  obtain ⟨⟨p, st⟩, he, hst⟩ := Option.map_eq_some_iff.mp h
  rw [he]
  cases st with
  | sub => rfl
  | main | workflow | subSession => cases hst

theorem not_inFlight_of_turnInterrupted {parent : Option String}
    (h : s.forest.shape id = some (parent, .main)) :
    (s.applyEvent (.turnInterrupted id)).forest.inFlight ⟨id, none⟩ = false := by
  show ((s.forest.modifyState id _).entry id).any _ = false
  rw [RunForest.entry_modifyState, if_pos rfl]
  obtain ⟨⟨p, st⟩, he, hst⟩ := Option.map_eq_some_iff.mp h
  rw [he]
  cases st with
  | main => rfl
  | sub | workflow | subSession => cases hst

theorem not_inFlight_of_turnEnded (h : (s.forest.subSession id).isSome) :
    (s.applyEvent (.subSessionTurnEnded id .interrupted)).forest.inFlight ⟨id, none⟩ = false := by
  show ((s.forest.modifyState id _).entry id).any _ = false
  rw [RunForest.entry_modifyState, if_pos rfl]
  obtain ⟨r, hr⟩ := Option.isSome_iff_exists.mp h
  obtain ⟨⟨p, st⟩, he, hst⟩ := Option.bind_eq_some_iff.mp hr
  rw [he]
  cases st with
  | subSession => rfl
  | main | sub | workflow => exact absurd hst (by simp [RunState.subSession?])

theorem not_begins_of_boundary {newV5 : String → String → String}
    (h : e.AtBoundary newV5) : e.begins ⟨id, none⟩ = false := by
  cases e <;> first | rfl | exact h.elim

theorem not_inFlight_applyAll {events : List SessionDomainEvent}
    (hb : ∀ e ∈ events, e.begins w = false) (h : s.forest.inFlight w = false) :
    (s.applyAll events).forest.inFlight w = false := by
  refine Bool.eq_false_iff.mpr fun hin => ?_
  rcases inFlight_applyAll hin with hin | ⟨e, he, hbegin⟩
  · exact absurd (h.symm.trans hin) Bool.false_ne_true
  · exact absurd ((hb e he).symm.trans hbegin) Bool.false_ne_true

/-- A turn whose interruption is what a repair records first is over after it. -/
theorem not_inFlight_of_interrupted
    (h : (s.applyEvent e).forest.inFlight ⟨id, none⟩ = false) :
    (s.applyAll (s.persistAndAdvance env [e]).events).forest.inFlight ⟨id, none⟩ = false := by
  rw [persistAndAdvance_events, applyAll_append]
  refine not_inFlight_applyAll (fun x hx => ?_) h
  exact not_begins_of_boundary (atBoundary_flushThenDrain x hx)

/-- All that a repair is about and is in flight as it is handled is over after it. -/
theorem repair_ends (hroot : s.Rooted env.id) (hc : s.Covers k w)
    (hw : s.forest.inFlight w = true) :
    (s.applyAll (s.handleCommand env k.command).events).forest.inFlight w = false := by
  obtain ⟨entry, execution⟩ := w
  cases hspec : s.spec with
  | none =>
    rw [hroot.untold hspec] at hw
    cases hw
  | some spec =>
    rw [handleCommand_of_told (hspec ▸ rfl)]
    cases k with
    | runs =>
      obtain ⟨hsome, hcur⟩ := hc
      obtain ⟨index, rfl⟩ := Option.isSome_iff_exists.mp hsome
      obtain ⟨v, hv, hcur⟩ := Option.bind_eq_some_iff.mp hcur
      have hp : s.forest.progress entry = some (v.graph, v.run) :=
        RunForest.progress_eq_some.mpr ⟨v, hv, rfl, rfl⟩
      rw [RunForest.inFlight_execution]
      show ((s.applyAll s.reconciledSteps).forest.progress entry).any _ = false
      rw [progress_reconciledSteps hp]
      show v.run.interrupt.isRunningAt index = false
      unfold WorkflowRunState.interrupt
      rw [hcur]
      refine Bool.eq_false_iff.mpr fun hrunning => ?_
      exact (WorkflowRunState.isRunningAt_modifyStep (by simp) hrunning).1 rfl
    | subAgents =>
      obtain ⟨rfl, hsub⟩ := hc
      obtain ⟨sub, hs⟩ := Option.isSome_iff_exists.mp hsub
      obtain ⟨⟨parent, st⟩, he, hst⟩ := Option.bind_eq_some_iff.mp hs
      have hmem : entry ∈ s.forest.interruptedSubs := by
        refine List.mem_map.mpr ⟨(entry, sub), List.mem_filter.mpr ⟨?_, ?_⟩, rfl⟩
        · refine List.mem_filterMap.mpr ⟨(entry, ⟨parent, st⟩), Map.mem_toPairs.mpr he, ?_⟩
          show st.sub?.map _ = _
          rw [hst]
          rfl
        · change (s.forest.entry entry).any _ = true at hw
          rw [he] at hw
          cases st with
          | sub r =>
            cases hst
            exact hw
          | main | workflow | subSession => exact absurd hst (by simp [RunState.sub?])
      show (s.applyAll s.reconciledSubs).forest.inFlight _ = false
      obtain ⟨pre, post, hsplit⟩ := List.append_of_mem hmem
      unfold reconciledSubs
      rw [hsplit, List.map_append, applyAll_append, List.map_cons]
      show ((s.applyAll (pre.map _)).applyEvent _ |>.applyAll (post.map _)).forest.inFlight _ =
        false
      have hplain : ∀ ids : List String, ∀ e ∈ ids.map fun id =>
          SessionDomainEvent.subAgentFailed id interruptedError, Steady env.newV5 e := by
        intro ids e he
        obtain ⟨id, -, rfl⟩ := List.mem_map.mp he
        exact steady_of_isQuiet rfl
      refine not_inFlight_applyAll (fun e he => ?_) (@not_inFlight_of_subFailed _ _ _ parent ?_)
      · obtain ⟨id, -, rfl⟩ := List.mem_map.mp he
        rfl
      · rw [shape_applyAll_steady (hplain pre), RunForest.shape, he]
        cases st with
        | sub => rfl
        | main | workflow | subSession => exact absurd hst (by simp [RunState.sub?])
    | turn agent =>
      obtain ⟨rfl, hc⟩ := hc
      show (s.applyAll (s.onTurnEnd env agent .interrupted).events).forest.inFlight _ = false
      unfold onTurnEnd
      rcases hc with ⟨hkey, hr⟩ | ⟨hkey, rfl, hsome⟩
      · rw [hkey]
        obtain ⟨hturn, hshape⟩ := mainTurn_of_inFlight hroot hr hw
        obtain rfl : entry = env.id := (hroot.main entry _ hshape).1
        show (s.applyAll (s.onMainOutcome env .interrupted).events).forest.inFlight _ = false
        unfold onMainOutcome
        rw [if_pos hturn]
        exact not_inFlight_of_interrupted (not_inFlight_of_turnInterrupted hshape)
      · rw [hkey]
        obtain ⟨r, hsub⟩ := Option.isSome_iff_exists.mp hsome
        have hrunning : (s.forest.subSession entry).any (·.status = .running) = true := by
          obtain ⟨⟨parent, st⟩, he, hst⟩ := Option.bind_eq_some_iff.mp hsub
          change (s.forest.entry entry).any _ = true at hw
          rw [he] at hw
          rw [hsub]
          cases st with
          | subSession r' =>
            cases hst
            exact hw
          | main | workflow | sub => exact absurd hst (by simp [RunState.subSession?])
        show (s.applyAll (s.onSubSessionOutcome env entry .interrupted).events).forest.inFlight _ =
          false
        unfold onSubSessionOutcome
        rw [if_pos hrunning]
        exact not_inFlight_of_interrupted (not_inFlight_of_turnEnded hsome)

/-! ## What a repair spares -/

/-- What is recorded as interrupted was in flight in `s₀`, and what was begun since runs on. -/
structure Spares (s₀ s : SessionState) (begun : Work → Prop)
    (events : List SessionDomainEvent) : Prop where
  old : ∀ e ∈ events, ∀ w, e.interrupts = some w → s₀.forest.inFlight w = true
  new : ∀ w, begun w → s.forest.inFlight w = true →
    (s.applyAll events).forest.inFlight w = true

/-- A repair spares what was begun since the load exactly if nothing it is about is in flight as it
is handled that a command handled before it began. -/
theorem load_repair_spares_iff (id : String) (newV5 : String → String → String)
    (hderived : ∀ run index, WorkflowRunSpec.stepAgentId newV5 run index ≠ id)
    {s₀ s : SessionState} {tr : List (SessionState × (Env × SessionCommand) × SessionState)}
    (hloaded : (running id newV5).Reachable s₀) (h : (running id newV5).Exec s₀ tr s) (env : Env)
    (k : Repair) :
    Spares s₀ s (Begun id newV5 tr) (s.handleCommand (env.serving id newV5) k.command).events ↔
      ∀ w, s.Covers k w → s.forest.inFlight w = true → ¬ Begun id newV5 tr w := by
  have hroot : s.Rooted (env.serving id newV5).id :=
    rooted_of_reachable hderived (h.reachable hloaded)
  constructor
  · intro hspares w hc hw hbegun
    have hends := repair_ends hroot hc hw
    exact absurd (hends.symm.trans (hspares.new w hbegun hw)) Bool.false_ne_true
  · intro hnone
    have hcovered : ∀ e ∈ (s.handleCommand (env.serving id newV5) k.command).events, ∀ w,
        e.interrupts = some w → s.Covers k w ∧ s.forest.inFlight w = true := by
      intro e he w hint
      rcases repair_records hroot he with ⟨w', hint', hc, hw⟩ | hboundary
      · cases hint.symm.trans hint'
        exact ⟨hc, hw⟩
      · cases e with
        | stepStarted | runFinished | runFailed | runNotified | subAgentNotified => cases hint
        | _ => exact hboundary.elim
    refine ⟨fun e he w hint => ?_, fun w hbegun hw => ?_⟩
    · obtain ⟨hc, hw⟩ := hcovered e he w hint
      exact (inFlight_of_exec h hw).resolve_right (hnone w hc hw)
    · refine @inFlight_applyAll_kept _ _ newV5 _ (fun e he => ?_) (fun e he hint => ?_) hw
      · rcases repair_records hroot he with ⟨w', hint', -⟩ | hboundary
        · exact .inl (hint' ▸ rfl)
        · exact .inr hboundary
      · exact hnone w (hcovered e he w hint).1 hw hbegun

theorem reconcile_mem_repairs (h : s.forest.hasStepInFlight = true) :
    Repair.runs.command ∈ s.repairs := by
  unfold repairs repairRuns
  rw [if_pos h]
  exact List.mem_append_left _ (List.mem_append_right _ (List.mem_singleton_self _))

/-- A load finds a step in flight, and a subagent is spawned before that is repaired: the step is
cancelled, and the subagent runs on. -/
theorem load_repair_spares_spawned :
    ∃ s₀ s tr, (running "s" joined).Reachable s₀ ∧ (running "s" joined).Exec s₀ tr s ∧
      Repair.runs.command ∈ s₀.repairs ∧ Begun "s" joined tr ⟨"2", none⟩ ∧
      Spares s₀ s (Begun "s" joined tr)
        (s.handleCommand ((Env.plain "3").serving "s" joined) Repair.runs.command).events := by
  let ls : List (Env × SessionCommand) :=
    [(.plain "1", .core (.create twoSteps none none)), (.plain "1", .run .advance)]
  let s₀ := (System.steps? serve? .empty ls).get (by decide +kernel)
  let l : Env × SessionCommand := (.plain "2", .subAgent (.spawn "s/step:0" "look" "look" none))
  let s := (serve? s₀ l).get (by decide +kernel)
  obtain ⟨tr₀, htr₀, -⟩ := exec_serve? (t := s₀) (Option.some_get _).symm
  have hloaded : (running "s" joined).Reachable s₀ := htr₀.reachable (.init rfl)
  have htr : (running "s" joined).Exec s₀ [(s₀, l, s)] s :=
    .single (step_of_serve? (Option.some_get _).symm)
  have hevents : (s₀.handleCommand ((Env.plain "2").serving "s" joined) l.2).events =
      [.subAgentSpawned "2" "s/step:0" "look" "look" none] := by decide +kernel
  refine ⟨s₀, s, _, hloaded, htr, reconcile_mem_repairs (by decide +kernel),
    ⟨_, List.mem_singleton_self _, ?_⟩, ?_⟩
  · show ∃ e ∈ (s₀.handleCommand ((Env.plain "2").serving "s" joined) l.2).events, _
    rw [hevents]
    exact ⟨_, List.mem_singleton_self _, rfl⟩
  · refine (load_repair_spares_iff "s" joined (joined_ne rfl) hloaded htr _ .runs).mpr ?_
    rintro ⟨entry, execution⟩ ⟨hexecution, -⟩ - ⟨x, hx, e, he, hbegins⟩
    obtain rfl := List.mem_singleton.mp hx
    change e ∈ (s₀.handleCommand ((Env.plain "2").serving "s" joined) l.2).events at he
    rw [hevents] at he
    obtain rfl := List.mem_singleton.mp he
    obtain ⟨index, rfl⟩ := Option.isSome_iff_exists.mp hexecution
    cases hbegins

/-- A load finds a step in flight, and it is retried before that is repaired: the repair cancels the
execution the retry began. -/
theorem retried_step_interrupted :
    ¬ ∀ s₀ s tr env k, (running "s" joined).Reachable s₀ → (running "s" joined).Exec s₀ tr s →
      Repair.command k ∈ s₀.repairs → Spares s₀ s (Begun "s" joined tr)
        (s.handleCommand (Env.serving env "s" joined) k.command).events := by
  let ls : List (Env × SessionCommand) :=
    [(.plain "1", .core (.create twoSteps none none)), (.plain "1", .run .advance)]
  let s₀ := (System.steps? serve? .empty ls).get (by decide +kernel)
  let l : Env × SessionCommand := (.plain "1", .run (.retryStep 0))
  let s := (serve? s₀ l).get (by decide +kernel)
  obtain ⟨tr₀, htr₀, -⟩ := exec_serve? (t := s₀) (Option.some_get _).symm
  have hloaded : (running "s" joined).Reachable s₀ := htr₀.reachable (.init rfl)
  have htr : (running "s" joined).Exec s₀ [(s₀, l, s)] s :=
    .single (step_of_serve? (Option.some_get _).symm)
  intro hall
  have hspares := hall s₀ s _ (.plain "1") .runs hloaded htr
    (reconcile_mem_repairs (by decide +kernel))
  have hevents : (s.handleCommand ((Env.plain "1").serving "s" joined) Repair.runs.command).events =
      [.stepCancelled "s" 1] := by decide +kernel
  have hold := hspares.old (.stepCancelled "s" 1) (hevents ▸ List.mem_singleton_self _) _ rfl
  exact absurd hold (by decide +kernel)

end SessionState

end Horsie.Session
