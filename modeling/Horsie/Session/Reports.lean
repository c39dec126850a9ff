import Horsie.Session.Fixpoint

/-!
# What a child owes

A child that ends owes its parent a report until one is recorded as sent, or until it works again or
is gone. `SessionState.marks` is what an event means for one child, and the marks of a session read
one after another keep a book: a report is recorded of an end that is owed, and of no end twice
(`turns_marks`). What is sent is what is recorded, save by a process that dies before it writes.
-/

namespace Horsie.Session

open Lib

/-! ## What is owed -/

/-- Whether work is over and its report not recorded. -/
def RunState.isOwed : RunState → Bool
  | .sub r => !(r.status = .running || r.notified)
  | .workflow w => w.run.status.isTerminal && !w.notified
  | .main _ | .subSession _ => false

/-- What becomes of the report of a child: it is due, it is recorded as sent, or it is due no more
for another reason. -/
inductive Mark
  | ended
  | told
  | dropped
deriving DecidableEq

/-- Whether a report is due after a mark. It is told or dropped where it is due. -/
def Mark.turn : Bool → Mark → Option Bool
  | false, .ended => some true
  | true, .told | true, .dropped => some false
  | false, .told | false, .dropped | true, .ended => none

namespace RunState

theorem isOwed_mapMain (g : MainRun → MainRun) (x : RunState) :
    (x.mapMain g).isOwed = x.isOwed := by
  cases x <;> rfl

theorem isOwed_mapSubSession (g : SubSessionRun → SubSessionRun) (x : RunState) :
    (x.mapSubSession g).isOwed = x.isOwed := by
  cases x <;> rfl

end RunState

theorem owedPart_isSome {env : Env} {k : String} {x : RunState} :
    (owedPart env k x).isSome = x.isOwed := by
  cases x with
  | sub r =>
    show (if (decide (r.status = .running) || r.notified) = true then none else _).isSome =
      !(decide (r.status = .running) || r.notified)
    split_ifs with h
    · rw [h]
      rfl
    · rw [Bool.eq_false_iff.mpr h]
      rfl
  | workflow w =>
    show (if (!w.run.status.isTerminal || w.notified) = true then none else _).isSome =
      (w.run.status.isTerminal && !w.notified)
    cases w.run.status.isTerminal <;> cases w.notified <;> rfl
  | main | subSession => rfl

namespace RunForest

variable {f : RunForest} {k id : String} {g : RunState → RunState}

/-- Whether the report of `k` is due to its parent. -/
def owes (f : RunForest) (k : String) : Bool :=
  (f.entry k).any fun e => e.parent.isSome && e.state.isOwed

theorem owes_eq_true : f.owes k = true ↔
    ∃ e, f.entry k = some e ∧ e.parent.isSome = true ∧ e.state.isOwed = true := by
  unfold owes
  rw [Option.any_eq_true_iff_get]
  constructor
  · rintro ⟨hsome, h⟩
    exact ⟨_, (Option.some_get hsome).symm, Bool.and_eq_true_iff.mp h⟩
  · rintro ⟨e, he, h⟩
    refine ⟨by rw [he]; rfl, ?_⟩
    simp [he, h]

theorem owes_of_entry {e : RunEntry} (h : f.entry k = some e) :
    f.owes k = (e.parent.isSome && e.state.isOwed) := by
  unfold owes
  rw [h]
  rfl

theorem owes_of_none (h : f.entry k = none) : f.owes k = false := by
  unfold owes
  rw [h]
  rfl

theorem owes_congr {f' : RunForest} (h : f'.entry k = f.entry k) : f'.owes k = f.owes k := by
  unfold owes
  rw [h]

theorem owes_modifyState_of_ne (h : k ≠ id) : (f.modifyState id g).owes k = f.owes k :=
  owes_congr (by rw [entry_modifyState, if_neg h])

theorem owes_modifyState {e : RunEntry} (h : f.entry k = some e) :
    (f.modifyState k g).owes k = (e.parent.isSome && (g e.state).isOwed) := by
  have hentry : (f.modifyState k g).entry k = some { e with state := g e.state } := by
    rw [entry_modifyState, if_pos rfl, h]
    rfl
  exact owes_of_entry hentry

theorem owes_modifyState_of_none (h : f.entry k = none) :
    (f.modifyState id g).owes k = f.owes k := by
  refine owes_congr ?_
  rw [entry_modifyState, h]
  exact ite_self _

theorem owes_modifyState_of_isOwed (hg : ∀ x, (g x).isOwed = x.isOwed) :
    (f.modifyState id g).owes k = f.owes k := by
  by_cases hk : k = id
  · subst hk
    cases he : f.entry k with
    | none => exact owes_modifyState_of_none he
    | some e => rw [owes_modifyState he, hg, owes_of_entry he]
  · exact owes_modifyState_of_ne hk

theorem owes_insertEntry_of_ne {parent : Option String} {state : RunState} (h : k ≠ id) :
    (f.insertEntry id parent state).owes k = f.owes k :=
  owes_congr (by rw [entry_insertEntry, if_neg h])

theorem owes_insertEntry {parent : Option String} {state : RunState} :
    (f.insertEntry k parent state).owes k = (parent.isSome && state.isOwed) := by
  have hentry : (f.insertEntry k parent state).entry k = some ⟨parent, state⟩ := by
    rw [entry_insertEntry, if_pos rfl]
  exact owes_of_entry hentry

end RunForest

namespace SessionState

variable (s : SessionState)

/-- Whether the report of `k` is due to its parent. -/
def owes (k : String) : Bool := s.forest.owes k

def ended? : SessionDomainEvent → Option String
  | .subAgentCompleted id _ | .subAgentFailed id _ =>
    if (s.forest.entry id).any fun e => e.parent.isSome && e.state.sub?.isSome then some id
    else none
  | .stepFailed run _ _ | .runFinished run _ | .runFailed run _ =>
    if (s.forest.entry run).any fun e => e.parent.isSome && e.state.workflow?.isSome then some run
    else none
  | _ => none

/-- Whether an event has `k` work again, end again or go. -/
def unseats (k : String) : SessionDomainEvent → Bool
  | .subAgentRunning id => id = k && (s.forest.sub k).isSome
  | .stepStarted run _ _ _ _ _ _ _ | .stepConcluded run _ _ | .stepCancelled run _ =>
    run = k && (s.forest.workflow k).isSome
  | .askRecorded agent => s.forest.agents.lookup agent = some k && (s.forest.workflow k).isSome
  | .agentDeleted id => ((s.forest.applyAgentDeleted id).entry k).isNone
  | .specRecorded id _ | .subAgentSpawned id _ _ _ _ | .runCreated id _ _
  | .subSessionCreated id _ _ _ _ _ _ => id = k
  | event => s.ended? event = some k

/-- What an event means for the report of `k`. -/
def marks (k : String) (event : SessionDomainEvent) : List Mark :=
  (if s.owes k && s.unseats k event then [.dropped] else []) ++
    (if s.ended? event = some k then [.ended] else []) ++
    (if event.notified? = some k then [.told] else [])

/-- What events mean for the report of `k`, each on what those before it made of the session. -/
def marksAll (k : String) : SessionState → List SessionDomainEvent → List Mark
  | _, [] => []
  | s, event :: events => s.marks k event ++ marksAll k (s.applyEvent event) events

/-- Whether the report of `k` is recorded only where it is due, and then due no more. -/
def TellsOwed (k : String) : SessionState → List SessionDomainEvent → Prop
  | _, [] => True
  | s, event :: events =>
    (event.notified? = some k → s.owes k = true ∧ (s.applyEvent event).owes k = false) ∧
      TellsOwed k (s.applyEvent event) events

/-! ## One event -/

section

variable {s} {k : String} {event : SessionDomainEvent}

variable {id : String}

theorem ended?_sub (h : (if (s.forest.entry id).any fun e =>
    e.parent.isSome && e.state.sub?.isSome then some id else none) = some k) :
    id = k ∧ ∃ parent r, s.forest.entry k = some ⟨some parent, .sub r⟩ := by
  obtain ⟨hany, h⟩ := Option.ite_none_right_eq_some.mp h
  obtain rfl := Option.some.inj h
  refine ⟨rfl, ?_⟩
  cases he : s.forest.entry id with
  | none =>
    rw [he] at hany
    cases hany
  | some e =>
    rw [he] at hany
    obtain ⟨parent, state⟩ := e
    obtain ⟨hp, hs⟩ := Bool.and_eq_true_iff.mp hany
    obtain ⟨p, rfl⟩ := Option.isSome_iff_exists.mp hp
    cases state with
    | sub r => exact ⟨p, r, rfl⟩
    | main | workflow | subSession => cases hs

variable {run : String}

theorem ended?_run (h : (if (s.forest.entry run).any fun e =>
    e.parent.isSome && e.state.workflow?.isSome then some run else none) = some k) :
    run = k ∧ ∃ parent w, s.forest.entry k = some ⟨some parent, .workflow w⟩ := by
  obtain ⟨hany, h⟩ := Option.ite_none_right_eq_some.mp h
  obtain rfl := Option.some.inj h
  refine ⟨rfl, ?_⟩
  cases he : s.forest.entry run with
  | none =>
    rw [he] at hany
    cases hany
  | some e =>
    rw [he] at hany
    obtain ⟨parent, state⟩ := e
    obtain ⟨hp, hs⟩ := Bool.and_eq_true_iff.mp hany
    obtain ⟨p, rfl⟩ := Option.isSome_iff_exists.mp hp
    cases state with
    | workflow w => exact ⟨p, w, rfl⟩
    | main | sub | subSession => cases hs

theorem sub_isSome_iff : (s.forest.sub k).isSome = true ↔
    ∃ parent r, s.forest.entry k = some ⟨parent, .sub r⟩ := by
  unfold RunForest.sub
  cases s.forest.entry k with
  | none => simp
  | some e =>
    obtain ⟨parent, state⟩ := e
    cases state <;> simp [RunState.sub?]

theorem workflow_entry_iff : (s.forest.workflow k).isSome = true ↔
    ∃ parent w, s.forest.entry k = some ⟨parent, .workflow w⟩ := by
  unfold RunForest.workflow
  cases s.forest.entry k with
  | none => simp
  | some e =>
    obtain ⟨parent, state⟩ := e
    cases state <;> simp [RunState.workflow?]

theorem owes_of_ended (h : s.ended? event = some k) : (s.applyEvent event).owes k = true := by
  cases event with
  | subAgentCompleted id | subAgentFailed id =>
    obtain ⟨rfl, parent, r, he⟩ := ended?_sub h
    exact (RunForest.owes_modifyState he).trans rfl
  | stepFailed run | runFinished run | runFailed run =>
    obtain ⟨rfl, parent, w, he⟩ := ended?_run h
    exact (RunForest.owes_modifyState he).trans rfl
  | _ => exact absurd h (by simp [ended?])

theorem owes_modifyRun {change : WorkflowRunState → WorkflowRunState}
    (hk : run = k) (hw : (s.forest.workflow k).isSome = true)
    (hterminal : ∀ w, (change w).status.isTerminal = false) :
    (s.forest.modifyRun run change).owes k = false := by
  subst hk
  obtain ⟨parent, w, he⟩ := workflow_entry_iff.mp hw
  refine (RunForest.owes_modifyState he).trans ?_
  show (_ && ((change w.run).status.isTerminal && _)) = false
  rw [hterminal, Bool.false_and, Bool.and_false]

theorem not_owes_of_unseats (h : s.unseats k event = true) (hended : s.ended? event ≠ some k) :
    (s.applyEvent event).owes k = false := by
  cases event with
  | subAgentRunning id =>
    obtain ⟨rfl, hsub⟩ : id = k ∧ (s.forest.sub k).isSome = true := by simpa [unseats] using h
    obtain ⟨parent, r, he⟩ := sub_isSome_iff.mp hsub
    exact (RunForest.owes_modifyState he).trans (Bool.and_false _)
  | stepStarted run _ step agent attempt origin via input =>
    obtain ⟨hk, hw⟩ : run = k ∧ (s.forest.workflow k).isSome = true := by simpa [unseats] using h
    show (s.forest.modifyRun run (·.applyStarted step agent attempt origin via input)).owes k = _
    exact owes_modifyRun hk hw fun _ => rfl
  | stepConcluded run =>
    obtain ⟨hk, hw⟩ : run = k ∧ (s.forest.workflow k).isSome = true := by simpa [unseats] using h
    exact owes_modifyRun hk hw fun _ => rfl
  | stepCancelled run =>
    obtain ⟨hk, hw⟩ : run = k ∧ (s.forest.workflow k).isSome = true := by simpa [unseats] using h
    exact owes_modifyRun hk hw fun _ => rfl
  | askRecorded agent =>
    obtain ⟨hk, hw⟩ : s.forest.agents.lookup agent = some k ∧
        (s.forest.workflow k).isSome = true := by simpa [unseats] using h
    obtain ⟨parent, w, he⟩ := workflow_entry_iff.mp hw
    show (s.forest.applyAsked agent).owes k = false
    unfold RunForest.applyAsked
    rw [hk]
    exact (RunForest.owes_modifyState he).trans (Bool.and_false _)
  | agentDeleted id =>
    exact RunForest.owes_of_none (Option.isNone_iff_eq_none.mp h)
  | specRecorded session spec =>
    obtain rfl : session = k := of_decide_eq_true h
    obtain ⟨kind, runtime⟩ := spec
    cases kind with
    | agent | workflow => exact RunForest.owes_insertEntry
  | subAgentSpawned id | runCreated id | subSessionCreated id =>
    obtain rfl : id = k := of_decide_eq_true h
    exact RunForest.owes_insertEntry
  | _ => exact absurd (by simpa [unseats] using h) hended

theorem owes_modifySub_of_not {change : SubAgentRun → SubAgentRun}
    (h : ∀ parent r, id = k → s.forest.entry k ≠ some ⟨some parent, .sub r⟩) :
    (s.forest.modifySub id change).owes k = s.owes k := by
  by_cases hk : k = id
  · subst hk
    cases he : s.forest.entry k with
    | none => exact RunForest.owes_modifyState_of_none he
    | some e =>
      refine (RunForest.owes_modifyState he).trans ?_
      refine Eq.trans ?_ (RunForest.owes_of_entry he).symm
      obtain ⟨parent, state⟩ := e
      cases state with
      | sub r =>
        cases parent with
        | none => rfl
        | some parent => exact absurd he (h parent r rfl)
      | main | workflow | subSession => rfl
  · exact RunForest.owes_modifyState_of_ne hk

theorem owes_modifyWorkflow_of_not {change : WorkflowRun → WorkflowRun}
    (h : ∀ parent w, run = k → s.forest.entry k ≠ some ⟨some parent, .workflow w⟩) :
    (s.forest.modifyWorkflow run change).owes k = s.owes k := by
  by_cases hk : k = run
  · subst hk
    cases he : s.forest.entry k with
    | none => exact RunForest.owes_modifyState_of_none he
    | some e =>
      refine (RunForest.owes_modifyState he).trans ?_
      refine Eq.trans ?_ (RunForest.owes_of_entry he).symm
      obtain ⟨parent, state⟩ := e
      cases state with
      | workflow w =>
        cases parent with
        | none => rfl
        | some parent => exact absurd he (h parent w rfl)
      | main | sub | subSession => rfl
  · exact RunForest.owes_modifyState_of_ne hk

theorem ended?_of_sub {parent : String} {r : SubAgentRun}
    (he : s.forest.entry id = some ⟨some parent, .sub r⟩) :
    (if (s.forest.entry id).any fun e => e.parent.isSome && e.state.sub?.isSome then some id
      else none) = some id := by
  rw [he]
  rfl

theorem ended?_of_run {parent : String} {w : WorkflowRun}
    (he : s.forest.entry run = some ⟨some parent, .workflow w⟩) :
    (if (s.forest.entry run).any fun e => e.parent.isSome && e.state.workflow?.isSome then some run
      else none) = some run := by
  rw [he]
  rfl

theorem owes_of_not_unseats (h : s.unseats k event = false) (hn : event.notified? ≠ some k) :
    (s.applyEvent event).owes k = s.owes k := by
  have hrun {run : String} {change : WorkflowRunState → WorkflowRunState}
      (h : (decide (run = k) && (s.forest.workflow k).isSome) = false) :
      (s.forest.modifyRun run change).owes k = s.owes k := by
    refine owes_modifyWorkflow_of_not fun parent w hk he => ?_
    rw [workflow_entry_iff.mpr ⟨_, w, he⟩, Bool.and_true] at h
    exact of_decide_eq_false h hk
  cases event with
  | subAgentRunning id =>
    refine owes_modifySub_of_not fun parent r hk he => ?_
    change (decide (id = k) && (s.forest.sub k).isSome) = false at h
    rw [sub_isSome_iff.mpr ⟨_, r, he⟩, Bool.and_true] at h
    exact of_decide_eq_false h hk
  | subAgentCompleted id output | subAgentFailed id error =>
    refine owes_modifySub_of_not fun parent r hk he => ?_
    subst hk
    exact of_decide_eq_false h (ended?_of_sub he)
  | subAgentNotified child =>
    exact owes_modifySub_of_not fun parent r hk he => hn (congrArg some hk)
  | stepStarted run _ step agent attempt origin via input =>
    show (s.forest.modifyRun run (·.applyStarted step agent attempt origin via input)).owes k = _
    exact hrun h
  | stepConcluded | stepCancelled => exact hrun h
  | stepFailed run | runFinished run | runFailed run =>
    refine owes_modifyWorkflow_of_not fun parent w hk he => ?_
    subst hk
    exact of_decide_eq_false h (ended?_of_run he)
  | runNotified child =>
    exact owes_modifyWorkflow_of_not fun parent r hk he => hn (congrArg some hk)
  | askRecorded agent =>
    show (s.forest.applyAsked agent).owes k = _
    unfold RunForest.applyAsked
    cases hagent : s.forest.agents.lookup agent with
    | none => rfl
    | some host =>
      by_cases hk : host = k
      · subst hk
        cases he : s.forest.entry host with
        | none => exact RunForest.owes_modifyState_of_none he
        | some e =>
          refine (RunForest.owes_modifyState he).trans ?_
          refine Eq.trans ?_ (RunForest.owes_of_entry he).symm
          obtain ⟨parent, state⟩ := e
          cases state with
          | workflow w =>
            change (decide (s.forest.agents.lookup agent = some host) && _) = false at h
            rw [workflow_entry_iff.mpr ⟨_, w, he⟩, Bool.and_true] at h
            exact absurd hagent (of_decide_eq_false h)
          | main | sub | subSession => rfl
      · exact RunForest.owes_modifyState_of_ne fun heq => hk heq.symm
  | agentDeleted id =>
    apply RunForest.owes_congr
    change ((s.forest.applyAgentDeleted id).entry k).isNone = false at h
    show (s.forest.applyAgentDeleted id).entry k = _
    by_cases hid : s.forest.Removable id
    · rw [RunForest.entry_deleted hid] at h ⊢
      split_ifs at h ⊢
      · cases h
      · rfl
    · rw [RunForest.applyAgentDeleted_of_not hid]
  | specRecorded session spec =>
    have hne : k ≠ session := fun heq => of_decide_eq_false h heq.symm
    obtain ⟨kind, runtime⟩ := spec
    cases kind with
    | agent | workflow => exact RunForest.owes_insertEntry_of_ne hne
  | subAgentSpawned id | runCreated id | subSessionCreated id =>
    exact RunForest.owes_insertEntry_of_ne fun heq => of_decide_eq_false h heq.symm
  | renamed name =>
    show (s.forest.applyMainTitled name).owes k = _
    unfold RunForest.applyMainTitled
    split
    · exact RunForest.owes_modifyState_of_isOwed (RunState.isOwed_mapMain _)
    · rfl
  | runtimeRequested =>
    refine RunForest.owes_modifyState_of_isOwed fun x => ?_
    cases x <;> rfl
  | provisioningFailed runtime error terminal => cases terminal <;> rfl
  | turnBegan | turnEnded | turnStopped | turnInterrupted | turnFailed =>
    exact RunForest.owes_modifyState_of_isOwed (RunState.isOwed_mapMain _)
  | subSessionSeeded | subSessionStatusChanged | subSessionTurnEnded =>
    exact RunForest.owes_modifyState_of_isOwed (RunState.isOwed_mapSubSession _)
  | provisioningStarted | provisioningProgress | provisioningSucceeded | sessionFailed
  | usageRecorded => rfl

theorem not_notified_of_ended (h : s.ended? event = some k) : event.notified? = none := by
  cases event <;> first | rfl | exact absurd h (by simp [ended?])

theorem unseats_of_ended (h : s.ended? event = some k) : s.unseats k event = true := by
  cases event <;> first | exact decide_eq_true h | exact absurd h (by simp [ended?])

theorem not_unseats_of_notified (h : event.notified? = some k) : s.unseats k event = false := by
  cases event <;> first | rfl | exact absurd h (by simp [SessionDomainEvent.notified?])

/-- The marks of an event lead from what was due before it to what is due after it. -/
theorem turns_event (ht : event.notified? = some k →
      s.owes k = true ∧ (s.applyEvent event).owes k = false) :
    (s.marks k event).foldlM Mark.turn (s.owes k) = some ((s.applyEvent event).owes k) := by
  unfold marks
  by_cases hended : s.ended? event = some k
  · rw [if_pos hended, not_notified_of_ended hended, unseats_of_ended hended, Bool.and_true,
      owes_of_ended hended]
    cases s.owes k <;> rfl
  · rw [if_neg hended]
    by_cases hn : event.notified? = some k
    · rw [if_pos hn, not_unseats_of_notified hn, Bool.and_false, (ht hn).1, (ht hn).2]
      rfl
    · rw [if_neg hn]
      cases hu : s.unseats k event with
      | true =>
        rw [not_owes_of_unseats hu hended, Bool.and_true]
        cases s.owes k <;> rfl
      | false =>
        rw [owes_of_not_unseats hu hn, Bool.and_false]
        rfl

theorem turns_marks {events : List SessionDomainEvent} (ht : TellsOwed k s events) :
    (marksAll k s events).foldlM Mark.turn (s.owes k) = some ((s.applyAll events).owes k) := by
  induction events generalizing s with
  | nil => rfl
  | cons event events ih =>
    show (s.marks k event ++ marksAll k (s.applyEvent event) events).foldlM _ _ = _
    rw [List.foldlM_append, turns_event ht.1]
    exact ih ht.2

theorem count_marks {events : List SessionDomainEvent} : (marksAll k s events).count .told =
    (events.filterMap SessionDomainEvent.notified?).count k := by
  induction events generalizing s with
  | nil => rfl
  | cons event events ih =>
    show (s.marks k event ++ marksAll k (s.applyEvent event) events).count .told = _
    rw [List.count_append, ih, List.filterMap_cons]
    unfold marks
    cases hn : event.notified? with
    | none => split_ifs <;> simp_all
    | some child =>
      by_cases hk : child = k
      · subst hk
        split_ifs <;> simp_all [Nat.add_comm]
      · split_ifs <;> simp_all

/-! ## What is recorded before a boundary -/

variable {env : Env} {c : SessionCommand} {events : List SessionDomainEvent} {agent : String}

theorem tellsOwed_append {later : List SessionDomainEvent} : TellsOwed k s (events ++ later) ↔
    TellsOwed k s events ∧ TellsOwed k (s.applyAll events) later := by
  induction events generalizing s with
  | nil => exact ⟨fun h => ⟨trivial, h⟩, fun h => h.2⟩
  | cons event events ih =>
    show (_ ∧ TellsOwed k _ (events ++ later)) ↔ (_ ∧ TellsOwed k _ events) ∧ _
    rw [ih, and_assoc]
    rfl

theorem tellsOwed_of_not_mem (h : k ∉ events.filterMap SessionDomainEvent.notified?) :
    TellsOwed k s events := by
  induction events generalizing s with
  | nil => trivial
  | cons event events ih =>
    refine ⟨fun hn => ?_, ih fun hk => h ?_⟩
    · exact absurd (List.mem_filterMap.mpr ⟨event, List.mem_cons_self, hn⟩) h
    · obtain ⟨e, he, hn⟩ := List.mem_filterMap.mp hk
      exact List.mem_filterMap.mpr ⟨e, List.mem_cons_of_mem _ he, hn⟩

theorem notified?_of_isCut (h : event.isCut = true) : event.notified? = none := by
  cases event <;> first | rfl | exact absurd h Bool.false_ne_true

theorem Restarted.unreported {target : StepRun}
    (h : s.Restarted env run target events) : ∀ e ∈ events, e.notified? = none := by
  intro e he
  cases h with
  | started | failed => exact List.mem_singleton.mp he ▸ rfl

theorem Recorded.unreported (h : s.Recorded env c events) : ∀ e ∈ events, e.notified? = none := by
  intro e he
  cases h with
  | calm h => exact SessionDomainEvent.notified?_of_isCalm (h e he)
  | provisioned hc hp =>
    rename_i requested
    cases requested with
    | true =>
      rcases List.mem_append.mp he with he | he <;> exact List.mem_singleton.mp he ▸ rfl
    | false => exact List.mem_singleton.mp he ▸ rfl
  | finished =>
    rename_i error _ _
    cases error <;> exact List.mem_singleton.mp he ▸ rfl
  | specified spec name =>
    rcases List.mem_cons.mp he with rfl | he
    · rfl
    · obtain ⟨title, -, rfl⟩ := Option.map_eq_some_iff.mp (Option.mem_toList.mp he)
      rfl
  | created | spawned | branched | deleted | asked => exact List.mem_singleton.mp he ▸ rfl
  | reported =>
    rename_i turn _ _ _
    cases turn with
    | concluded | asked | failed => exact List.mem_singleton.mp he ▸ rfl
    | parked | interrupted => cases he
  | stopped hc hk hs => exact notified?_of_isCut (stopBelow_cut hs e he)
  | reconciled =>
    obtain ⟨x, -, rfl⟩ := List.mem_map.mp he
    rfl
  | retried hc hroot hw ht hcur h => exact h.unreported e he
  | superseded hc hroot hw ht hcur hstep h =>
    rcases List.mem_append.mp he with he | he
    · exact notified?_of_isCut (superseded_cut e he)
    · exact h.unreported e he

/-! ## What a boundary records -/

variable {a : AgentAction} {as : List AgentAction} {d : Delivery}

theorem notified_perform :
    (s.perform env a).events.filterMap SessionDomainEvent.notified? = (delivers? env a).toList := by
  rw [← delivered_perform (s := s)]
  exact (matched_perform a).reports.symm

theorem notified_performAll :
    (performAll env s as).events.filterMap SessionDomainEvent.notified? =
      as.filterMap (delivers? env) := by
  rw [← delivered_performAll (s := s)]
  exact (matched_performAll as).reports.symm

theorem Paid.not_owes (h : s.Paid env k) : s.owes k = false := by
  cases he : s.forest.entry k with
  | none => exact RunForest.owes_of_none he
  | some e =>
    refine (RunForest.owes_of_entry he).trans ?_
    rw [← @owedPart_isSome env k e.state, h e he]
    exact Bool.and_false _

theorem owes_of_owed (h : .deliver d ∈ s.owedDeliveries env) : s.owes d.child = true := by
  obtain ⟨e, parent, he, hp, hpart, -⟩ := mem_owedDeliveries.mp h
  refine (RunForest.owes_of_entry he).trans ?_
  rw [← @owedPart_isSome env d.child e.state, hp, hpart]
  rfl

/-- An action that neither reports a child nor is about it leaves its entry. -/
theorem entry_perform_of_not (hr : a.run? ≠ some k) (hd : delivers? env a ≠ some k) :
    (s.applyAll (s.perform env a).events).forest.entry k = s.forest.entry k := by
  by_cases hdeliver : ∃ d, a = .deliver d
  · obtain ⟨d, rfl⟩ := hdeliver
    refine entry_deliver.trans (if_neg ?_)
    rintro ⟨hreach, rfl⟩
    exact hd (delivers?_eq_some.mpr ⟨d, rfl, hreach, rfl⟩)
  · exact entry_perform_other hr fun d heq => hdeliver ⟨d, heq⟩

/-- Actions record a report where it is due, if they report each child once and are not about the
children they report. -/
theorem tellsOwed_performAll (hnodup : (as.filterMap (delivers? env)).Nodup)
    (hr : k ∈ as.filterMap (delivers? env) → s.owes k = true ∧ ∀ a ∈ as, a.run? ≠ some k) :
    TellsOwed k s (performAll env s as).events := by
  induction as generalizing s with
  | nil => trivial
  | cons a as ih =>
    show TellsOwed k s ((s.perform env a).events ++ (performAll env _ as).events)
    rw [tellsOwed_append]
    by_cases hd : delivers? env a = some k
    · -- it is reported here, and by nothing behind
      rw [List.filterMap_cons_some hd, List.nodup_cons] at hnodup
      refine ⟨?_, tellsOwed_of_not_mem (by rw [notified_performAll]; exact hnodup.1)⟩
      obtain ⟨howes, hruns⟩ := hr (by rw [List.filterMap_cons_some hd]; exact List.mem_cons_self)
      obtain ⟨d, rfl, hreach, rfl⟩ := delivers?_eq_some.mp hd
      have hpaid := (paid_deliver (s := s) hreach).not_owes
      change TellsOwed d.child s (s.deliver env d).events
      change (s.applyAll (s.deliver env d).events).owes d.child = false at hpaid
      rcases @deliver_events s env d with he | he | he <;> rw [he] at hpaid ⊢
      · trivial
      · exact ⟨fun _ => ⟨howes, hpaid⟩, trivial⟩
      · exact ⟨fun _ => ⟨howes, hpaid⟩, trivial⟩
    · have hfirst : k ∉ (s.perform env a).events.filterMap SessionDomainEvent.notified? := by
        rw [notified_perform]
        exact fun hk => hd (Option.mem_toList.mp hk)
      refine ⟨tellsOwed_of_not_mem hfirst, ih ?_ fun hk => ?_⟩
      · cases hcons : delivers? env a with
        | none => rwa [List.filterMap_cons_none hcons] at hnodup
        | some child =>
          rw [List.filterMap_cons_some hcons, List.nodup_cons] at hnodup
          exact hnodup.2
      · have hmem : k ∈ (a :: as).filterMap (delivers? env) := by
          obtain ⟨b, hb, hk⟩ := List.mem_filterMap.mp hk
          exact List.mem_filterMap.mpr ⟨b, List.mem_cons_of_mem _ hb, hk⟩
        obtain ⟨howes, hruns⟩ := hr hmem
        refine ⟨?_, fun b hb => hruns b (List.mem_cons_of_mem _ hb)⟩
        refine (RunForest.owes_congr ?_).trans howes
        exact entry_perform_of_not (hruns a List.mem_cons_self) hd

theorem tellsOwed_round : TellsOwed k s (round env s).events := by
  have hnodup := @nodup_delivered_round s env
  unfold round at hnodup ⊢
  rw [delivered_performAll] at hnodup
  refine tellsOwed_performAll hnodup fun hk => ?_
  obtain ⟨a, ha, hk⟩ := List.mem_filterMap.mp hk
  obtain ⟨d, rfl, -, rfl⟩ := delivers?_eq_some.mp hk
  exact ⟨owes_of_owed (mem_nextActions ha), not_decided_of_owed (mem_nextActions ha)⟩

theorem tellsOwed_flushThenDrain : TellsOwed k s (s.flushThenDrain env).events := by
  rw [flushThenDrain_eq]
  exact tellsOwed_append.mpr ⟨tellsOwed_round, tellsOwed_round⟩

theorem tellsOwed_handleCommand : TellsOwed k s (s.handleCommand env c).events := by
  obtain ⟨recorded, hrec, heq | heq⟩ := @handleCommand_journals s env c
  all_goals
    have hnone : k ∉ recorded.filterMap SessionDomainEvent.notified? := by
      rw [List.filterMap_eq_nil_iff.mpr hrec.unreported]
      exact List.not_mem_nil
    rw [heq]
  · exact tellsOwed_of_not_mem hnone
  · exact tellsOwed_append.mpr ⟨tellsOwed_of_not_mem hnone, tellsOwed_flushThenDrain⟩

end

end SessionState

/-! ## Sessions that die -/

/-- The book of one child: what its events meant, how often it was reported to its parent, and how
often that was by a process that died before it wrote what it did. -/
structure Account where
  marks : List Mark
  sent : ℕ
  torn : ℕ
deriving DecidableEq

/-- The session `id` as it is served, by processes that may die: `some n` is a command whose
handling sent the first `n` of its messages and was never written. -/
def perishing (id : String) (newV5 : String → String → String) :
    System SessionState ((Env × SessionCommand) × Option ℕ) where
  Init s := s = .empty
  Step s l t :=
    match l.2 with
    | none => (nesting id newV5).Step s l.1 t
    | some _ => t = s

/-- What handling a command means for the child `k`. -/
def account (id : String) (newV5 : String → String → String) (k : String) (s : SessionState)
    (l : (Env × SessionCommand) × Option ℕ) (_ : SessionState) (x : Account) : Account :=
  let e := s.handleCommand (l.1.1.serving id newV5) l.1.2
  match l.2 with
  | none => ⟨x.marks ++ SessionState.marksAll k s e.events, x.sent + e.reports.count k, x.torn⟩
  | some n =>
    let told := ((e.sent.take n).filterMap Sent.delivered?).count k
    ⟨x.marks, x.sent + told, x.torn + told⟩

/-- The session `id`, with the book of the child `k`. -/
def accounting (id : String) (newV5 : String → String → String) (k : String) :
    System (SessionState × Account) ((Env × SessionCommand) × Option ℕ) :=
  (perishing id newV5).withHistory (account id newV5 k) ⟨[], 0, 0⟩

theorem nesting_of_perishing {id : String} {newV5 : String → String → String} {s : SessionState}
    (h : (perishing id newV5).Reachable s) : (nesting id newV5).Reachable s := by
  refine h.invariant (M := perishing id newV5) (fun s hs => .init hs) ?_
  rintro s ⟨l, torn⟩ t - hs hstep
  cases torn with
  | none => exact hs.step hstep
  | some n => exact hstep ▸ hs

/-- What is promised of the reports of the child `k`. -/
structure Reported (id : String) (newV5 : String → String → String) (k : String)
    (x : SessionState × Account) : Prop where
  /-- Every end is due until it is told or dropped, and is told or dropped once. -/
  book : x.2.marks.foldlM Mark.turn false = some (x.1.owes k)
  sent : x.2.sent = x.2.marks.count .told + x.2.torn
  /-- What is due where a boundary ended has a parent that could not be reached. -/
  boundary : ∀ (env : Env) (s : SessionState),
    x.1 = s.applyAll (s.flushThenDrain (env.serving id newV5)).events →
    (x.1.sessionRuntime id).readyOn = true → x.1.owes k = true →
    ∃ e parent recipient, x.1.forest.entry k = some e ∧ e.parent = some parent ∧
      x.1.agentKeyOf parent = some recipient ∧
      (env.spawns (recipient.agentId id) && env.tells (recipient.agentId id)) = false

namespace SessionState

variable {id k : String} {newV5 : String → String → String} {x : SessionState × Account}

theorem book_of_reachable (h : (accounting id newV5 k).Reachable x) :
    x.2.marks.foldlM Mark.turn false = some (x.1.owes k) := by
  refine h.invariant (I := fun x => x.2.marks.foldlM Mark.turn false = some (x.1.owes k)) ?_ ?_
  · rintro ⟨s, account⟩ ⟨hs, haccount⟩
    change s = .empty at hs
    change account = _ at haccount
    rw [hs, haccount]
    rfl
  · rintro ⟨s, b⟩ ⟨⟨env, c⟩, torn⟩ ⟨t, b'⟩ - hbook ⟨hstep, hb⟩
    change b.marks.foldlM Mark.turn false = some (s.owes k) at hbook
    change b' = _ at hb
    show b'.marks.foldlM Mark.turn false = some (t.owes k)
    rw [hb]
    cases torn with
    | none =>
      obtain ⟨⟨-, rfl⟩, -⟩ := hstep
      show (b.marks ++ _).foldlM Mark.turn false = _
      rw [List.foldlM_append, hbook]
      exact turns_marks tellsOwed_handleCommand
    | some n =>
      change t = s at hstep
      rw [hstep]
      exact hbook

theorem sent_of_reachable (h : (accounting id newV5 k).Reachable x) :
    x.2.sent = x.2.marks.count .told + x.2.torn := by
  refine h.invariant (I := fun x => x.2.sent = x.2.marks.count .told + x.2.torn) ?_ ?_
  · rintro ⟨s, account⟩ ⟨-, haccount⟩
    change account = _ at haccount
    rw [haccount]
    rfl
  · rintro ⟨s, b⟩ ⟨⟨env, c⟩, torn⟩ ⟨t, b'⟩ - hsent ⟨-, hb⟩
    change b.sent = b.marks.count .told + b.torn at hsent
    change b' = _ at hb
    show b'.sent = b'.marks.count .told + b'.torn
    rw [hb]
    cases torn with
    | none =>
      have hreports : (s.handleCommand (env.serving id newV5) c).reports.count k =
          (marksAll k s (s.handleCommand (env.serving id newV5) c).events).count .told := by
        rw [count_marks, matched_handleCommand.reports]
      show b.sent + _ =
        (b.marks ++ marksAll k s (s.handleCommand (env.serving id newV5) c).events).count .told +
          b.torn
      rw [List.count_append, hreports]
      omega
    | some n =>
      show b.sent + _ = b.marks.count .told + (b.torn + _)
      omega

/-- What is due to a parent that is there is tried where a boundary ends. -/
theorem unreached_of_owes {s t : SessionState} {env : Env} (hn : t.Nested newV5)
    (ht : t = s.applyAll (s.flushThenDrain env).events)
    (hready : (t.sessionRuntime env.id).readyOn = true) (howes : t.owes k = true) :
    ∃ e parent recipient, t.forest.entry k = some e ∧ e.parent = some parent ∧
      t.agentKeyOf parent = some recipient ∧
      (env.spawns (recipient.agentId env.id) && env.tells (recipient.agentId env.id)) = false := by
  obtain ⟨e, he, hp, howed⟩ := RunForest.owes_eq_true.mp howes
  obtain ⟨parent, hp⟩ := Option.isSome_iff_exists.mp hp
  obtain ⟨part, hpart⟩ := Option.isSome_iff_exists.mp
    ((@owedPart_isSome env k e.state).trans howed)
  have hshape : t.forest.shape k = some (some parent, e.state.kind) := by
    unfold RunForest.shape
    rw [he, ← hp]
    rfl
  have hkind : e.state.kind ≠ .subSession := by
    intro hkind
    obtain ⟨p, state⟩ := e
    cases state with
    | subSession => cases howed
    | main | sub | workflow => exact absurd hkind (by simp [RunState.kind])
  obtain ⟨host, hhost⟩ := Option.isSome_iff_exists.mp (hn.delegated k parent _ hshape hkind)
  obtain ⟨recipient, hrecipient⟩ : ∃ recipient, t.agentKeyOf parent = some recipient := by
    obtain ⟨x, hx, -⟩ := hn.hosted parent host hhost
    unfold agentKeyOf RunForest.ownerOfAgent
    rw [hhost, Option.bind_some, hx]
    exact ⟨_, rfl⟩
  refine ⟨e, parent, recipient, he, hp, hrecipient, ?_⟩
  have hdue : .deliver ⟨recipient, k, part⟩ ∈ t.nextActions env := by
    unfold nextActions
    rw [if_pos hready]
    exact List.mem_append_left _ (mem_owedDeliveries.mpr ⟨e, parent, he, hp, hpart, hrecipient⟩)
  rw [ht] at hdue
  obtain ⟨d, heq, hreach⟩ := dry_flushThenDrain _ hdue
  cases heq
  exact hreach

end SessionState

/-- A child that ended is owed to its parent until it is recorded as reported, works again, ends
again or is gone; a report is recorded of an end once, and is sent as often as it is recorded but
for processes that died before they wrote it; and a boundary leaves only what reaches nobody. -/
theorem children_reported (id : String) (newV5 : String → String → String) (hd : Derives newV5 id)
    (k : String) {x : SessionState × Account} (h : (accounting id newV5 k).Reachable x) :
    Reported id newV5 k x where
  book := SessionState.book_of_reachable h
  sent := SessionState.sent_of_reachable h
  boundary env s hs hready howes := by
    have hn := SessionState.nested_of_reachable hd (nesting_of_perishing h.fst)
    exact @SessionState.unreached_of_owes k newV5 s x.1 (env.serving id newV5) hn hs hready howes

/-! ### Executions that can be computed -/

/-- The step of the session `s` whose ids are derived by joining, as a function. -/
def perish? (s : SessionState) (l : (Env × SessionCommand) × Option ℕ) : Option SessionState :=
  match l.2 with
  | none => nest? s l.1
  | some _ => some s

theorem step_of_perish? {s t : SessionState} {l : (Env × SessionCommand) × Option ℕ}
    (h : perish? s l = some t) : (perishing "s" joined).Step s l t := by
  obtain ⟨l, torn⟩ := l
  cases torn with
  | none => exact step_of_nest? h
  | some n => exact (Option.some.inj h).symm

/-- The session `s` with the book of its subagent `1`. -/
def report? : SessionState × Account → (Env × SessionCommand) × Option ℕ →
    Option (SessionState × Account) :=
  System.recordStep? (account "s" joined "1") perish?

theorem reachable_of_report? {x : SessionState × Account}
    {ls : List ((Env × SessionCommand) × Option ℕ)}
    (h : System.steps? report? (.empty, ⟨[], 0, 0⟩) ls = some x) :
    (accounting "s" joined "1").Reachable x := by
  obtain ⟨tr, htr, -⟩ := System.exec_of_steps? (M := accounting "s" joined "1")
    (System.recordStep?_sound (M := perishing "s" joined) _ fun _ _ _ => step_of_perish?) h
  exact htr.reachable (.init ⟨rfl, rfl⟩)

/-- A session whose subagent ended, with the main agent out of reach. -/
def unheard : List ((Env × SessionCommand) × Option ℕ) :=
  [((.plain "1", .core (.create ⟨.agent, none⟩ none none)), none),
    ((.plain "1", .subAgent (.spawn "s" "scan" "scan it" none)), none),
    (({ Env.plain "2" with tells := fun _ => false },
      .agentOutcome "1" (.concluded .null)), none)]

/-- The report waits for a boundary that reaches the main agent, and is sent there. -/
theorem children_reported_later : ∃ x, (accounting "s" joined "1").Reachable x ∧
    x.2 = ⟨[.ended, .told], 1, 0⟩ ∧ Reported "s" joined "1" x := by
  let x := (System.steps? report? (.empty, ⟨[], 0, 0⟩)
    (unheard ++ [((Env.plain "2", .run .advance), none)])).get (by decide +kernel)
  have h : (accounting "s" joined "1").Reachable x := reachable_of_report? (Option.some_get _).symm
  exact ⟨x, h, by decide +kernel, children_reported "s" joined (derives_joined rfl) "1" h⟩

/-- A report that was sent by a process that died is sent again, and what is due of a subagent that
is woken is dropped. -/
theorem reports_repeat_and_drop :
    (¬ ∀ x, (accounting "s" joined "1").Reachable x → x.2.sent ≤ x.2.marks.count .ended) ∧
      ¬ ∀ x, (accounting "s" joined "1").Reachable x → (x.1.forest.sub "1").isSome = true →
        .dropped ∉ x.2.marks := by
  constructor
  · let x := (System.steps? report? (.empty, ⟨[], 0, 0⟩)
      (unheard ++ [((Env.plain "2", .run .advance), some 2),
        ((.plain "2", .run .advance), none)])).get (by decide +kernel)
    intro hall
    have h : (accounting "s" joined "1").Reachable x :=
      reachable_of_report? (Option.some_get _).symm
    have hsent : x.2.sent = 2 := by decide +kernel
    have hended : x.2.marks.count .ended = 1 := by decide +kernel
    have hle := hall x h
    omega
  · let x := (System.steps? report? (.empty, ⟨[], 0, 0⟩)
      (unheard ++ [((Env.plain "2", .agentOutcome "1" .started), none)])).get (by decide +kernel)
    intro hall
    have h : (accounting "s" joined "1").Reachable x :=
      reachable_of_report? (Option.some_get _).symm
    exact hall x h (by decide +kernel) (by decide +kernel)

end Horsie.Session
