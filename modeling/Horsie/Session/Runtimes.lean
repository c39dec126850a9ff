import Horsie.Session.Reload

/-!
# The records of runtimes

A session records each runtime it asked for, and for whom. An owner has one record, the entry of the
owner has chosen it, and nobody else has. Only a `Provision` makes a record, and only for an owner
that has none.
-/

namespace Horsie.Session

open Lib

namespace RunForest

variable {f : RunForest} {id k : String} {g : RunState → RunState}

def choice (f : RunForest) (k : String) : Option (Option RuntimeChoice) :=
  (f.entry k).map (·.state.decides)

theorem choice_modifyState (hg : ∀ st, (g st).decides = st.decides) :
    (f.modifyState id g).choice k = f.choice k := by
  unfold choice
  rw [entry_modifyState]
  split_ifs
  · rw [Option.map_map]
    congr 1
    funext e
    exact hg e.state
  · rfl

theorem choice_insertEntry {parent : Option String} {state : RunState} :
    (f.insertEntry id parent state).choice k =
      if k = id then some state.decides else f.choice k := by
  unfold choice
  rw [entry_insertEntry]
  split_ifs <;> rfl

theorem choice_applyAgentDeleted :
    (f.applyAgentDeleted id).choice k = f.choice k ∨ (f.applyAgentDeleted id).choice k = none := by
  unfold choice
  rcases entry_applyAgentDeleted (f := f) (r := k) with h | h
  · exact .inl (by rw [h])
  · exact .inr (by rw [h]; rfl)

theorem choice_pointAtRuntime {runtime : RuntimeChoice} (hr : runtime ≠ .inherit) :
    (f.pointAtRuntime id runtime).choice k =
      if k = id then (f.entry k).map fun e => if e.state.kind = .sub then none else some runtime
      else f.choice k := by
  unfold choice pointAtRuntime
  rw [entry_modifyState]
  split_ifs
  · rw [Option.map_map]
    congr 1
    funext e
    obtain ⟨parent, st⟩ := e
    cases st with
    | sub => rfl
    | main | workflow | subSession => exact if_neg hr
  · rfl

end RunForest

namespace SessionState

variable {s : SessionState} {e : SessionDomainEvent} {r k : String}

def ownerOf (s : SessionState) (r : String) : Option String := (s.runtimes.lookup r).map (·.owner)

variable {runtime : String}

theorem ownerOf_setProvisioning {f : ProvisioningState → ProvisioningState} :
    (s.setProvisioning runtime f).ownerOf r = s.ownerOf r := by
  unfold ownerOf setProvisioning
  rw [Map.lookup_adjust]
  split_ifs
  · rw [Option.map_map]
    rfl
  · rfl

theorem ownerOf_applyEvent (hr : ∀ runtime owner env, e ≠ .runtimeRequested runtime owner env) :
    (s.applyEvent e).ownerOf r = s.ownerOf r := by
  cases e with
  | runtimeRequested runtime owner env => exact absurd rfl (hr runtime owner env)
  | provisioningStarted | provisioningSucceeded => exact ownerOf_setProvisioning
  | provisioningFailed runtime error terminal =>
    cases terminal <;>
      exact ownerOf_setProvisioning (s := s) (f := fun p => .failed (p.atMs.getD 0) error)
  | _ => rfl

theorem runtimes_applyEvent (h : e.isLifecycle = false) :
    (s.applyEvent e).runtimes = s.runtimes := by
  cases e <;> first | rfl | exact absurd h (by simp [SessionDomainEvent.isLifecycle])

variable {events : List SessionDomainEvent}

theorem runtimes_applyAll_of_not_isLifecycle
    (he : ∀ e ∈ events, e.isLifecycle = false) : (s.applyAll events).runtimes = s.runtimes := by
  induction events generalizing s with
  | nil => rfl
  | cons e es ih =>
    refine (ih fun x hx => he x (List.mem_cons_of_mem _ hx)).trans ?_
    exact runtimes_applyEvent (he e List.mem_cons_self)

theorem choice_applyEvent (h : e.isStructural = false)
    (hr : ∀ runtime owner env, e ≠ .runtimeRequested runtime owner env) :
    (s.applyEvent e).forest.choice k = s.forest.choice k := by
  cases e with
  | specRecorded | agentDeleted | subAgentSpawned | runCreated | subSessionCreated => cases h
  | runtimeRequested runtime owner env => exact absurd rfl (hr runtime owner env)
  | askRecorded agent =>
    show (s.forest.applyAsked agent).choice k = _
    unfold RunForest.applyAsked
    cases s.forest.agents.lookup agent with
    | none => rfl
    | some id => exact RunForest.choice_modifyState (fun st => by cases st <;> rfl)
  | renamed title =>
    show (s.forest.applyMainTitled title).choice k = _
    unfold RunForest.applyMainTitled
    cases s.forest.root with
    | none => rfl
    | some id => exact RunForest.choice_modifyState (fun st => by cases st <;> rfl)
  | turnBegan | turnEnded | turnFailed | turnStopped | turnInterrupted | subAgentRunning
  | subAgentCompleted | subAgentFailed | subAgentNotified | subSessionStatusChanged
  | subSessionTurnEnded | stepStarted | stepConcluded | stepFailed | stepCancelled | runFinished
  | runFailed | runNotified =>
    exact RunForest.choice_modifyState (fun st => by cases st <;> rfl)
  | subSessionSeeded =>
    refine RunForest.choice_modifyState fun st => ?_
    cases st with
    | subSession r =>
      show RunState.decides (.subSession (if r.status = .provisioning then _ else r)) = _
      split_ifs <;> rfl
    | main | sub | workflow => rfl
  | provisioningFailed runtime error terminal => cases terminal <;> rfl
  | provisioningStarted | provisioningProgress | provisioningSucceeded | sessionFailed
  | usageRecorded => rfl

/-! ## One record for each owner -/

/-- An owner has at most one record, an entry that chose a runtime has its record, an entry for
which one was asked chose it, and the root of the session `id` always decides. -/
structure Housed (id : String) (s : SessionState) : Prop where
  unique : ∀ r r' o, s.ownerOf r = some o → s.ownerOf r' = some o → r = r'
  chosen : ∀ k r, s.forest.choice k = some (some (.on r)) → s.ownerOf r = some k
  owned : ∀ r o c, s.ownerOf r = some o → s.forest.choice o = some (some c) → c = .on r
  untold : s.spec = none → ∀ r, s.ownerOf r = none
  seated : s.spec.isSome → s.forest.root = some id ∧ ∃ c, s.forest.choice id = some (some c)

/-- Whether an event changes neither who has a record nor what an entry chose. -/
def isTame (e : SessionDomainEvent) : Bool :=
  !e.isStructural && match e with | .runtimeRequested _ _ _ => false | _ => true

theorem isTame_of_not_isLifecycle (h : e.isStructural = false) (hl : e.isLifecycle = false) :
    isTame e = true := by
  unfold isTame
  rw [h]
  cases e <;> first | rfl | exact absurd hl (by simp [SessionDomainEvent.isLifecycle])

theorem not_requested_of_isTame (h : isTame e = true) (runtime owner env : String) :
    e ≠ .runtimeRequested runtime owner env := by
  rintro rfl
  cases h

theorem not_structural_of_isTame (h : isTame e = true) : e.isStructural = false :=
  (Bool.not_eq_true' _).mp (Bool.and_eq_true_iff.mp h).1

theorem choice_applyAll (he : ∀ e ∈ events, isTame e = true) :
    (s.applyAll events).forest.choice k = s.forest.choice k := by
  induction events generalizing s with
  | nil => rfl
  | cons e es ih =>
    have htame := he e List.mem_cons_self
    refine (ih fun x hx => he x (List.mem_cons_of_mem _ hx)).trans ?_
    exact choice_applyEvent (not_structural_of_isTame htame) (not_requested_of_isTame htame)

variable {id : String}

theorem Housed.tame (h : s.Housed id) (he : isTame e = true) : (s.applyEvent e).Housed id := by
  have howner : ∀ r, (s.applyEvent e).ownerOf r = s.ownerOf r :=
    fun r => ownerOf_applyEvent (not_requested_of_isTame he)
  have hchoice : ∀ k, (s.applyEvent e).forest.choice k = s.forest.choice k :=
    fun k => choice_applyEvent (not_structural_of_isTame he) (not_requested_of_isTame he)
  have hspec : (s.applyEvent e).spec = s.spec := by
    refine spec_applyEvent fun session spec => ?_
    rintro rfl
    cases he
  refine ⟨fun r r' o => ?_, fun k r => ?_, fun r o c => ?_, fun hn r => ?_, fun hs => ?_⟩
  · rw [howner, howner]
    exact h.unique r r' o
  · rw [howner, hchoice]
    exact h.chosen k r
  · rw [howner, hchoice]
    exact h.owned r o c
  · rw [howner]
    exact h.untold (hspec ▸ hn) r
  · rw [root_applyEvent (not_structural_of_isTame he), hchoice]
    exact h.seated (hspec ▸ hs)

theorem Housed.applyAll (h : s.Housed id)
    (he : ∀ e ∈ events, isTame e = true) : (s.applyAll events).Housed id := by
  induction events generalizing s with
  | nil => exact h
  | cons e es ih =>
    exact ih (h.tame (he e List.mem_cons_self)) fun x hx => he x (List.mem_cons_of_mem _ hx)

/-- An entry comes under an id that owns nothing, and has chosen nothing. -/
theorem Housed.inserted {fresh : String} {state : RunState} {t : SessionState} (h : s.Housed id)
    (hstate : ∀ r, state.decides ≠ some (.on r))
    (hentry : s.forest.entry fresh = none) (hfresh : ∀ r, s.ownerOf r ≠ some fresh)
    (hspec : s.spec.isSome) (hts : t.spec = s.spec) (htr : t.forest.root = s.forest.root)
    (howner : ∀ r, t.ownerOf r = s.ownerOf r)
    (hchoice : ∀ k,
      t.forest.choice k = if k = fresh then some state.decides else s.forest.choice k) :
    t.Housed id := by
  refine ⟨fun r r' o => ?_, fun k r hk => ?_, fun r o c hr hc => ?_, fun hn => ?_, fun _ => ?_⟩
  · rw [howner, howner]
    exact h.unique r r' o
  · rw [hchoice] at hk
    split_ifs at hk with hfr
    · exact absurd (Option.some.inj hk) (hstate r)
    · rw [howner]
      exact h.chosen k r hk
  · rw [howner] at hr
    rw [hchoice] at hc
    split_ifs at hc with hfr
    · exact absurd (hfr ▸ hr) (hfresh r)
    · exact h.owned r o c hr hc
  · rw [← hts, hn] at hspec
    cases hspec
  · obtain ⟨hroot, c, hc⟩ := h.seated hspec
    refine ⟨htr.trans hroot, c, ?_⟩
    have hne : id ≠ fresh := by
      rintro rfl
      rw [RunForest.choice, hentry] at hc
      cases hc
    rw [hchoice, if_neg hne]
    exact hc

theorem Housed.deleted (h : s.Housed id) (hrooted : s.Rooted id) (gone : String) :
    (s.applyEvent (.agentDeleted gone)).Housed id := by
  have hchoice : ∀ k x, (s.applyEvent (.agentDeleted gone)).forest.choice k = some x →
      s.forest.choice k = some x := by
    intro k x hk
    rcases RunForest.choice_applyAgentDeleted (f := s.forest) (k := k) with hc | hc
    · exact hc.symm.trans hk
    · exact absurd (hc.symm.trans hk) (by simp)
  refine ⟨h.unique, fun k r hk => h.chosen k r (hchoice k _ hk),
    fun r o c hr hc => h.owned r o c hr (hchoice o _ hc), h.untold, fun hs => ?_⟩
  obtain ⟨hroot, c, hc⟩ := h.seated hs
  have hdeleted : (s.forest.applyAgentDeleted gone).root = s.forest.root := by
    unfold RunForest.applyAgentDeleted
    split_ifs <;> rfl
  refine ⟨hdeleted.trans hroot, c, ?_⟩
  show (s.forest.applyAgentDeleted gone).choice id = _
  obtain ⟨e, he, hd⟩ := Option.map_eq_some_iff.mp hc
  have hshape : s.forest.shape id = some (e.parent, e.state.kind) := by
    rw [RunForest.shape, he]
    rfl
  have hkind : e.state.kind = .main ∨ e.state.kind = .workflow ∧ e.parent = none := by
    rcases hrooted.root id hroot with h' | h' <;> rw [hshape] at h' <;>
      obtain ⟨hp, hk⟩ := Prod.mk.inj (Option.some.inj h')
    · exact .inl hk
    · exact .inr ⟨hk, hp⟩
  rw [RunForest.choice, RunForest.entry_applyAgentDeleted_of_root he hkind]
  exact congrArg some hd

theorem Housed.requested {owner vendor : String} (h : s.Housed id) (hrooted : s.Rooted id)
    (hspec : s.spec.isSome) (hr : s.ownerOf runtime = none) (ho : ∀ r, s.ownerOf r ≠ some owner) :
    (s.applyEvent (.runtimeRequested runtime owner vendor)).Housed id := by
  have howner : ∀ r, (s.applyEvent (.runtimeRequested runtime owner vendor)).ownerOf r =
      if r = runtime then some owner else s.ownerOf r := by
    intro r
    show ((s.runtimes.insert runtime ⟨vendor, owner, .never⟩).lookup r).map _ = _
    rw [Map.lookup_insert_eq]
    split_ifs <;> rfl
  have hchoice : ∀ k, (s.applyEvent (.runtimeRequested runtime owner vendor)).forest.choice k =
      if k = owner then (s.forest.entry k).map fun e =>
        if e.state.kind = .sub then none else some (.on runtime)
      else s.forest.choice k :=
    fun k => RunForest.choice_pointAtRuntime RuntimeChoice.noConfusion
  refine ⟨fun r r' o hro hro' => ?_, fun k r hk => ?_, fun r o c hro hc => ?_, fun hn => ?_,
    fun _ => ?_⟩
  · rw [howner] at hro hro'
    split_ifs at hro hro' with h1 h2 h2
    · rw [h1, h2]
    · exact absurd (hro ▸ hro') (ho r')
    · exact absurd (hro' ▸ hro) (ho r)
    · exact h.unique r r' o hro hro'
  · rw [hchoice] at hk
    rw [howner]
    split_ifs at hk with hko
    · obtain ⟨e, -, he⟩ := Option.map_eq_some_iff.mp hk
      split_ifs at he
      cases he
      rw [if_pos rfl, hko]
    · have hold := h.chosen k r hk
      have hne : r ≠ runtime := by
        rintro rfl
        rw [hr] at hold
        cases hold
      rw [if_neg hne]
      exact hold
  · rw [howner] at hro
    rw [hchoice] at hc
    split_ifs at hro with hrr
    · cases hro
      rw [if_pos rfl] at hc
      obtain ⟨e, -, he⟩ := Option.map_eq_some_iff.mp hc
      split_ifs at he
      rw [hrr]
      exact (Option.some.inj he).symm
    · have hoo : o ≠ owner := by
        rintro rfl
        exact ho r hro
      rw [if_neg hoo] at hc
      exact h.owned r o c hro hc
  · have hnone : s.spec = none := hn
    rw [hnone] at hspec
    cases hspec
  · obtain ⟨hroot, c, hc⟩ := h.seated hspec
    refine ⟨hroot, ?_⟩
    rw [hchoice]
    split_ifs with ho
    · obtain ⟨e, he, -⟩ := Option.map_eq_some_iff.mp hc
      refine ⟨.on runtime, ?_⟩
      have hkind : e.state.kind ≠ .sub := by
        intro hsub
        have hshape : s.forest.shape id = some (e.parent, .sub) := by
          rw [RunForest.shape, he, ← hsub]
          rfl
        rcases hrooted.root id hroot with h' | h' <;> rw [hshape] at h' <;>
          exact RunKind.noConfusion (Prod.mk.inj (Option.some.inj h')).2
      rw [he]
      exact congrArg some (if_neg hkind)
    · exact ⟨c, hc⟩

/-- A session is told what it is before anything is recorded for anybody. -/
theorem Housed.specified (h : s.Housed id) (hspec : s.spec = none) (spec : SessionSpec) :
    (s.applyEvent (.specRecorded id spec)).Housed id := by
  have hnone := h.untold hspec
  have hroot : ∀ r, rootChoice spec ≠ .on r := by
    intro r
    unfold rootChoice
    cases spec.runtime <;> exact RuntimeChoice.noConfusion
  have hinherit : rootChoice spec ≠ .inherit := by
    unfold rootChoice
    cases spec.runtime <;> exact RuntimeChoice.noConfusion
  have hchoice : ∀ k, (s.applyEvent (.specRecorded id spec)).forest.choice k =
      if k = id then some (some (rootChoice spec)) else s.forest.choice k := by
    intro k
    obtain ⟨kind, runtime⟩ := spec
    have hdecides : (RunState.main ⟨.idle, none, rootChoice ⟨kind, runtime⟩⟩).decides =
        some (rootChoice ⟨kind, runtime⟩) := if_neg hinherit
    cases kind with
    | agent =>
      rw [← hdecides]
      exact RunForest.choice_insertEntry
    | workflow run =>
      have hrun : (RunState.workflow ⟨run.workflow, run, .default, false,
          rootChoice ⟨.workflow run, runtime⟩⟩).decides =
            some (rootChoice ⟨.workflow run, runtime⟩) := if_neg hinherit
      rw [← hrun]
      exact RunForest.choice_insertEntry
  have hchosen : ∀ k r, (s.applyEvent (.specRecorded id spec)).forest.choice k ≠
      some (some (.on r)) := by
    intro k r hk
    rw [hchoice] at hk
    split_ifs at hk
    · exact hroot r (Option.some.inj (Option.some.inj hk))
    · have hold := h.chosen k r hk
      rw [hnone] at hold
      cases hold
  have howner : ∀ r, (s.applyEvent (.specRecorded id spec)).ownerOf r = none := hnone
  refine ⟨fun r r' o hr => ?_, fun k r hk => absurd hk (hchosen k r), fun r o c hr => ?_,
    fun _ => howner, fun _ => ⟨?_, rootChoice spec, ?_⟩⟩
  · rw [howner] at hr
    cases hr
  · rw [howner] at hr
    cases hr
  · obtain ⟨kind, runtime⟩ := spec
    cases kind <;> rfl
  · rw [hchoice, if_pos rfl]

variable {env : Env} {c : SessionCommand} {events : List SessionDomainEvent}

theorem not_owned_of_provisions {session owner fresh vendor : String}
    {asked : Option String}
    (h : s.provisions session owner asked fresh = some (runtime, vendor, true)) :
    runtime = fresh ∧ ∀ r, s.ownerOf r ≠ some owner := by
  unfold provisions at h
  by_cases hfatal : s.fatal.isSome = true
  · rw [if_pos hfatal] at h
    cases h
  rw [if_neg hfatal] at h
  cases hfind : s.runtimes.toPairs.find? (·.2.owner = owner) with
  | some x =>
    rw [hfind] at h
    dsimp only at h
    split at h <;> simp at h
  | none =>
    rw [hfind] at h
    refine ⟨?_, fun r hr => ?_⟩
    · cases asked with
      | some vendor => exact (Prod.mk.inj (Option.some.inj h)).1.symm
      | none =>
        split_ifs at h
        obtain ⟨v, -, hv⟩ := Option.map_eq_some_iff.mp h
        exact (Prod.mk.inj hv).1.symm
    · obtain ⟨x, hx, rfl⟩ := Option.map_eq_some_iff.mp hr
      have hno := List.find?_eq_none.mp hfind (r, x) (Map.mem_toPairs.mpr hx)
      exact hno (decide_eq_true rfl)

theorem Housed.recorded (h : s.Housed env.id) (hrooted : s.Rooted env.id) (hspec : s.spec.isSome)
    (hunused : s.Unused env.newV5 env.fresh) (hr : s.Recorded env c events) :
    (s.applyAll events).Housed env.id := by
  have hfresh : ∀ r, s.ownerOf r ≠ some env.fresh := by
    intro r hr
    obtain ⟨x, hx, hxo⟩ := Option.map_eq_some_iff.mp hr
    exact hunused.owner r x hx hxo
  rcases hr.about with hl | ⟨owner, vendor, runtime, built, requested, -, hp, rfl⟩ |
    ⟨runtime, error, terminal, -, rfl⟩ | ⟨spec, name, hnone, rfl⟩
  · rcases hr.steady with hs | ⟨spec, name, -, rfl⟩ | ⟨e, rfl, he⟩
    · exact h.applyAll fun e he => isTame_of_not_isLifecycle (hs e he).1 (hl e he)
    · exact absurd (hl _ List.mem_cons_self) (by simp [SessionDomainEvent.isLifecycle])
    · rcases he with ⟨parent, graph, -, rfl⟩ | ⟨parent, title, task, agentType, -, rfl⟩ |
        ⟨parent, sourceSeq, seed, message, title, choice, -, -, rfl⟩ | ⟨gone, -, -, rfl⟩
      · exact h.inserted (fun r hd => by cases hd) hunused.entry hfresh hspec rfl
          rfl (fun r => rfl) fun k => RunForest.choice_insertEntry
      · exact h.inserted (fun r hd => by cases hd) hunused.entry hfresh hspec rfl
          rfl (fun r => rfl) fun k => RunForest.choice_insertEntry
      · refine h.inserted (fun r hd => ?_) hunused.entry hfresh hspec rfl
          rfl (fun r => rfl) fun k => RunForest.choice_insertEntry
        cases choice <;> cases hd
      · exact h.deleted hrooted gone
  · cases requested with
    | true =>
      obtain ⟨rfl, hno⟩ := not_owned_of_provisions hp
      have hnone : s.ownerOf env.fresh = none := by
        unfold ownerOf
        rw [hunused.runtime]
        rfl
      exact (h.requested hrooted hspec hnone hno).tame (e := .provisioningStarted _ _) rfl
    | false => exact h.tame (e := .provisioningStarted _ _) rfl
  · refine h.applyAll fun e he => ?_
    obtain rfl := List.mem_singleton.mp he
    cases error <;> rfl
  · rw [hnone] at hspec
    cases hspec

theorem isTame_of_atBoundary {newV5 : String → String → String} (h : e.AtBoundary newV5) :
    isTame e = true := by
  cases e <;> first | rfl | exact h.elim

theorem Housed.handleCommand (h : s.Housed env.id) (hrooted : s.Rooted env.id)
    (hunused : s.Unused env.newV5 env.fresh) :
    (s.applyAll (s.handleCommand env c).events).Housed env.id := by
  cases hspec : s.spec with
  | none =>
    rcases untold_events (c := c) hspec with he | ⟨spec, name, he⟩
    · rw [he]
      exact h
    · rw [he]
      refine (h.specified hspec spec).applyAll fun e he => ?_
      obtain ⟨title, -, rfl⟩ := Option.map_eq_some_iff.mp (Option.mem_toList.mp he)
      rfl
  | some spec =>
    obtain ⟨recorded, hr, he⟩ := handleCommand_journals (s := s) (c := c)
    have hrec := h.recorded hrooted (hspec ▸ rfl) hunused hr
    rcases he with he | he
    · rw [he]
      exact hrec
    · rw [he, applyAll_append]
      exact hrec.applyAll fun e he => isTame_of_atBoundary (atBoundary_flushThenDrain e he)

theorem housed_of_reachable {newV5 : String → String → String}
    (hderived : ∀ run index, WorkflowRunSpec.stepAgentId newV5 run index ≠ id)
    (h : (running id newV5).Reachable s) : s.Housed id := by
  refine h.invariant ?_ ?_
  · rintro s rfl
    refine ⟨fun r r' o hr => ?_, fun k r hk => ?_, fun r o c hr => ?_, fun _ r => rfl, fun hs => ?_⟩
    · exact absurd hr (by simp [ownerOf, SessionState.empty])
    · exact absurd hk (by simp [RunForest.choice, RunForest.entry, SessionState.empty,
        RunForest.empty])
    · exact absurd hr (by simp [ownerOf, SessionState.empty])
    · cases hs
  · rintro s l t hreach hs ⟨hunused, rfl⟩
    have hserved : s.Housed (l.1.serving id newV5).id := hs
    exact hserved.handleCommand (rooted_of_reachable hderived hreach) hunused

end SessionState

/-! ## Attempts -/

/-- Whether a create was begun that has not succeeded. -/
def ProvisioningState.isUnfinished : ProvisioningState → Bool
  | .inFlight _ | .failed _ _ => true
  | .never | .ready _ => false

namespace SessionState

variable {s : SessionState} {env : Env} {id r : String} {x : RuntimeRecord}

theorem repairLifecycle_eq : s.repairLifecycle =
    if s.fatal.isSome then none
    else (s.runtimes.toPairs.find? (·.2.provisioning.isUnfinished)).map fun r =>
      .lifecycle (.provision r.2.owner none) := by
  unfold repairLifecycle
  split_ifs
  · rfl
  · rfl

theorem handleCommand_provision_some {owner runtime built : String} {vendor : Option String}
    {requested : Bool} (hspec : s.spec.isSome)
    (hp : s.provisions env.id owner vendor env.fresh = some (runtime, built, requested)) :
    s.handleCommand env (.lifecycle (.provision owner vendor)) =
      { events := started runtime owner built requested env.now
        sent := [.create runtime built env.now] } := by
  rw [handleCommand_of_told hspec]
  show s.handleLifecycle env (.provision owner vendor) = _
  unfold handleLifecycle
  dsimp only
  rw [hp]

theorem handleCommand_provision_none {owner : String} {vendor : Option String}
    (hspec : s.spec.isSome) (hp : s.provisions env.id owner vendor env.fresh = none) :
    s.handleCommand env (.lifecycle (.provision owner vendor)) = {} := by
  rw [handleCommand_of_told hspec]
  show s.handleLifecycle env (.provision owner vendor) = _
  unfold handleLifecycle
  dsimp only
  rw [hp]

/-- A `Provision` for the owner of an unfinished record begins its create again. -/
theorem handleCommand_provision (h : s.Housed id) (hspec : s.spec.isSome) (hfatal : s.fatal = none)
    (hx : s.runtimes.lookup r = some x) (hun : x.provisioning.isUnfinished = true) :
    s.handleCommand env (.lifecycle (.provision x.owner none)) =
      { events := [.provisioningStarted env.now r], sent := [.create r x.env env.now] } := by
  have hprovisions : s.provisions env.id x.owner none env.fresh = some (r, x.env, false) := by
    unfold provisions
    rw [hfatal, if_neg (by decide)]
    cases hfind : s.runtimes.toPairs.find? (·.2.owner = x.owner) with
    | none =>
      have hno := List.find?_eq_none.mp hfind (r, x) (Map.mem_toPairs.mpr hx)
      exact absurd (decide_eq_true rfl) hno
    | some y =>
      obtain ⟨r', x'⟩ := y
      have hx' : s.runtimes.lookup r' = some x' :=
        Map.mem_toPairs.mp (List.mem_of_find?_eq_some hfind)
      have howner := List.find?_some hfind
      rw [decide_eq_true_eq] at howner
      have hr' : s.ownerOf r' = some x.owner := by
        rw [ownerOf, hx', ← howner]
        rfl
      have hr : s.ownerOf r = some x.owner := by
        rw [ownerOf, hx]
        rfl
      obtain rfl := h.unique r' r x.owner hr' hr
      obtain rfl := Option.some.inj (hx'.symm.trans hx)
      dsimp only
      cases hp : x'.provisioning with
      | never | inFlight | failed => rfl
      | ready =>
        rw [hp] at hun
        cases hun
  exact handleCommand_provision_some hspec hprovisions

end SessionState

end Horsie.Session
