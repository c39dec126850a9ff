import Horsie.Session.Links
import Horsie.Session.Runtimes

/-!
# The forest stays a forest

The two indexes of the run forest and the links between its entries are kept by everything a session
journals (`SessionState.Nested`): an agent is hosted where the index says, work runs under an agent
that is known, and every climb ends. Only a sub session whose parent was removed runs under an agent
that is no longer there, so that its climb ends below the root.
-/

namespace Horsie.Session

open Lib

namespace RunForest

variable {f : RunForest} {a k id : String}

/-- Whether the entry `k` hosts `agent`. -/
def Hosting (f : RunForest) (k agent : String) : Prop :=
  ∃ e, f.entry k = some e ∧ e.state.hosts k agent = true

theorem hosting_iff : f.Hosting k a ↔
    (∃ parent kind, f.shape k = some (parent, kind) ∧ kind ≠ .workflow ∧ a = k) ∨
      ∃ g w, f.progress k = some (g, w) ∧ ∃ step ∈ w.steps, step.agent = a := by
  constructor
  · rintro ⟨⟨parent, st⟩, he, hh⟩
    have hshape : f.shape k = some (parent, st.kind) := by
      rw [shape, he]
      rfl
    cases st with
    | workflow w =>
      right
      obtain ⟨step, hstep, ha⟩ := List.any_eq_true.mp hh
      refine ⟨w.graph, w.run, progress_eq_some.mpr ⟨w, ?_, rfl, rfl⟩, step, hstep,
        of_decide_eq_true ha⟩
      rw [workflow, he]
      rfl
    | main | sub | subSession =>
      exact .inl ⟨parent, _, hshape, RunKind.noConfusion, of_decide_eq_true hh⟩
  · rintro (⟨parent, kind, hshape, hkind, rfl⟩ | ⟨g, w, hp, step, hstep, rfl⟩)
    · obtain ⟨⟨parent', st⟩, he, heq⟩ := Option.map_eq_some_iff.mp hshape
      refine ⟨_, he, ?_⟩
      cases heq
      cases st with
      | workflow w => exact absurd rfl hkind
      | main | sub | subSession => exact decide_eq_true rfl
    · obtain ⟨v, hv, -, rfl⟩ := progress_eq_some.mp hp
      obtain ⟨parent, he⟩ := entry_of_workflow hv
      exact ⟨_, he, List.any_eq_true.mpr ⟨step, hstep, decide_eq_true rfl⟩⟩

end RunForest

namespace SessionState

variable {s t : SessionState} {env : Env} {c : SessionCommand} {a k p r id : String}
  {g : WorkflowRunSpec} {w : WorkflowRunState} {newV5 : String → String → String}
  {events : List SessionDomainEvent}

/-! ## What holds of the links -/

/-- The indexes and the links of the forest. Agents are hosted where they are said to be, and every
entry but a run is its own agent. Delegated work runs under an agent that is there, and a sub
session under a session that is there or is not any more. Only the root runs under nobody, and no
links form a circle. -/
structure Nested (newV5 : String → String → String) (s : SessionState) : Prop where
  hosted : ∀ a k, s.forest.agents.lookup a = some k → s.forest.Hosting k a
  own : ∀ k parent kind, s.forest.shape k = some (parent, kind) → kind ≠ .workflow →
    s.forest.agents.lookup k = some k
  delegated : ∀ k p kind, s.forest.shape k = some (some p, kind) → kind ≠ .subSession →
    (s.forest.agents.lookup p).isSome
  branched : ∀ k p, s.forest.shape k = some (some p, .subSession) →
    (∀ run index, WorkflowRunSpec.stepAgentId newV5 run index ≠ p) ∧
      ((s.forest.agents.lookup p = none ∧ s.forest.shape p = none) ∨
        ∃ q kind, s.forest.shape p = some (q, kind) ∧ (kind = .main ∨ kind = .subSession))
  root : ∀ k kind, s.forest.shape k = some (none, kind) → s.forest.root = some k
  main : ∀ k p, s.forest.shape k ≠ some (some p, .main)
  ends : Ends s.forest.above

theorem Nested.indexes (h : s.Nested newV5) (hh : s.Hosts newV5) : s.forest.Indexes := by
  intro k e a he hd
  have hhosting : e.state.hosts k a = true ↔ s.forest.Hosting k a := by
    constructor
    · exact fun ha => ⟨e, he, ha⟩
    · rintro ⟨e', he', ha⟩
      cases he.symm.trans he'
      exact ha
  rw [hhosting]
  constructor
  · intro ha
    rcases RunForest.hosting_iff.mp ha with ⟨parent, kind, hshape, hkind, rfl⟩ |
      ⟨g, w, hp, step, hstep, rfl⟩
    · exact h.own _ _ _ hshape hkind
    · exact (hh.agents k g w hp step hstep).2
  · exact h.hosted a k

theorem Nested.lookup_fresh (h : s.Nested newV5) (hh : s.Hosts newV5) {fresh : String}
    (hfresh : s.forest.entry fresh = none)
    (hderived : ∀ run index, WorkflowRunSpec.stepAgentId newV5 run index ≠ fresh) :
    s.forest.agents.lookup fresh = none := by
  rw [Option.eq_none_iff_forall_ne_some]
  intro k hk
  rcases RunForest.hosting_iff.mp (h.hosted fresh k hk) with ⟨parent, kind, hshape, -, rfl⟩ |
    ⟨g, w, hp, step, hstep, rfl⟩
  · rw [RunForest.shape, hfresh] at hshape
    cases hshape
  · obtain ⟨⟨index, hindex⟩, -⟩ := hh.agents k g w hp step hstep
    exact hderived k index hindex.symm

/-! ## Events that leave the shape -/

variable {e : SessionDomainEvent} {run : String}

theorem agents_onRun
    {change : WorkflowRunState → WorkflowRunState} (he : e.onRun = some (run, change))
    (h : ∃ step ∈ w.steps, step.agent = a) : ∃ step ∈ (change w).steps, step.agent = a := by
  have hmodify : ∀ (index : ℕ) (f : StepRun → StepRun), (∀ s, (f s).agent = s.agent) →
      ∃ step ∈ (w.modifyStep index f).steps, step.agent = a := by
    intro index f hf
    obtain ⟨step, hstep, rfl⟩ := h
    obtain ⟨i, hi⟩ := List.getElem?_of_mem hstep
    refine ⟨if index = i then f step else step, List.mem_of_getElem? (i := i) ?_, ?_⟩
    · show (w.steps.modify index f)[i]? = _
      rw [List.getElem?_modify, hi]
      split_ifs <;> rfl
    · split_ifs
      · exact hf step
      · rfl
  cases e with
  | stepStarted run index name agent attempt origin via input =>
    cases he
    obtain ⟨step, hstep, ha⟩ := h
    exact ⟨step, List.mem_append_left _ hstep, ha⟩
  | stepConcluded run index output =>
    cases he
    exact hmodify index (fun s => { s with status := .concluded, output := some output })
      fun _ => rfl
  | stepFailed run index error =>
    cases he
    exact hmodify index (fun s => { s with status := .failed, error := some error }) fun _ => rfl
  | stepCancelled run index =>
    cases he
    exact hmodify index (fun s => { s with status := .cancelled }) fun _ => rfl
  | runFinished | runFailed =>
    cases he
    exact h
  | _ => exact absurd he (by simp [SessionDomainEvent.onRun])

theorem hosting_applyEvent (he : e.isStructural = false)
    (h : s.forest.Hosting k a) : (s.applyEvent e).forest.Hosting k a := by
  rw [RunForest.hosting_iff] at h ⊢
  rcases h with ⟨parent, kind, hshape, hkind, rfl⟩ | ⟨g, w, hp, hsteps⟩
  · exact .inl ⟨parent, kind, (shape_applyEvent he).trans hshape, hkind, rfl⟩
  right
  by_cases hask : ∃ agent, e = .askRecorded agent
  · obtain ⟨agent, rfl⟩ := hask
    rw [progress_askRecorded, hp]
    split_ifs
    · exact ⟨g, w.applyAwaiting, rfl, hsteps⟩
    · exact ⟨g, w, rfl, hsteps⟩
  rw [progress_applyEvent he fun agent ha => hask ⟨agent, ha⟩, hp]
  cases hrun : e.onRun with
  | none => exact ⟨g, w, rfl, hsteps⟩
  | some x =>
    obtain ⟨run, change⟩ := x
    dsimp only
    split_ifs
    · exact ⟨g, change w, rfl, agents_onRun hrun hsteps⟩
    · exact ⟨g, w, rfl, hsteps⟩

/-- An event starts an execution only of a run that is there. -/
def Seats (s : SessionState) (e : SessionDomainEvent) : Prop :=
  ∀ agent run, e.startedAgent = some agent → e.run? = some run → (s.forest.workflow run).isSome

theorem workflow_isSome_iff :
    (s.forest.workflow r).isSome ↔ ∃ parent, s.forest.shape r = some (parent, .workflow) := by
  unfold RunForest.workflow RunForest.shape
  cases s.forest.entry r with
  | none => simp
  | some e =>
    obtain ⟨parent, st⟩ := e
    cases st <;> simp [RunState.workflow?, RunState.kind]

theorem Seats.of_shape (h : s.Seats e)
    (ht : ∀ k, t.forest.shape k = s.forest.shape k) : t.Seats e := by
  intro agent run ha hr
  rw [workflow_isSome_iff, ht, ← workflow_isSome_iff]
  exact h agent run ha hr

theorem seats_of_startedAgent (h : e.startedAgent = none) :
    s.Seats e := by
  intro agent run ha
  rw [h] at ha
  cases ha

theorem Nested.host_of_started (h : s.Nested newV5) (hh : s.Hosts newV5) (hd : Derives newV5 id)
    {index : ℕ} (ha : a = WorkflowRunSpec.stepAgentId newV5 run index)
    (hk : s.forest.agents.lookup a = some k) : k = run := by
  rcases RunForest.hosting_iff.mp (h.hosted a k hk) with ⟨parent, kind, hshape, -, rfl⟩ |
    ⟨g, w, hp, step, hstep, rfl⟩
  · refine absurd ha.symm (hh.entries a ?_ run index)
    rw [entry_isSome_iff, hshape]
    rfl
  · obtain ⟨⟨i, hi⟩, -⟩ := hh.agents k g w hp step hstep
    exact (hd.injective _ _ _ _ (hi.symm.trans ha)).1

theorem Nested.applyEvent (h : s.Nested newV5) (hh : s.Hosts newV5) (hd : Derives newV5 id)
    (he : Steady newV5 e) (hs : s.Seats e) :
    (s.applyEvent e).Nested newV5 := by
  have hshape : ∀ k, (s.applyEvent e).forest.shape k = s.forest.shape k :=
    fun k => shape_applyEvent he.1
  have hkept : ∀ x, e.startedAgent ≠ some x →
      (s.applyEvent e).forest.agents.lookup x = s.forest.agents.lookup x :=
    fun x hx => agents_applyEvent he.1 hx
  have hknown : ∀ x, (s.forest.agents.lookup x).isSome →
      ((s.applyEvent e).forest.agents.lookup x).isSome := by
    intro x hx
    by_cases hstart : e.startedAgent = some x
    · obtain ⟨run, index, hrun, -⟩ := he.2 x hstart
      rw [lookup_startedAgent hrun hstart]
      rfl
    · rw [hkept x hstart]
      exact hx
  refine ⟨fun x j hj => ?_, fun k parent kind hk hkind => ?_, fun k p kind hk hkind => ?_,
    fun k p hk => ?_, fun k kind hk => ?_, fun k p => ?_, ?_⟩
  · by_cases hstart : e.startedAgent = some x
    · obtain ⟨run, index, hrun, -⟩ := he.2 x hstart
      rw [lookup_startedAgent hrun hstart] at hj
      cases hj
      cases e with
      | stepStarted run i name agent attempt origin via input =>
        obtain rfl := Option.some.inj hstart
        obtain rfl := Option.some.inj hrun
        obtain ⟨v, hv⟩ := Option.isSome_iff_exists.mp (hs _ _ rfl rfl)
        have hp : s.forest.progress run = some (v.graph, v.run) :=
          RunForest.progress_eq_some.mpr ⟨v, hv, rfl, rfl⟩
        have hp' := progress_applyAll_own
          (e := .stepStarted run i name agent attempt origin via input) rfl
          (k := (·.applyStarted name agent attempt origin via input)) rfl hp
        refine RunForest.hosting_iff.mpr (.inr ⟨v.graph, _, hp',
          ⟨name, agent, attempt, origin, via, .running, input, none, none⟩, ?_, rfl⟩)
        exact List.mem_append_right _ (List.mem_singleton_self _)
      | _ => exact absurd hstart (by simp [SessionDomainEvent.startedAgent])
    · rw [hkept x hstart] at hj
      exact hosting_applyEvent he.1 (h.hosted x j hj)
  · rw [hshape] at hk
    rw [hkept k]
    · exact h.own k parent kind hk hkind
    · intro hstart
      obtain ⟨run, index, -, hindex⟩ := he.2 k hstart
      refine hh.entries k ?_ run index hindex.symm
      rw [entry_isSome_iff, hk]
      rfl
  · rw [hshape] at hk
    exact hknown p (h.delegated k p kind hk hkind)
  · rw [hshape] at hk
    obtain ⟨hderived, hgone | ⟨q, kind, hq, hkind⟩⟩ := h.branched k p hk
    · refine ⟨hderived, .inl ⟨?_, (hshape p).trans hgone.2⟩⟩
      rw [hkept p]
      · exact hgone.1
      · intro hstart
        obtain ⟨run, index, -, hindex⟩ := he.2 p hstart
        exact hderived run index hindex.symm
    · exact ⟨hderived, .inr ⟨q, kind, (hshape p).trans hq, hkind⟩⟩
  · rw [hshape] at hk
    rw [root_applyEvent he.1]
    exact h.root k kind hk
  · rw [hshape]
    exact h.main k p
  · have habove : ∀ x, e.startedAgent ≠ some x →
        (s.applyEvent e).forest.above x = s.forest.above x := by
      intro x hx
      rw [RunForest.above_eq, RunForest.above_eq, hkept x hx]
      cases s.forest.agents.lookup x with
      | none => rfl
      | some j => rw [Option.bind_some, Option.bind_some, hshape]
    cases hstart : e.startedAgent with
    | none =>
      refine h.ends.mono fun x y hxy => ?_
      rwa [habove x (by rw [hstart]; simp)] at hxy
    | some agent =>
      obtain ⟨run, index, hrun, hindex⟩ := he.2 agent hstart
      have hlookup := lookup_startedAgent (s := s) hrun hstart
      cases hbefore : s.forest.agents.lookup agent with
      | some j =>
        -- an execution that is started on the same agent again
        obtain rfl := h.host_of_started hh hd hindex hbefore
        refine h.ends.mono fun x y hxy => ?_
        by_cases hx : x = agent
        · subst hx
          rw [RunForest.above_eq, hlookup, Option.bind_some, hshape] at hxy
          rw [RunForest.above_eq, hbefore, Option.bind_some]
          exact hxy
        · rwa [habove x (by rw [hstart]; exact fun h => hx (Option.some.inj h).symm)] at hxy
      | none =>
        refine h.ends.inserted (x := agent) (fun x hx => ?_) fun x y hne hxy => ?_
        · rw [RunForest.above_eq] at hx
          obtain ⟨j, -, hx⟩ := Option.bind_eq_some_iff.mp hx
          rw [hshape] at hx
          obtain ⟨⟨parent, kind⟩, hj, hparent⟩ := Option.bind_eq_some_iff.mp hx
          obtain rfl : parent = some agent := hparent
          by_cases hkind : kind = .subSession
          · subst hkind
            exact (h.branched j agent hj).1 run index hindex.symm
          · have hsome := h.delegated j agent kind hj hkind
            rw [hbefore] at hsome
            cases hsome
        · rwa [habove x (by rw [hstart]; exact fun h => hne (Option.some.inj h).symm)] at hxy

theorem Nested.applyAll (h : s.Nested newV5) (hh : s.Hosts newV5) (hd : Derives newV5 id)
    (he : ∀ e ∈ events, Steady newV5 e ∧ s.Seats e) : (s.applyAll events).Nested newV5 := by
  induction events generalizing s with
  | nil => exact h
  | cons e es ih =>
    obtain ⟨hsteady, hseats⟩ := he e List.mem_cons_self
    refine ih (h.applyEvent hh hd hsteady hseats) (hh.applyEvent hd hsteady) fun e' he' => ?_
    obtain ⟨hsteady', hseats'⟩ := he e' (List.mem_cons_of_mem _ he')
    exact ⟨hsteady', hseats'.of_shape fun k => shape_applyEvent hsteady.1⟩

/-! ## Entries that come -/

/-- Nobody runs under this id. -/
def Unheard (s : SessionState) (fresh : String) : Prop :=
  ∀ k kind, s.forest.shape k ≠ some (some fresh, kind)

/-- New work comes under an agent that is there, and is its own agent unless it is a run. -/
theorem Nested.inserted (h : s.Nested newV5) {fresh parent : String} {state : RunState}
    (hfresh : s.forest.entry fresh = none) (hnone : s.forest.agents.lookup fresh = none)
    (hnew : s.Unheard fresh) (hmain : state.kind ≠ .main)
    (hparent : (s.forest.agents.lookup parent).isSome)
    (hsession : state.kind = .subSession →
      (∀ run index, WorkflowRunSpec.stepAgentId newV5 run index ≠ parent) ∧
        ∃ q kind, s.forest.shape parent = some (q, kind) ∧ (kind = .main ∨ kind = .subSession))
    (htr : t.forest.root = s.forest.root)
    (hte : ∀ k, t.forest.entry k = (s.forest.insertEntry fresh (some parent) state).entry k)
    (hta : ∀ x, t.forest.agents.lookup x =
      if x = fresh ∧ state.kind ≠ .workflow then some fresh else s.forest.agents.lookup x) :
    t.Nested newV5 := by
  have hshape : ∀ k, t.forest.shape k =
      if k = fresh then some (some parent, state.kind) else s.forest.shape k := by
    intro k
    rw [← RunForest.shape_insertEntry, RunForest.shape, hte]
    rfl
  have hold : s.forest.shape fresh = none := by
    rw [RunForest.shape, hfresh]
    rfl
  have hne : parent ≠ fresh := by
    rintro rfl
    rw [hnone] at hparent
    cases hparent
  have hother : ∀ x, x ≠ fresh → t.forest.agents.lookup x = s.forest.agents.lookup x := by
    intro x hx
    rw [hta, if_neg fun hboth => hx hboth.1]
  have hkept : ∀ x j, s.forest.agents.lookup x = some j → t.forest.agents.lookup x = some j := by
    intro x j hj
    rw [hother x]
    · exact hj
    · rintro rfl
      rw [hnone] at hj
      cases hj
  refine ⟨fun x j hj => ?_, fun k q kind hk hkind => ?_, fun k q kind hk hkind => ?_,
    fun k q hk => ?_, fun k kind hk => ?_, fun k q hk => ?_, ?_⟩
  · rw [hta] at hj
    split_ifs at hj with hx
    · obtain ⟨rfl, hkind⟩ := hx
      cases hj
      exact RunForest.hosting_iff.mpr (.inl ⟨_, _, (hshape _).trans (if_pos rfl), hkind, rfl⟩)
    · obtain ⟨e, he, hhost⟩ := h.hosted x j hj
      refine ⟨e, ?_, hhost⟩
      rw [hte, RunForest.entry_insertEntry, if_neg]
      · exact he
      · rintro rfl
        rw [hfresh] at he
        cases he
  · rw [hshape] at hk
    split_ifs at hk with hkf
    · cases hk
      rw [hta, hkf, if_pos ⟨rfl, hkind⟩]
    · exact hkept k k (h.own k q kind hk hkind)
  · have hknown : ∀ x, (s.forest.agents.lookup x).isSome →
        (t.forest.agents.lookup x).isSome := by
      intro x hx
      obtain ⟨j, hj⟩ := Option.isSome_iff_exists.mp hx
      rw [hkept x j hj]
      rfl
    rw [hshape] at hk
    split_ifs at hk with hkf
    · obtain ⟨hq, -⟩ := Prod.mk.inj (Option.some.inj hk)
      exact hknown q (Option.some.inj hq ▸ hparent)
    · exact hknown q (h.delegated k q kind hk hkind)
  · rw [hshape] at hk
    split_ifs at hk with hkf
    · obtain ⟨hq, hkind⟩ := Prod.mk.inj (Option.some.inj hk)
      cases hq
      obtain ⟨hderived, q', kind, hq', hkind'⟩ := hsession hkind
      exact ⟨hderived, .inr ⟨q', kind, (hshape _).trans ((if_neg hne).trans hq'), hkind'⟩⟩
    · have hqf : q ≠ fresh := by
        rintro rfl
        exact hnew k _ hk
      obtain ⟨hderived, hgone | ⟨q', kind, hq', hkind'⟩⟩ := h.branched k q hk
      · exact ⟨hderived, .inl ⟨(hother q hqf).trans hgone.1,
          (hshape q).trans ((if_neg hqf).trans hgone.2)⟩⟩
      · exact ⟨hderived, .inr ⟨q', kind, (hshape q).trans ((if_neg hqf).trans hq'), hkind'⟩⟩
  · rw [hshape] at hk
    split_ifs at hk with hkf
    · exact absurd (Prod.mk.inj (Option.some.inj hk)).1 (by simp)
    · exact htr.trans (h.root k kind hk)
  · rw [hshape] at hk
    split_ifs at hk with hkf
    · exact hmain (Prod.mk.inj (Option.some.inj hk)).2
    · exact h.main k q hk
  · have hlink : ∀ x y, t.forest.above x = some y → y ≠ fresh ∧
        (x ≠ fresh → s.forest.above x = some y) := by
      intro x y hxy
      rw [RunForest.above_eq] at hxy
      obtain ⟨j, hj, hxy⟩ := Option.bind_eq_some_iff.mp hxy
      obtain ⟨⟨q, kind⟩, hjs, hq⟩ := Option.bind_eq_some_iff.mp hxy
      obtain rfl : q = some y := hq
      rw [hshape] at hjs
      split_ifs at hjs with hjf
      · obtain ⟨hq, -⟩ := Prod.mk.inj (Option.some.inj hjs)
        cases hq
        refine ⟨hne, fun hx => ?_⟩
        rw [hother x hx, hjf] at hj
        obtain ⟨e, he, -⟩ := h.hosted x fresh hj
        rw [hfresh] at he
        cases he
      · refine ⟨?_, fun hx => ?_⟩
        · rintro rfl
          exact hnew j kind hjs
        · rw [hother x hx] at hj
          rw [RunForest.above_eq, hj, Option.bind_some, hjs]
          rfl
    exact h.ends.inserted (x := fresh) (fun x hx => (hlink x fresh hx).1 rfl)
      fun x y hx hxy => (hlink x y hxy).2 hx

/-! ## Entries that go -/

theorem ne_of_removable (hid : s.forest.Removable id) (hp : s.forest.progress k = some (g, w)) :
    k ≠ id := by
  rintro rfl
  obtain ⟨parent, kind, hshape, hkind⟩ := RunForest.removable_iff.mp hid
  obtain ⟨parent', v, he, -, -⟩ := entry_of_progress hp
  rw [RunForest.shape, he] at hshape
  cases hshape
  rcases hkind with hkind | hkind <;> exact RunKind.noConfusion hkind

theorem Nested.lookup_removable (h : s.Nested newV5) (hid : s.forest.Removable id) :
    s.forest.agents.lookup id = some id := by
  obtain ⟨parent, kind, hshape, hkind⟩ := RunForest.removable_iff.mp hid
  refine h.own id parent kind hshape ?_
  rcases hkind with rfl | rfl <;> exact RunKind.noConfusion

theorem Nested.above_removable (h : s.Nested newV5) (hroot : s.Rooted p)
    (hid : s.forest.Removable id) : (s.forest.above id).isSome := by
  obtain ⟨parent, kind, hshape, hkind⟩ := RunForest.removable_iff.mp hid
  cases parent with
  | none =>
    rcases hroot.root id (h.root id kind hshape) with hr | hr <;> rw [hshape] at hr <;>
      cases hr <;>
      rcases hkind with hkind | hkind <;> exact RunKind.noConfusion hkind
  | some q =>
    rw [RunForest.above_eq, h.lookup_removable hid, Option.bind_some, hshape]
    rfl

/-- The work an agent delegated and the agent itself go with its removal, and nothing else. -/
structure Removes (s : SessionState) (id : String) (t : SessionState) : Prop where
  root : t.forest.root = s.forest.root
  kept : ∀ k, ¬ (s.forest.Doomed id k ∨ k = id) → t.forest.entry k = s.forest.entry k
  gone : ∀ k, s.forest.Doomed id k ∨ k = id → t.forest.entry k = none
  keptAgent : ∀ a k, s.forest.agents.lookup a = some k → ¬ (s.forest.Doomed id k ∨ k = id) →
    t.forest.agents.lookup a = some k
  goneAgent : ∀ a k, s.forest.agents.lookup a = some k → s.forest.Doomed id k ∨ k = id →
    t.forest.agents.lookup a = none
  unknown : ∀ a, s.forest.agents.lookup a = none → t.forest.agents.lookup a = none

theorem Nested.removes (h : s.Nested newV5) (hh : s.Hosts newV5) (hroot : s.Rooted p)
    (hid : s.forest.Removable id) : s.Removes id (s.applyEvent (.agentDeleted id)) := by
  have hdoomed : ∀ k, k ∈ s.forest.delegated s.forest.entries.entries.length [id] ↔
      s.forest.Doomed id k := fun k =>
    RunForest.mem_delegated_iff_doomed (h.indexes hh) h.ends (h.above_removable hroot hid)
  have hentry : ∀ k, (s.applyEvent (.agentDeleted id)).forest.entry k = _ :=
    fun k => RunForest.entry_deleted hid
  -- the agent of delegated work is doomed with its host, and an agent whose id is doomed hosts it
  have hagent : ∀ a k, s.forest.agents.lookup a = some k →
      (s.forest.Doomed id a ∨ s.forest.Doomed id k ∨ a = id ↔ s.forest.Doomed id k ∨ k = id) := by
    intro a k hk
    rcases RunForest.hosting_iff.mp (h.hosted a k hk) with ⟨parent, kind, -, -, rfl⟩ |
      ⟨g, w, hp, step, hstep, rfl⟩
    · exact or_self_left
    · obtain ⟨⟨index, hindex⟩, -⟩ := hh.agents k g w hp step hstep
      have hno : s.forest.entry step.agent = none := by
        rw [← Option.not_isSome_iff_eq_none]
        exact fun hsome => hh.entries _ hsome k index hindex.symm
      have hk' : k ≠ id := ne_of_removable hid hp
      have ha : step.agent ≠ id := by
        rintro rfl
        obtain ⟨parent, kind, hshape, -⟩ := RunForest.removable_iff.mp hid
        rw [RunForest.shape, hno] at hshape
        cases hshape
      constructor
      · rintro (⟨e, q, n, he, -⟩ | hdoomed | heq)
        · rw [hno] at he
          cases he
        · exact .inl hdoomed
        · exact absurd heq ha
      · rintro (hdoomed | heq)
        · exact .inr (.inl hdoomed)
        · exact absurd heq hk'
  refine ⟨RunForest.root_deleted, fun k hk => ?_, fun k hk => ?_, fun a k ha hk => ?_,
    fun a k ha hk => ?_, fun a ha => RunForest.lookup_deleted_none ha⟩
  · exact (hentry k).trans (if_neg fun hor => hk (hor.imp_left (hdoomed k).mp))
  · exact (hentry k).trans (if_pos (hk.imp_left (hdoomed k).mpr))
  · refine (RunForest.lookup_deleted hid ha).trans (if_neg fun hor => hk ((hagent a k ha).mp ?_))
    exact hor.imp (hdoomed a).mp (Or.imp_left (hdoomed k).mp)
  · refine (RunForest.lookup_deleted hid ha).trans (if_pos ?_)
    exact ((hagent a k ha).mpr hk).imp (hdoomed a).mpr (Or.imp_left (hdoomed k).mpr)

theorem Removes.shape (h : s.Removes id t) {x : Option String × RunKind}
    (hk : t.forest.shape k = some x) :
    s.forest.shape k = some x ∧ ¬ (s.forest.Doomed id k ∨ k = id) := by
  have hkept : ¬ (s.forest.Doomed id k ∨ k = id) := by
    intro hgone
    rw [RunForest.shape, h.gone k hgone] at hk
    cases hk
  rw [RunForest.shape, h.kept k hkept] at hk
  exact ⟨hk, hkept⟩

theorem Removes.lookup (h : s.Removes id t) (ha : t.forest.agents.lookup a = some k) :
    s.forest.agents.lookup a = some k ∧ ¬ (s.forest.Doomed id k ∨ k = id) := by
  cases hs : s.forest.agents.lookup a with
  | none =>
    rw [h.unknown a hs] at ha
    cases ha
  | some j =>
    by_cases hj : s.forest.Doomed id j ∨ j = id
    · rw [h.goneAgent a j hs hj] at ha
      cases ha
    · rw [h.keptAgent a j hs hj] at ha
      cases ha
      exact ⟨rfl, hj⟩

theorem Removes.above (h : s.Removes id t) (ha : t.forest.above a = some p) :
    s.forest.above a = some p := by
  rw [RunForest.above_eq] at ha ⊢
  obtain ⟨k, hk, ha⟩ := Option.bind_eq_some_iff.mp ha
  obtain ⟨x, hx, hparent⟩ := Option.bind_eq_some_iff.mp ha
  rw [(h.lookup hk).1, Option.bind_some, (h.shape hx).1]
  exact hparent

theorem Nested.doomed_of_parent (h : s.Nested newV5) {e : RunEntry} {host : String}
    (hid : s.forest.Removable id) (he : s.forest.entry k = some e)
    (hd : e.state.isDelegated = true) (hp : e.parent = some p)
    (hhost : s.forest.agents.lookup p = some host) (hgone : s.forest.Doomed id host ∨ host = id) :
    s.forest.Doomed id k := by
  rcases hgone with ⟨d, q, n, hd', hdel, hq, hc⟩ | rfl
  · refine ⟨e, p, n + 1, he, hd, hp, .step ?_ hc⟩
    exact RunForest.delegator_eq_some.mpr ⟨host, d, hhost, hd', hq, hdel⟩
  · rcases RunForest.hosting_iff.mp (h.hosted p host hhost) with ⟨parent, kind, -, -, rfl⟩ |
      ⟨g, w, hprog, -⟩
    · exact ⟨e, p, 0, he, hd, hp, .refl p⟩
    · exact absurd rfl (ne_of_removable hid hprog)

/-- Whoever runs under delegated work that is removed is removed too: no sub session does. -/
theorem Nested.doomed_of_doomed (h : s.Nested newV5) {e : RunEntry} {host : String}
    (hid : s.forest.Removable id) (he : s.forest.entry k = some e) (hp : e.parent = some p)
    (hhost : s.forest.agents.lookup p = some host) (hgone : s.forest.Doomed id host) :
    s.forest.Doomed id k := by
  have hshape : s.forest.shape k = some (some p, e.state.kind) := by
    rw [RunForest.shape, he, Option.map_some, hp]
  refine h.doomed_of_parent hid he (RunState.isDelegated_iff.mpr ⟨?_, ?_⟩) hp hhost (.inl hgone)
  · intro hmain
    exact h.main k p (hmain ▸ hshape)
  · intro hsub
    rw [hsub] at hshape
    obtain ⟨-, ⟨hnone, -⟩ | ⟨q, kind, hq, hkind⟩⟩ := h.branched k p hshape
    · rw [hhost] at hnone
      cases hnone
    · have hwork : kind ≠ .workflow := by
        rcases hkind with rfl | rfl <;> exact RunKind.noConfusion
      cases hhost.symm.trans (h.own p q kind hq hwork)
      obtain ⟨d, -, -, hd, hdel, -⟩ := hgone
      rw [RunForest.shape, hd] at hq
      cases hq
      obtain ⟨hmain, hsub'⟩ := RunState.isDelegated_iff.mp hdel
      exact hkind.elim hmain hsub'

theorem Nested.deleted (h : s.Nested newV5) (hh : s.Hosts newV5) (hroot : s.Rooted p)
    (gone : String) : (s.applyEvent (.agentDeleted gone)).Nested newV5 := by
  by_cases hid : s.forest.Removable gone
  swap
  · have hsame : (s.applyEvent (.agentDeleted gone)).forest = s.forest :=
      RunForest.applyAgentDeleted_of_not hid
    exact ⟨hsame ▸ h.hosted, hsame ▸ h.own, hsame ▸ h.delegated, hsame ▸ h.branched,
      hsame ▸ h.root, hsame ▸ h.main, hsame ▸ h.ends⟩
  have hr := h.removes hh hroot hid
  generalize s.applyEvent (.agentDeleted gone) = t at hr
  refine ⟨fun a k ha => ?_, fun k parent kind hk hkind => ?_, fun k p kind hk hkind => ?_,
    fun k p hk => ?_, fun k kind hk => ?_, fun k p hk => ?_, ?_⟩
  · obtain ⟨hold, hkept⟩ := hr.lookup ha
    obtain ⟨e, he, hhost⟩ := h.hosted a k hold
    exact ⟨e, (hr.kept k hkept).trans he, hhost⟩
  · obtain ⟨hold, hkept⟩ := hr.shape hk
    exact hr.keptAgent k k (h.own k parent kind hold hkind) hkept
  · obtain ⟨hold, hkept⟩ := hr.shape hk
    obtain ⟨host, hhost⟩ := Option.isSome_iff_exists.mp (h.delegated k p kind hold hkind)
    obtain ⟨e, he, heq⟩ := Option.map_eq_some_iff.mp hold
    obtain ⟨hparent, rfl⟩ := Prod.mk.inj heq
    rw [hr.keptAgent p host hhost]
    · rfl
    · intro hgone
      refine hkept (.inl (h.doomed_of_parent hid he ?_ hparent hhost hgone))
      refine RunState.isDelegated_iff.mpr ⟨fun hmain => ?_, hkind⟩
      exact h.main k p (hmain ▸ hold)
  · obtain ⟨hold, -⟩ := hr.shape hk
    obtain ⟨hderived, hnone | ⟨q, kind, hq, hkind⟩⟩ := h.branched k p hold
    · refine ⟨hderived, .inl ⟨hr.unknown p hnone.1, ?_⟩⟩
      rw [Option.eq_none_iff_forall_ne_some]
      intro x hx
      have hsome := (hr.shape hx).1
      rw [hnone.2] at hsome
      cases hsome
    · have hwork : kind ≠ .workflow := by
        rcases hkind with rfl | rfl <;> exact RunKind.noConfusion
      by_cases hp : s.forest.Doomed gone p ∨ p = gone
      · refine ⟨hderived, .inl ⟨hr.goneAgent p p (h.own p q kind hq hwork) hp, ?_⟩⟩
        rw [RunForest.shape, hr.gone p hp]
        rfl
      · refine ⟨hderived, .inr ⟨q, kind, ?_, hkind⟩⟩
        rw [RunForest.shape, hr.kept p hp]
        exact hq
  · rw [hr.root]
    exact h.root k kind (hr.shape hk).1
  · exact h.main k p (hr.shape hk).1
  · exact h.ends.mono fun x y => hr.above

/-! ## What is journaled -/

theorem shape_perform (x : AgentAction) :
    (s.applyAll (s.perform env x).events).forest.shape k = s.forest.shape k := by
  rcases @perform_events s env x with ⟨he, -⟩ | ⟨e, he, hstr, -⟩
  · rw [he]
    rfl
  · rw [he]
    exact shape_applyEvent hstr

theorem seats_perform (x : AgentAction) : ∀ e ∈ (s.perform env x).events, s.Seats e := by
  intro e he
  cases x with
  | deliver d =>
    change e ∈ (s.deliver env d).events at he
    rcases @deliver_events s env d with hd | hd | hd <;> rw [hd] at he
    · cases he
    · exact seats_of_startedAgent (List.mem_singleton.mp he ▸ rfl)
    · exact seats_of_startedAgent (List.mem_singleton.mp he ▸ rfl)
  | startStep st =>
    change e ∈ (s.startStep env st).events at he
    rcases @startStep_events s env st with ⟨hrun, hs⟩ | ⟨error, hs⟩ <;>
      rw [hs] at he <;> obtain rfl := List.mem_singleton.mp he
    · intro agent run ha hr
      cases hr
      exact hrun
    · exact seats_of_startedAgent rfl
  | finish | fail => exact seats_of_startedAgent (List.mem_singleton.mp he ▸ rfl)

theorem shape_performAll (xs : List AgentAction) :
    (s.applyAll (performAll env s xs).events).forest.shape k = s.forest.shape k := by
  induction xs generalizing s with
  | nil => rfl
  | cons x xs ih =>
    show (s.applyAll ((s.perform env x).events ++ _)).forest.shape k = _
    rw [applyAll_append, ih, shape_perform]

theorem seats_performAll (xs : List AgentAction) :
    ∀ e ∈ (performAll env s xs).events, s.Seats e := by
  induction xs generalizing s with
  | nil => exact fun e he => absurd he List.not_mem_nil
  | cons x xs ih =>
    intro e he
    rcases List.mem_append.mp he with he | he
    · exact seats_perform x e he
    · exact (ih e he).of_shape fun k => (shape_perform x).symm

theorem seats_flushRounds (rounds : ℕ) : ∀ e ∈ (flushRounds env rounds s).events, s.Seats e := by
  induction rounds generalizing s with
  | zero => exact fun e he => absurd he List.not_mem_nil
  | succ rounds ih =>
    intro e he
    unfold flushRounds at he
    dsimp only at he
    split_ifs at he
    · exact seats_performAll _ e he
    · rcases List.mem_append.mp he with he | he
      · exact seats_performAll _ e he
      · exact (ih e he).of_shape fun k => (shape_performAll _).symm

theorem seats_flushThenDrain : ∀ e ∈ (s.flushThenDrain env).events, s.Seats e :=
  seats_flushRounds 8

theorem seats_of_isQuiet (h : e.isQuiet = true) : s.Seats e := by
  apply seats_of_startedAgent
  cases e with
  | stepStarted => cases h
  | _ => rfl

theorem Restarted.seats {target : StepRun}
    (h : s.Restarted env run target events) : ∀ e ∈ events, s.Seats e := by
  intro e he
  cases h with
  | started hrun =>
    obtain rfl := List.mem_singleton.mp he
    intro agent run' ha hr
    cases hr
    exact hrun
  | failed => exact seats_of_startedAgent (List.mem_singleton.mp he ▸ rfl)

theorem Recorded.seats (h : s.Recorded env c events) : ∀ e ∈ events, s.Seats e := by
  have hcut {es : List SessionDomainEvent} (h : ∀ e ∈ es, e.isCut = true) :
      ∀ e ∈ es, s.Seats e :=
    fun e he => seats_of_startedAgent (SessionDomainEvent.startedAgent_of_isCut (h e he))
  intro e he
  cases h with
  | calm h => exact seats_of_isQuiet (SessionDomainEvent.isQuiet_of_isCalm (h e he))
  | provisioned => exact seats_of_isQuiet (SessionDomainEvent.isQuiet_of_started he)
  | finished =>
    obtain rfl := List.mem_singleton.mp he
    exact seats_of_isQuiet (SessionDomainEvent.isQuiet_finishing _ _ _)
  | specified spec name =>
    apply seats_of_startedAgent
    rcases List.mem_cons.mp he with rfl | he
    · rfl
    · obtain ⟨title, -, rfl⟩ := Option.map_eq_some_iff.mp (Option.mem_toList.mp he)
      rfl
  | created | spawned | branched | deleted | asked =>
    exact seats_of_startedAgent (List.mem_singleton.mp he ▸ rfl)
  | reported =>
    rename_i turn _ _ _
    apply seats_of_startedAgent
    cases turn with
    | concluded | asked | failed => exact List.mem_singleton.mp he ▸ rfl
    | parked | interrupted => cases he
  | stopped hc hk hs => exact hcut (stopBelow_cut hs) e he
  | reconciled =>
    obtain ⟨x, -, rfl⟩ := List.mem_map.mp he
    exact seats_of_startedAgent rfl
  | retried hc hroot hw ht hcur h => exact h.seats e he
  | superseded hc hroot hw ht hcur hstep h =>
    rcases List.mem_append.mp he with he | he
    · exact hcut superseded_cut e he
    · refine (h.seats e he).of_shape fun k => ?_
      refine (@shape_applyAll_steady _ _ env.newV5 _ fun e he => ?_).symm
      exact steady_of_isCut (superseded_cut e he)

theorem Nested.specified (hspec : s.spec = none) (hroot : s.Rooted id)
    (spec : SessionSpec) : (s.applyEvent (.specRecorded id spec)).Nested newV5 := by
  have hempty := hroot.untold hspec
  obtain ⟨kind, runtime⟩ := spec
  have hnone : ∀ k, s.forest.shape k = none := by
    intro k
    rw [hempty]
    rfl
  have hlookup : ∀ x, s.forest.agents.lookup x = none := by
    intro x
    rw [hempty]
    rfl
  obtain ⟨t, ht⟩ : ∃ t, t = s.applyEvent (.specRecorded id ⟨kind, runtime⟩) := ⟨_, rfl⟩
  have hone : t.forest.root = some id ∧ ∃ k, k ≠ .sub ∧ k ≠ .subSession ∧
      (∀ x, t.forest.shape x = if x = id then some (none, k) else none) ∧
      ∀ x, t.forest.agents.lookup x = if x = id ∧ k ≠ .workflow then some id else none := by
    subst ht
    cases kind with
    | agent =>
      refine ⟨rfl, .main, RunKind.noConfusion, RunKind.noConfusion, fun x => ?_, fun x => ?_⟩
      · rw [← hnone x]
        exact RunForest.shape_insertEntry
      · show (s.forest.agents.insert id id).lookup x = _
        rw [Map.lookup_insert_eq, hlookup]
        simp
    | workflow run =>
      refine ⟨rfl, .workflow, RunKind.noConfusion, RunKind.noConfusion, fun x => ?_, fun x => ?_⟩
      · rw [← hnone x]
        exact RunForest.shape_insertEntry
      · show s.forest.agents.lookup x = _
        rw [hlookup]
        simp
  rw [← ht]
  obtain ⟨htr, k, -, hsession, hshape, hagents⟩ := hone
  have hparent : ∀ x q kind, t.forest.shape x = some (q, kind) → x = id ∧ q = none ∧ kind = k := by
    intro x q kind hx
    rw [hshape] at hx
    split_ifs at hx with hxi
    cases hx
    exact ⟨hxi, rfl, rfl⟩
  refine ⟨fun x j hj => ?_, fun x q kind hx hkind => ?_, fun x q kind hx => ?_, fun x q hx => ?_,
    fun x kind hx => ?_, fun x q hx => ?_, ?_⟩
  · rw [hagents] at hj
    obtain ⟨⟨rfl, hk⟩, hj⟩ := Option.ite_none_right_eq_some.mp hj
    cases hj
    exact RunForest.hosting_iff.mpr (.inl ⟨none, k, (hshape _).trans (if_pos rfl), hk, rfl⟩)
  · obtain ⟨rfl, -, rfl⟩ := hparent x q kind hx
    exact (hagents _).trans (if_pos ⟨rfl, hkind⟩)
  · exact absurd (hparent x _ kind hx).2.1 (by simp)
  · exact absurd (hparent x _ _ hx).2.1 (by simp)
  · obtain ⟨rfl, -, -⟩ := hparent x _ kind hx
    exact htr
  · exact absurd (hparent x _ _ hx).2.1 (by simp)
  · intro x
    refine ⟨x, fun y hy => ?_⟩
    rw [RunForest.above_eq] at hy
    obtain ⟨j, -, hy⟩ := Option.bind_eq_some_iff.mp hy
    obtain ⟨⟨q, kind⟩, hj, hq⟩ := Option.bind_eq_some_iff.mp hy
    obtain rfl : q = some y := hq
    exact absurd (hparent j _ kind hj).2.1 (by simp)

theorem lookup_of_depth (h : (s.forest.depthOfAgent p).isSome) :
    (s.forest.agents.lookup p).isSome := by
  obtain ⟨n, hn⟩ := Option.isSome_iff_exists.mp h
  obtain ⟨⟨k, e⟩, howner, -⟩ := Option.map_eq_some_iff.mp hn
  rw [(RunForest.ownerOfAgent_eq_some.mp howner).1]
  rfl

theorem session_of_branchable {message : String} (hroot : s.Rooted id) (hhoused : s.Housed id)
    (hspec : s.spec.isSome) (h : s.branchable id p message = none) :
    ∃ q kind, s.forest.shape p = some (q, kind) ∧ (kind = .main ∨ kind = .subSession) := by
  unfold branchable at h
  split_ifs at h with _ hworkflow hsession
  by_cases hp : p = id
  · subst hp
    obtain ⟨hseat, -⟩ := hhoused.seated hspec
    rcases hroot.root p hseat with hmain | hrun
    · exact ⟨none, .main, hmain, .inl rfl⟩
    · refine absurd ?_ hworkflow
      unfold RunForest.rootIsWorkflow RunForest.rootWorkflow RunForest.rootEntry
      rw [hseat]
      exact workflow_isSome_iff.mpr ⟨none, hrun⟩
  · have hsome : ∃ r, s.forest.subSession p = some r := by
      refine Option.ne_none_iff_exists'.mp fun hnone => hsession ?_
      simp [hp, hnone]
    obtain ⟨r, hr⟩ := hsome
    obtain ⟨⟨parent, st⟩, he, hs⟩ := Option.bind_eq_some_iff.mp hr
    refine ⟨parent, .subSession, ?_, .inr rfl⟩
    rw [RunForest.shape, he]
    cases st with
    | subSession => rfl
    | main | sub | workflow => exact absurd hs (by simp [RunState.subSession?])

theorem Nested.recorded (h : s.Nested env.newV5) (hh : s.Hosts env.newV5)
    (hd : Derives env.newV5 env.id) (hroot : s.Rooted env.id) (hhoused : s.Housed env.id)
    (hspec : s.spec.isSome) (hunused : s.Unused env.newV5 env.fresh)
    (hunheard : s.Unheard env.fresh) (hr : s.Recorded env c events) :
    (s.applyAll events).Nested env.newV5 := by
  have hnone := h.lookup_fresh hh hunused.entry hunused.derived
  rcases hr.steady with hs | ⟨spec, name, hs, -⟩ | ⟨e, rfl, he⟩
  · exact h.applyAll hh hd fun e he => ⟨hs e he, hr.seats e he⟩
  · rw [hs] at hspec
    cases hspec
  rcases he with ⟨parent, graph, hdepth, rfl⟩ | ⟨parent, title, task, agentType, hdepth, rfl⟩ |
    ⟨parent, sourceSeq, seed, message, title, choice, hbranch, -, rfl⟩ | ⟨gone, -, -, rfl⟩
  · refine @Nested.inserted _ _ _ h _ _ (.workflow _) hunused.entry hnone hunheard
      RunKind.noConfusion
      (lookup_of_depth hdepth) (fun hk => RunKind.noConfusion hk) rfl (fun k => rfl) fun x => ?_
    exact (if_neg fun hboth => hboth.2 rfl).symm
  · refine @Nested.inserted _ _ _ h _ _ (.sub _) hunused.entry hnone hunheard
      RunKind.noConfusion
      (lookup_of_depth hdepth) (fun hk => RunKind.noConfusion hk) rfl (fun k => rfl) fun x => ?_
    refine (Map.lookup_insert_eq (m := s.forest.agents)).trans ?_
    simp [RunState.kind]
  · obtain ⟨q, kind, hshape, hkind⟩ := session_of_branchable hroot hhoused hspec hbranch
    have hwork : kind ≠ .workflow := by
      rcases hkind with rfl | rfl <;> exact RunKind.noConfusion
    refine @Nested.inserted _ _ _ h _ _ (.subSession _) hunused.entry hnone hunheard
      RunKind.noConfusion
      ?_ (fun _ => ⟨?_, q, kind, hshape, hkind⟩) rfl (fun k => rfl) fun x => ?_
    · rw [h.own parent q kind hshape hwork]
      rfl
    · refine hh.entries parent ?_
      rw [entry_isSome_iff, hshape]
      rfl
    · refine (Map.lookup_insert_eq (m := s.forest.agents)).trans ?_
      simp [RunState.kind]
  · exact h.deleted hh hroot gone

theorem Nested.handleCommand (h : s.Nested env.newV5) (hh : s.Hosts env.newV5)
    (hd : Derives env.newV5 env.id) (hroot : s.Rooted env.id) (hhoused : s.Housed env.id)
    (hunused : s.Unused env.newV5 env.fresh) (hunheard : s.Unheard env.fresh) :
    (s.applyAll (s.handleCommand env c).events).Nested env.newV5 := by
  cases hspec : s.spec with
  | none =>
    rcases @untold_events s env c hspec with he | ⟨spec, name, he⟩
    · rw [he]
      exact h
    · rw [he]
      have hfirst : (s.applyEvent (.specRecorded env.id spec)).Hosts env.newV5 :=
        hh.specified hd spec
      refine (Nested.specified hspec hroot spec).applyAll hfirst hd fun e he => ?_
      obtain ⟨title, -, rfl⟩ := Option.map_eq_some_iff.mp (Option.mem_toList.mp he)
      exact ⟨steady_of_isQuiet rfl, seats_of_startedAgent rfl⟩
  | some spec =>
    have hsome : s.spec.isSome := hspec ▸ rfl
    obtain ⟨recorded, hr, he⟩ := @handleCommand_journals s env c
    have hrec := h.recorded hh hd hroot hhoused hsome hunused hunheard hr
    rcases he with he | he
    · rw [he]
      exact hrec
    · rw [he, applyAll_append]
      exact hrec.applyAll (hh.recorded hd hunused.derived hr) hd fun e he =>
        ⟨steady_of_atBoundary (atBoundary_flushThenDrain e he), seats_flushThenDrain e he⟩

end SessionState

/-! ## The sessions -/

/-- The session `id` as it is served, where an id it mints names nobody that anything runs under. -/
def nesting (id : String) (newV5 : String → String → String) :
    System SessionState (Env × SessionCommand) :=
  (running id newV5).restrict fun s l => s.Unheard l.1.fresh

theorem SessionState.nested_of_reachable {id : String} {newV5 : String → String → String}
    (hd : Derives newV5 id) {s : SessionState} (h : (nesting id newV5).Reachable s) :
    s.Nested newV5 := by
  refine h.invariant ?_ ?_
  · rintro s rfl
    have hnone : ∀ k, SessionState.empty.forest.shape k = none := fun _ => rfl
    have habove : ∀ x, SessionState.empty.forest.above x = none := fun _ => rfl
    refine ⟨fun x j hj => absurd hj (by simp [SessionState.empty, RunForest.empty]),
      fun k q kind hk => ?_, fun k q kind hk => ?_, fun k q hk => ?_, fun k kind hk => ?_,
      fun k q hk => ?_, fun x => ⟨x, fun y hy => ?_⟩⟩
    · exact absurd ((hnone k).symm.trans hk) (by simp)
    · exact absurd ((hnone k).symm.trans hk) (by simp)
    · exact absurd ((hnone k).symm.trans hk) (by simp)
    · exact absurd ((hnone k).symm.trans hk) (by simp)
    · exact absurd ((hnone k).symm.trans hk) (by simp)
    · exact absurd ((habove x).symm.trans hy) (by simp)
  · rintro s l t hs hnested ⟨⟨hunused, rfl⟩, hunheard⟩
    have hrun := hs.unrestrict
    have hserved : Derives (l.1.serving id newV5).newV5 (l.1.serving id newV5).id := hd
    exact @Nested.handleCommand s (l.1.serving id newV5) l.2 hnested
      (stepAgents_of_reachable hd hrun).hosts hserved (rooted_of_reachable hd.apart hrun)
      (housed_of_reachable hd.apart hrun) hunused hunheard

/-! ### Executions that can be computed -/

/-- The step of the session `s` whose ids are derived by joining, as a function. -/
def nest? (s : SessionState) (l : Env × SessionCommand) : Option SessionState :=
  if ∀ e ∈ s.forest.entries.toPairs, e.2.parent ≠ some l.1.fresh then serve? s l else none

theorem step_of_nest? {s t : SessionState} {l : Env × SessionCommand} (h : nest? s l = some t) :
    (nesting "s" joined).Step s l t := by
  obtain ⟨hparents, h⟩ := Option.ite_none_right_eq_some.mp h
  refine ⟨step_of_serve? h, fun k kind hk => ?_⟩
  obtain ⟨e, he, heq⟩ := Option.map_eq_some_iff.mp hk
  exact hparents (k, e) (Map.mem_toPairs.mpr he) (Prod.mk.inj heq).1

theorem reachable_of_nest? {t : SessionState} {ls : List (Env × SessionCommand)}
    (h : System.steps? nest? .empty ls = some t) : (nesting "s" joined).Reachable t := by
  obtain ⟨tr, htr, -⟩ := System.exec_of_steps? (M := nesting "s" joined)
    (fun _ _ _ => step_of_nest?) h
  exact htr.reachable (.init rfl)

end Horsie.Session
