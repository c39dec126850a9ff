import Horsie.Lib.Take
import Horsie.Session.Runs

/-!
# The agents of the steps

Every execution runs on the agent derived for its run and its index, and the forest leads from that
agent back to the execution (`executionOfAgent_derived`). That needs what minted and derived ids
promise: no id is derived twice, and none that is minted is derived.
-/

namespace Horsie.Session

open Lib

/-- What derived ids promise a session: no two executions get the same, and the session's own id is
none. -/
structure Derives (newV5 : String → String → String) (id : String) : Prop where
  injective : ∀ run index run' index', WorkflowRunSpec.stepAgentId newV5 run index =
    WorkflowRunSpec.stepAgentId newV5 run' index' → run = run' ∧ index = index'
  apart : ∀ run index, WorkflowRunSpec.stepAgentId newV5 run index ≠ id

theorem append_cons_inj {α : Type*} [DecidableEq α] {c : α} {xs xs' ys ys' : List α}
    (hx : ∀ x ∈ xs, x ≠ c) (hx' : ∀ x ∈ xs', x ≠ c) (h : xs ++ c :: ys = xs' ++ c :: ys') :
    xs = xs' ∧ ys = ys' := by
  have htake : ∀ zs us : List α, (∀ x ∈ zs, x ≠ c) → (zs ++ c :: us).takeWhile (· ≠ c) = zs := by
    intro zs us hz
    rw [List.takeWhile_append_of_pos fun x hx => decide_eq_true (hz x hx), List.takeWhile_cons,
      if_neg (by simp), List.append_nil]
  have hxs := congrArg (List.takeWhile (· ≠ c)) h
  rw [htake xs ys hx, htake xs' ys' hx'] at hxs
  subst hxs
  exact ⟨rfl, (List.cons.inj (List.append_cancel_left h)).2⟩

theorem derives_joined {id : String} (hid : id.length = 1) : Derives joined id where
  injective run index run' index' h := by
    have hdigits : ∀ n : ℕ, ∀ x ∈ ("step:" ++ toString n).toList.reverse, x ≠ '/' := by
      intro n x hx hslash
      subst hslash
      rw [List.mem_reverse, String.toList_append, List.mem_append] at hx
      rcases hx with hx | hx
      · exact absurd hx (by decide)
      · change '/' ∈ (Nat.repr n).toList at hx
        rw [Nat.toList_repr] at hx
        exact absurd (Nat.isDigit_of_mem_toDigits (by decide) (by decide) hx) (by decide)
    have hlist : ∀ (r : String) (n : ℕ),
        (WorkflowRunSpec.stepAgentId joined r n).toList.reverse =
          ("step:" ++ toString n).toList.reverse ++ '/' :: r.toList.reverse := by
      intro r n
      unfold WorkflowRunSpec.stepAgentId joined
      rw [String.toList_append, String.toList_append, List.reverse_append, List.reverse_append]
      rfl
    have hrev : (WorkflowRunSpec.stepAgentId joined run index).toList.reverse =
        (WorkflowRunSpec.stepAgentId joined run' index').toList.reverse := by rw [h]
    rw [hlist, hlist] at hrev
    obtain ⟨hname, hrun⟩ := append_cons_inj (hdigits index) (hdigits index') hrev
    have hname' := List.reverse_injective hname
    rw [String.toList_append, String.toList_append] at hname'
    have hdigit : Nat.toDigits 10 index = Nat.toDigits 10 index' := by
      rw [← Nat.toList_repr, ← Nat.toList_repr]
      exact List.append_cancel_left hname'
    refine ⟨String.toList_inj.mp (List.reverse_injective hrun), ?_⟩
    rw [← Nat.ofDigitChars_ten_toDigits (n := index), hdigit, Nat.ofDigitChars_ten_toDigits]
  apart := joined_ne hid

/-! ## Executions by index -/

/-- Every execution runs on the agent derived for it. -/
def WorkflowRunState.Indexed (newV5 : String → String → String) (r : String)
    (w : WorkflowRunState) : Prop :=
  ∀ i step, w.steps[i]? = some step → step.agent = WorkflowRunSpec.stepAgentId newV5 r i

namespace WorkflowRunState

variable {newV5 : String → String → String} {r : String} {w : WorkflowRunState}

theorem Indexed.modifyStep (h : w.Indexed newV5 r) (index : ℕ) {f : StepRun → StepRun}
    (hf : ∀ s, (f s).agent = s.agent) : (w.modifyStep index f).Indexed newV5 r := by
  intro i step hs
  change (w.steps.modify index f)[i]? = some step at hs
  rw [List.getElem?_modify] at hs
  obtain ⟨t, ht, rfl⟩ := Option.map_eq_some_iff.mp hs
  have ht' := h i t ht
  split_ifs
  · rw [hf]
    exact ht'
  · exact ht'

theorem Indexed.applyStarted (h : w.Indexed newV5 r) (step : String) (attempt : ℕ)
    (origin : Option ℕ) (via : Option String) (input : String) :
    (w.applyStarted step (WorkflowRunSpec.stepAgentId newV5 r w.steps.length) attempt origin via
      input).Indexed newV5 r := by
  intro i s hs
  change (w.steps ++ [_])[i]? = some s at hs
  rcases getElem?_snoc_cases hs with hs | ⟨rfl, rfl⟩
  · exact h i s hs
  · rfl

theorem Indexed.applyCancelled (h : w.Indexed newV5 r) (index : ℕ) :
    (w.applyCancelled index).Indexed newV5 r := h.modifyStep index fun _ => rfl

theorem Indexed.interrupt (h : w.Indexed newV5 r) : w.interrupt.Indexed newV5 r := by
  unfold WorkflowRunState.interrupt
  split
  · exact h.applyCancelled _
  · exact h

theorem Indexed.cancel (h : w.Indexed newV5 r) : w.cancel.Indexed newV5 r := by
  unfold WorkflowRunState.cancel
  split_ifs
  · exact h
  · exact h.interrupt

theorem Indexed.reportAt (h : w.Indexed newV5 r) (index : ℕ) (turn : TurnEnd) :
    (w.reportAt index turn).Indexed newV5 r := by
  cases turn with
  | concluded | failed => exact h.modifyStep index fun _ => rfl
  | asked | parked | interrupted => exact h

theorem length_interrupt : w.interrupt.steps.length = w.steps.length := by
  unfold interrupt
  split
  · exact List.length_modify _ _ _
  · rfl

theorem Indexed.advanced {g : WorkflowRunSpec} {w' : WorkflowRunState} (h : w.Indexed newV5 r)
    (ha : WorkflowOrchestrator.Advanced newV5 ⟨r, g⟩ w w') : w'.Indexed newV5 r := by
  rcases ha with rfl | ⟨a, ha, hc⟩
  · exact h
  rcases hc with rfl | ⟨st, error, rfl, rfl⟩
  · cases WorkflowOrchestrator.decides_of_mem ha with
    | fail | finish => exact h
    | start => exact h.applyStarted _ _ _ _ _
  · exact h

end WorkflowRunState

namespace SessionState

variable {s : SessionState} {env : Env} {c : SessionCommand} {r id : String}
  {g : WorkflowRunSpec} {w w' : WorkflowRunState} {newV5 : String → String → String}
  {events : List SessionDomainEvent}

theorem Touched.indexed (h : Touched s env c r w w') (hw : w.Indexed env.newV5 r) :
    w'.Indexed env.newV5 r := by
  cases h with
  | kept => exact hw
  | reported => exact hw.reportAt _ _
  | cancelled => exact hw.cancel
  | @stopped _ _ _ w₁ _ _ _ hw₁ =>
    rcases hw₁ with rfl | ⟨-, -, -, rfl⟩
    · exact hw.applyCancelled _
    · exact hw.cancel.applyCancelled _
  | reconciled => exact hw.interrupt
  | restarted =>
    rw [← WorkflowRunState.length_interrupt]
    exact hw.interrupt.applyStarted _ _ _ _ _
  | unstarted => exact hw.interrupt

/-- Every execution of the session runs on the agent derived for it. -/
def Indexed (newV5 : String → String → String) (s : SessionState) : Prop :=
  ∀ r g w, s.forest.progress r = some (g, w) → w.Indexed newV5 r

theorem Indexed.handleCommand (h : s.Indexed env.newV5) (hroot : s.Rooted env.id)
    (hfresh : s.forest.entry env.fresh = none) :
    (s.applyAll (s.handleCommand env c).events).Indexed env.newV5 := by
  intro r g w hp
  obtain ⟨w', hadv, ⟨-, rfl⟩ | ⟨before, hbefore, htouched⟩⟩ := handled hroot hfresh hp
  · have hdefault : WorkflowRunState.default.Indexed env.newV5 r :=
      fun i step hs => absurd hs (by simp [WorkflowRunState.default])
    exact hdefault.advanced hadv
  · exact (htouched.indexed (h r g before hbefore)).advanced hadv

/-! ## Hosts -/

/-- The agents of executions are hosted by their runs, and are no entries of their own. -/
structure Hosts (newV5 : String → String → String) (s : SessionState) : Prop where
  entries : ∀ k, (s.forest.entry k).isSome → ∀ run index,
    WorkflowRunSpec.stepAgentId newV5 run index ≠ k
  agents : ∀ r g w, s.forest.progress r = some (g, w) → ∀ step ∈ w.steps,
    (∃ index, step.agent = WorkflowRunSpec.stepAgentId newV5 r index) ∧
      s.forest.agents.lookup step.agent = some r

theorem entry_isSome_iff : (s.forest.entry r).isSome ↔ (s.forest.shape r).isSome := by
  unfold RunForest.shape
  rw [Option.isSome_map]

variable {e : SessionDomainEvent}

theorem mem_steps_applyEvent (he : e.isStructural = false)
    (hp : (s.applyEvent e).forest.progress r = some (g, w)) {step : StepRun}
    (hstep : step ∈ w.steps) :
    (∃ before, s.forest.progress r = some (g, before) ∧
        ∃ old ∈ before.steps, old.agent = step.agent) ∨
      e.run? = some r ∧ e.startedAgent = some step.agent := by
  have hmodify : ∀ (v : WorkflowRunState) (index : ℕ) (f : StepRun → StepRun),
      (∀ s, (f s).agent = s.agent) → step ∈ (v.modifyStep index f).steps →
        ∃ old ∈ v.steps, old.agent = step.agent := by
    intro v index f hf hmem
    obtain ⟨i, hi⟩ := List.getElem?_of_mem hmem
    change (v.steps.modify index f)[i]? = some step at hi
    rw [List.getElem?_modify] at hi
    obtain ⟨old, hold, rfl⟩ := Option.map_eq_some_iff.mp hi
    refine ⟨old, List.mem_of_getElem? hold, ?_⟩
    split_ifs
    · exact (hf old).symm
    · rfl
  by_cases hask : ∃ agent, e = .askRecorded agent
  · obtain ⟨agent, rfl⟩ := hask
    left
    rw [progress_askRecorded] at hp
    split_ifs at hp
    · obtain ⟨⟨g', before⟩, hb, hp⟩ := Option.map_eq_some_iff.mp hp
      cases hp
      exact ⟨before, hb, step, hstep, rfl⟩
    · exact ⟨w, hp, step, hstep, rfl⟩
  rw [progress_applyEvent he fun agent ha => hask ⟨agent, ha⟩] at hp
  cases hrun : e.onRun with
  | none =>
    rw [hrun] at hp
    exact .inl ⟨w, hp, step, hstep, rfl⟩
  | some x =>
    obtain ⟨run, k⟩ := x
    rw [hrun] at hp
    dsimp only at hp
    split_ifs at hp with hr
    · obtain ⟨⟨g', before⟩, hb, hp⟩ := Option.map_eq_some_iff.mp hp
      cases hp
      subst hr
      cases e with
      | stepStarted run index name agent attempt origin via input =>
        cases hrun
        rcases List.mem_append.mp hstep with hold | hnew
        · exact .inl ⟨before, hb, step, hold, rfl⟩
        · obtain rfl := List.mem_singleton.mp hnew
          exact .inr ⟨rfl, rfl⟩
      | stepConcluded run index output =>
        cases hrun
        exact .inl ⟨before, hb, hmodify before index
          (fun s => { s with status := .concluded, output := some output }) (fun _ => rfl) hstep⟩
      | stepFailed run index error =>
        cases hrun
        exact .inl ⟨before, hb, hmodify before index
          (fun s => { s with status := .failed, error := some error }) (fun _ => rfl) hstep⟩
      | stepCancelled run index =>
        cases hrun
        exact .inl ⟨before, hb, hmodify before index
          (fun s => { s with status := .cancelled }) (fun _ => rfl) hstep⟩
      | runFinished | runFailed =>
        cases hrun
        exact .inl ⟨before, hb, step, hstep, rfl⟩
      | _ => exact absurd hrun (by simp [SessionDomainEvent.onRun])
    · exact .inl ⟨w, hp, step, hstep, rfl⟩

theorem lookup_startedAgent {run agent : String}
    (hr : e.run? = some run) (ha : e.startedAgent = some agent) :
    (s.applyEvent e).forest.agents.lookup agent = some run := by
  cases e with
  | stepStarted =>
    cases ha
    cases hr
    exact AList.lookup_insert _
  | _ => exact absurd ha (by simp [SessionDomainEvent.startedAgent])

theorem Hosts.applyEvent (h : s.Hosts newV5) (hd : Derives newV5 id)
    (he : Steady newV5 e) : (s.applyEvent e).Hosts newV5 where
  entries k hk := by
    rw [entry_isSome_iff, shape_applyEvent he.1, ← entry_isSome_iff] at hk
    exact h.entries k hk
  agents r g w hp step hstep := by
    by_cases ha : e.startedAgent = some step.agent
    · obtain ⟨run, index, hrun, hagent⟩ := he.2 _ ha
      have hlookup := lookup_startedAgent (s := s) hrun ha
      rcases mem_steps_applyEvent he.1 hp hstep with ⟨before, hb, old, hold, heq⟩ | ⟨hr, -⟩
      · obtain ⟨⟨i, hi⟩, -⟩ := h.agents r g before hb old hold
        rw [heq, hagent] at hi
        obtain ⟨rfl, -⟩ := hd.injective _ _ _ _ hi
        exact ⟨⟨index, hagent⟩, hlookup⟩
      · cases hrun.symm.trans hr
        exact ⟨⟨index, hagent⟩, hlookup⟩
    · rw [agents_applyEvent he.1 ha]
      rcases mem_steps_applyEvent he.1 hp hstep with ⟨before, hb, old, hold, heq⟩ | ⟨-, hs⟩
      · rw [← heq]
        exact h.agents r g before hb old hold
      · exact absurd hs ha

theorem Hosts.applyAll (h : s.Hosts newV5) (hd : Derives newV5 id)
    (he : ∀ e ∈ events, Steady newV5 e) : (s.applyAll events).Hosts newV5 := by
  induction events generalizing s with
  | nil => exact h
  | cons e es ih =>
    exact ih (h.applyEvent hd (he e List.mem_cons_self))
      fun e' he' => he e' (List.mem_cons_of_mem _ he')

theorem Hosts.inserted (h : s.Hosts newV5) {fresh : String} {parent : Option String}
    {state : RunState} {t : SessionState}
    (hfresh : ∀ run index, WorkflowRunSpec.stepAgentId newV5 run index ≠ fresh)
    (hnew : ∀ v, state.workflow? = some v → v.run = .default)
    (hte : ∀ k, t.forest.entry k = (s.forest.insertEntry fresh parent state).entry k)
    (hta : ∀ a, a ≠ fresh → t.forest.agents.lookup a = s.forest.agents.lookup a) :
    t.Hosts newV5 where
  entries k hk := by
    rw [hte, RunForest.entry_insertEntry] at hk
    split_ifs at hk with hkf
    · subst hkf
      exact hfresh
    · exact h.entries k hk
  agents r g w hp step hstep := by
    have hp' : (s.forest.insertEntry fresh parent state).progress r = some (g, w) := by
      rw [← hp]
      unfold RunForest.progress RunForest.workflow
      rw [hte]
    by_cases hr : r = fresh
    · obtain ⟨v, hv, -, hw⟩ := RunForest.progress_eq_some.mp hp'
      rw [RunForest.workflow_insertEntry, if_pos hr] at hv
      change v.run = w at hw
      rw [← hw, hnew v hv] at hstep
      cases hstep
    · rw [progress_insertEntry hr] at hp'
      obtain ⟨⟨index, hagent⟩, hlookup⟩ := h.agents r g w hp' step hstep
      refine ⟨⟨index, hagent⟩, ?_⟩
      rw [hta]
      · exact hlookup
      · rw [hagent]
        exact hfresh r index

theorem Hosts.deleted (h : s.Hosts newV5) (gone : String) :
    (s.applyEvent (.agentDeleted gone)).Hosts newV5 where
  entries k hk := by
    change ((s.forest.applyAgentDeleted gone).entry k).isSome at hk
    rcases RunForest.entry_applyAgentDeleted (f := s.forest) (r := k) with he | he
    · rw [he] at hk
      exact h.entries k hk
    · rw [he] at hk
      cases hk
  agents r g w hp step hstep := by
    change (s.forest.applyAgentDeleted gone).progress r = _ at hp
    have hold : s.forest.progress r = some (g, w) := by
      rcases progress_applyAgentDeleted (r := r) (f := s.forest) with he | he
      · rwa [he] at hp
      · rw [he] at hp
        cases hp
    obtain ⟨⟨index, hagent⟩, hlookup⟩ := h.agents r g w hold step hstep
    refine ⟨⟨index, hagent⟩, ?_⟩
    have hderived : s.forest.entry step.agent = none := by
      cases he : s.forest.entry step.agent with
      | none => rfl
      | some e => exact absurd hagent.symm (h.entries _ (by rw [he]; rfl) r index)
    obtain ⟨v, hv, -, -⟩ := RunForest.progress_eq_some.mp hp
    obtain ⟨parent, he⟩ := RunForest.entry_of_workflow hv
    exact RunForest.agents_applyAgentDeleted_of_host (by rw [he]; rfl) hlookup hderived

theorem Hosts.specified (h : s.Hosts newV5) (hd : Derives newV5 id) (spec : SessionSpec) :
    (s.applyEvent (.specRecorded id spec)).Hosts newV5 := by
  obtain ⟨kind, runtime⟩ := spec
  cases kind with
  | agent =>
    exact h.inserted hd.apart (fun v hv => absurd hv (by simp [RunState.workflow?]))
      (fun k => rfl) fun a ha => AList.lookup_insert_ne ha
  | workflow run =>
    refine h.inserted hd.apart (fun v hv => ?_) (fun k => rfl) fun a ha => rfl
    cases hv
    rfl

theorem Hosts.recorded (h : s.Hosts env.newV5) (hd : Derives env.newV5 env.id)
    (hfresh : ∀ run index, WorkflowRunSpec.stepAgentId env.newV5 run index ≠ env.fresh)
    (hr : s.Recorded env c events) : (s.applyAll events).Hosts env.newV5 := by
  rcases hr.steady with hs | ⟨spec, name, -, rfl⟩ | ⟨e, rfl, he⟩
  · exact h.applyAll hd hs
  · refine (h.specified hd spec).applyAll hd fun e he => ?_
    obtain ⟨title, -, rfl⟩ := Option.map_eq_some_iff.mp (Option.mem_toList.mp he)
    exact steady_of_isQuiet rfl
  · rcases he with ⟨parent, graph, -, rfl⟩ | ⟨parent, title, task, agentType, -, rfl⟩ |
      ⟨parent, sourceSeq, seed, message, title, runtime, -, -, rfl⟩ | ⟨gone, -, -, rfl⟩
    · refine h.inserted hfresh (fun v hv => ?_) (fun k => rfl) fun a _ => rfl
      cases hv
      rfl
    · exact h.inserted hfresh (fun v hv => absurd hv (by simp [RunState.workflow?]))
        (fun k => rfl) fun a ha => AList.lookup_insert_ne ha
    · exact h.inserted hfresh
        (fun v hv => absurd hv (by simp [RunState.workflow?])) (fun k => rfl)
        fun a ha => AList.lookup_insert_ne ha
    · exact h.deleted gone

theorem Hosts.handleCommand (h : s.Hosts env.newV5) (hd : Derives env.newV5 env.id)
    (hfresh : ∀ run index, WorkflowRunSpec.stepAgentId env.newV5 run index ≠ env.fresh) :
    (s.applyAll (s.handleCommand env c).events).Hosts env.newV5 := by
  obtain ⟨recorded, hr, he⟩ := handleCommand_journals (s := s) (c := c)
  have hrec := h.recorded hd hfresh hr
  rcases he with he | he
  · rw [he]
    exact hrec
  · rw [he, applyAll_append]
    exact hrec.applyAll hd fun e he => steady_of_atBoundary (atBoundary_flushThenDrain e he)

structure StepAgents (newV5 : String → String → String) (s : SessionState) : Prop where
  indexed : s.Indexed newV5
  hosts : s.Hosts newV5

theorem stepAgents_of_reachable (hd : Derives newV5 id)
    (h : (running id newV5).Reachable s) : s.StepAgents newV5 := by
  refine h.invariant ?_ ?_
  · rintro s rfl
    have hnone : ∀ r, SessionState.empty.forest.progress r = none := fun _ => rfl
    refine ⟨fun r g w hp => ?_, fun k hk => absurd hk Bool.false_ne_true, fun r g w hp => ?_⟩
    · rw [hnone] at hp
      cases hp
    · rw [hnone] at hp
      cases hp
  · rintro s l t hs hstep ⟨hunused, rfl⟩
    have hserved : Derives (l.1.serving id newV5).newV5 (l.1.serving id newV5).id := hd
    exact ⟨hstep.indexed.handleCommand
        (rooted_of_reachable hd.apart hs) hunused.entry,
      hstep.hosts.handleCommand hserved hunused.derived⟩

theorem executionOfAgent_derived (h : s.StepAgents newV5) (hd : Derives newV5 id)
    (hp : s.forest.progress r = some (g, w)) {i : ℕ} {step : StepRun}
    (hs : w.steps[i]? = some step) : s.forest.executionOfAgent step.agent = some (r, i) := by
  have hagent := h.indexed r g w hp i step hs
  obtain ⟨-, hlookup⟩ := h.hosts.agents r g w hp step (List.mem_of_getElem? hs)
  obtain ⟨parent, v, he, -, rfl⟩ := entry_of_progress hp
  have howner : s.forest.ownerOfAgent step.agent = some (r, ⟨parent, .workflow v⟩) := by
    unfold RunForest.ownerOfAgent
    rw [hlookup, Option.bind_some, he]
    rfl
  have hindex : v.run.indexOfAgent step.agent = some i := by
    unfold WorkflowRunState.indexOfAgent
    rw [List.findIdx?_eq_some_iff_getElem]
    obtain ⟨hlt, hget⟩ := List.getElem?_eq_some_iff.mp hs
    refine ⟨hlt, decide_eq_true (congrArg StepRun.agent hget), ?_⟩
    intro j hj
    rw [Bool.not_eq_true, decide_eq_false_iff_not]
    intro heq
    have hj' := h.indexed r g _ hp j _ (List.getElem?_eq_getElem (hj.trans hlt))
    rw [heq, hagent] at hj'
    have := (hd.injective _ _ _ _ hj').2
    omega
  unfold RunForest.executionOfAgent
  rw [howner]
  show (v.run.indexOfAgent step.agent).map _ = _
  rw [hindex]
  rfl

end SessionState

end Horsie.Session
