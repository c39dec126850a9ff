import Horsie.Session.Ancestry
import Horsie.Session.Sends

/-!
# A boundary runs dry

An action that is carried out is no longer due: a run that was moved is decided about no more, and a
child that was reported owes nothing. So a boundary needs two rounds. The first moves every run
something is decided about; the second reports those that ended, and what could not be reported
stays (`boundary_fixpoint`). The cap on the rounds is never reached.
-/

namespace Horsie.Session

open Lib

/-! ## What makes an action due -/

/-- A child that is to be reported, or a run something is decided about. -/
inductive Trigger
  | owed (child : String)
  | decided (run : String)
deriving DecidableEq

def AgentAction.trigger : AgentAction → Trigger
  | .deliver d => .owed d.child
  | .startStep st => .decided st.run
  | .finish run _ | .fail run _ => .decided run

theorem AgentAction.trigger_eq_decided {a : AgentAction} {r : String} :
    a.trigger = .decided r ↔ a.run? = some r := by
  cases a <;> simp [AgentAction.trigger, AgentAction.run?]

def Env.reaches (env : Env) (d : Delivery) : Bool :=
  env.spawns (d.recipient.agentId env.id) && env.tells (d.recipient.agentId env.id)

def SessionDomainEvent.startedRun? : SessionDomainEvent → Option String
  | .stepStarted run _ _ _ _ _ _ _ => some run
  | _ => none

def RunEntry.told (e : RunEntry) : RunEntry :=
  { e with state := match e.state with
    | .sub r => .sub { r with notified := true }
    | .workflow w => .workflow { w with notified := true }
    | .main r => .main r
    | .subSession r => .subSession r }

namespace SessionState

variable {s t : SessionState} {env : Env} {a : AgentAction} {as : List AgentAction}
  {d : Delivery} {k r : String} {g : WorkflowRunSpec} {w : WorkflowRunState}

/-! ## One action -/

theorem deliver_of_not_reaches (h : env.reaches d = false) : s.deliver env d = {} := by
  unfold deliver
  dsimp only
  unfold Env.reaches at h
  rw [h]
  rfl

theorem perform_empty (h : (s.perform env a).events = []) :
    s.perform env a = {} ∧ ∃ d, a = .deliver d ∧ env.reaches d = false := by
  cases a with
  | deliver d =>
    cases hd : env.reaches d with
    | false => exact ⟨deliver_of_not_reaches hd, d, rfl, hd⟩
    | true =>
      change (s.deliver env d).events = [] at h
      unfold deliver at h
      dsimp only at h
      unfold Env.reaches at hd
      rw [hd] at h
      cases h
  | startStep st =>
    change (s.startStep env st).events = [] at h
    rcases @startStep_events s env st with ⟨-, hs⟩ | ⟨error, hs⟩ <;> rw [hs] at h <;>
      cases h
  | finish | fail => exact absurd h (by simp [perform, Effect.persist])

theorem entry_told {f : RunForest} {child : String} {change : RunState → RunState}
    (h : ∀ e, f.entry child = some e → { e with state := change e.state } = e.told) :
    (f.modifyState child change).entry k =
      if k = child then (f.entry k).map RunEntry.told else f.entry k := by
  rw [RunForest.entry_modifyState]
  by_cases hk : k = child
  · subst hk
    rw [if_pos rfl, if_pos rfl]
    cases he : f.entry k with
    | none => rfl
    | some e => exact congrArg some (h e he)
  · rw [if_neg hk, if_neg hk]

theorem entry_deliver : (s.applyAll (s.deliver env d).events).forest.entry k =
    if env.reaches d = true ∧ k = d.child then (s.forest.entry k).map RunEntry.told
    else s.forest.entry k := by
  cases hd : env.reaches d with
  | false =>
    rw [deliver_of_not_reaches hd, if_neg fun h => Bool.false_ne_true h.1]
    rfl
  | true =>
    have hiff : true = true ∧ k = d.child ↔ k = d.child := ⟨fun h => h.2, fun h => ⟨rfl, h⟩⟩
    rw [if_congr hiff rfl rfl]
    unfold deliver
    unfold Env.reaches at hd
    rw [if_pos hd]
    cases he : s.forest.entry d.child with
    | none =>
      refine entry_told fun e h => ?_
      rw [he] at h
      cases h
    | some e =>
      have hsame : ∀ e', s.forest.entry d.child = some e' → e' = e := fun e' h =>
        Option.some.inj (h.symm.trans he)
      obtain ⟨parent, state⟩ := e
      cases state with
      | main | sub | workflow | subSession =>
        refine entry_told fun e' h => ?_
        obtain rfl := hsame e' h
        rfl

theorem entry_perform_other (hr : a.run? ≠ some k) (hd : ∀ d, a ≠ .deliver d) :
    (s.applyAll (s.perform env a).events).forest.entry k = s.forest.entry k := by
  have hrun : ∀ run (f : RunState → RunState), run ≠ k →
      (s.forest.modifyState run f).entry k = s.forest.entry k := by
    intro run f hne
    rw [RunForest.entry_modifyState, if_neg fun h => hne h.symm]
  cases a with
  | deliver d => exact absurd rfl (hd d)
  | startStep st =>
    have hne : st.run ≠ k := fun h => hr (congrArg some h)
    show (s.applyAll (s.startStep env st).events).forest.entry k = _
    rcases @startStep_events s env st with ⟨-, hs⟩ | ⟨error, hs⟩ <;> rw [hs]
    · exact hrun st.run _ hne
    · exact hrun st.run _ hne
  | finish run | fail run => exact hrun run _ fun h => hr (congrArg some h)

/-! ## What is owed -/

/-- Nothing is owed of a child any more. -/
def Paid (s : SessionState) (env : Env) (k : String) : Prop :=
  ∀ e, s.forest.entry k = some e → owedPart env k e.state = none

theorem owedPart_told {e : RunEntry} : owedPart env k e.told.state = none := by
  obtain ⟨parent, state⟩ := e
  cases state <;> simp [RunEntry.told, owedPart]

theorem Paid.perform (h : s.Paid env k) (hr : a.run? ≠ some k) :
    (s.applyAll (s.perform env a).events).Paid env k := by
  intro e he
  by_cases hd : ∃ d, a = .deliver d
  · obtain ⟨d, rfl⟩ := hd
    change (s.applyAll (s.deliver env d).events).forest.entry k = some e at he
    rw [entry_deliver] at he
    split_ifs at he
    · obtain ⟨e', -, rfl⟩ := Option.map_eq_some_iff.mp he
      exact owedPart_told
    · exact h e he
  · rw [entry_perform_other hr fun d heq => hd ⟨d, heq⟩] at he
    exact h e he

theorem Paid.performAll (h : s.Paid env k) (hr : ∀ a ∈ as, a.run? ≠ some k) :
    (s.applyAll (performAll env s as).events).Paid env k := by
  induction as generalizing s with
  | nil => exact h
  | cons a as ih =>
    show (s.applyAll (_ ++ _)).Paid env k
    rw [applyAll_append]
    exact ih (h.perform (hr a List.mem_cons_self)) fun b hb => hr b (List.mem_cons_of_mem _ hb)

theorem paid_deliver (hd : env.reaches d = true) :
    (s.applyAll (s.perform env (.deliver d)).events).Paid env d.child := by
  intro e he
  change (s.applyAll (s.deliver env d).events).forest.entry d.child = some e at he
  rw [entry_deliver, if_pos ⟨hd, rfl⟩] at he
  obtain ⟨e', -, rfl⟩ := Option.map_eq_some_iff.mp he
  exact owedPart_told

theorem paid_performAll (hmem : .deliver d ∈ as) (hd : env.reaches d = true)
    (hr : ∀ a ∈ as, a.run? ≠ some d.child) :
    (s.applyAll (performAll env s as).events).Paid env d.child := by
  induction as generalizing s with
  | nil => cases hmem
  | cons a as ih =>
    show (s.applyAll (_ ++ _)).Paid env d.child
    rw [applyAll_append]
    have hrest : ∀ b ∈ as, b.run? ≠ some d.child := fun b hb => hr b (List.mem_cons_of_mem _ hb)
    rcases List.mem_cons.mp hmem with rfl | hmem
    · exact (paid_deliver hd).performAll hrest
    · exact ih hmem hrest

theorem entry_performAll_other
    (h : ∀ a ∈ as, a.run? ≠ some k ∧ ∀ d, a = .deliver d → d.child = k → env.reaches d = false) :
    (s.applyAll (performAll env s as).events).forest.entry k = s.forest.entry k := by
  induction as generalizing s with
  | nil => rfl
  | cons a as ih =>
    show (s.applyAll (_ ++ _)).forest.entry k = _
    rw [applyAll_append]
    refine (ih fun b hb => h b (List.mem_cons_of_mem _ hb)).trans ?_
    obtain ⟨hr, hunreached⟩ := h a List.mem_cons_self
    by_cases hd : ∃ d, a = .deliver d
    · obtain ⟨d, rfl⟩ := hd
      refine entry_deliver.trans (if_neg ?_)
      rintro ⟨hreach, rfl⟩
      rw [hunreached d rfl rfl] at hreach
      exact Bool.false_ne_true hreach
    · exact entry_perform_other hr fun d heq => hd ⟨d, heq⟩

theorem mem_owedDeliveries : .deliver d ∈ s.owedDeliveries env ↔ ∃ e parent,
    s.forest.entry d.child = some e ∧ e.parent = some parent ∧
      owedPart env d.child e.state = some d.part ∧ s.agentKeyOf parent = some d.recipient := by
  unfold owedDeliveries
  rw [List.mem_filterMap]
  constructor
  · rintro ⟨⟨child, e⟩, hmem, h⟩
    obtain ⟨parent, hp, h⟩ := Option.bind_eq_some_iff.mp h
    obtain ⟨part, hpart, h⟩ := Option.bind_eq_some_iff.mp h
    obtain ⟨key, hkey, h⟩ := Option.map_eq_some_iff.mp h
    cases h
    exact ⟨e, parent, Map.mem_toPairs.mp hmem, hp, hpart, hkey⟩
  · rintro ⟨e, parent, he, hp, hpart, hkey⟩
    refine ⟨(d.child, e), Map.mem_toPairs.mpr he, ?_⟩
    rw [hp, Option.bind_some, hpart, Option.bind_some, hkey]
    rfl

theorem deliver_of_mem_owedDeliveries (h : a ∈ s.owedDeliveries env) : ∃ d, a = .deliver d := by
  obtain ⟨e, -, h⟩ := List.mem_filterMap.mp h
  obtain ⟨parent, -, h⟩ := Option.bind_eq_some_iff.mp h
  obtain ⟨part, -, h⟩ := Option.bind_eq_some_iff.mp h
  obtain ⟨key, -, rfl⟩ := Option.map_eq_some_iff.mp h
  exact ⟨_, rfl⟩

theorem Paid.not_owed (h : s.Paid env d.child) : .deliver d ∉ s.owedDeliveries env := by
  intro hmem
  obtain ⟨e, parent, he, -, hpart, -⟩ := mem_owedDeliveries.mp hmem
  rw [h e he] at hpart
  cases hpart

/-! ## A round -/

/-- Nothing is decided about any run. -/
def Settled (s : SessionState) (env : Env) : Prop := ∀ r g w, s.forest.progress r = some (g, w) →
  WorkflowOrchestrator.stepActions env.newV5 ⟨r, g⟩ w = []

def round (env : Env) (s : SessionState) : Effect := performAll env s (s.nextActions env)

/-- Whether a state has only reports that reach nobody. -/
def Dry (s : SessionState) (env : Env) : Prop :=
  ∀ a ∈ s.nextActions env, ∃ d, a = .deliver d ∧ env.reaches d = false

theorem performAll_of_unreached (h : ∀ a ∈ as, ∃ d, a = .deliver d ∧ env.reaches d = false) :
    performAll env s as = {} := by
  induction as generalizing s with
  | nil => rfl
  | cons a as ih =>
    obtain ⟨d, rfl, hd⟩ := h a List.mem_cons_self
    show (s.deliver env d).andThen (performAll env (s.applyAll (s.deliver env d).events) as) = {}
    rw [deliver_of_not_reaches hd, ih fun b hb => h b (List.mem_cons_of_mem _ hb)]
    rfl

theorem unreached_of_performAll (h : (performAll env s as).events = []) :
    ∀ a ∈ as, ∃ d, a = .deliver d ∧ env.reaches d = false := by
  induction as generalizing s with
  | nil => exact fun a ha => absurd ha List.not_mem_nil
  | cons a as ih =>
    obtain ⟨hfirst, hrest⟩ := List.append_eq_nil_iff.mp h
    intro b hb
    rcases List.mem_cons.mp hb with rfl | hb
    · exact (perform_empty hfirst).2
    · exact ih hrest b hb

theorem Dry.round (h : s.Dry env) : round env s = {} := performAll_of_unreached h

theorem dry_of_round (h : (round env s).events = []) : s.Dry env := unreached_of_performAll h

theorem Settled.workflowActions (h : s.Settled env) : s.workflowActions env = [] := by
  rw [List.eq_nil_iff_forall_not_mem]
  intro a ha
  obtain ⟨⟨id, w⟩, hw, ha⟩ := List.mem_flatMap.mp ha
  obtain ⟨⟨k, e⟩, hmem, heq⟩ := List.mem_filterMap.mp hw
  obtain ⟨v, hv, heq⟩ := Option.map_eq_some_iff.mp heq
  obtain ⟨rfl, rfl⟩ := Prod.mk.inj heq
  have hp : s.forest.progress k = some (v.graph, v.run) := by
    refine RunForest.progress_eq_some.mpr ⟨v, ?_, rfl, rfl⟩
    exact Option.bind_eq_some_iff.mpr ⟨e, Map.mem_toPairs.mp hmem, hv⟩
  change a ∈ WorkflowOrchestrator.stepActions env.newV5 ⟨k, v.graph⟩ v.run at ha
  rw [h k v.graph v.run hp] at ha
  cases ha

theorem settled_round (hready : (s.sessionRuntime env.id).readyOn = true) :
    (s.applyAll (round env s).events).Settled env := by
  intro r g w hp
  cases hbefore : s.forest.progress r with
  | none =>
    rw [show (s.applyAll (round env s).events).forest.progress r = none from
      progress_round_none hbefore] at hp
    cases hp
  | some p =>
    obtain ⟨g', w'⟩ := p
    obtain ⟨w'', hw'', hadv, hdriven⟩ := progress_round hbefore
    obtain ⟨rfl, rfl⟩ := Prod.mk.inj (Option.some.inj (hw''.symm.trans hp))
    by_cases hdue : WorkflowOrchestrator.stepActions env.newV5 ⟨r, g'⟩ w' = []
    · rcases hadv with rfl | hd
      · exact hdue
      · exact absurd hd (WorkflowOrchestrator.not_driven hdue)
    · exact (hdriven hready hdue).stepActions

theorem run?_of_owed (h : a ∈ s.owedDeliveries env) (r : String) : a.run? ≠ some r := by
  obtain ⟨d, rfl⟩ := deliver_of_mem_owedDeliveries h
  simp [AgentAction.run?]

theorem Settled.nextActions (h : s.Settled env)
    (hready : (s.sessionRuntime env.id).readyOn = true) :
    s.nextActions env = s.owedDeliveries env := by
  unfold SessionState.nextActions
  rw [if_pos hready, h.workflowActions, List.append_nil]

theorem agentKeyOf_eq {id : String} : s.agentKeyOf id = (s.forest.agents.lookup id).bind fun k =>
    (s.forest.shape k).map fun x => match x.2 with
      | .main => .main
      | .sub => .sub id
      | .workflow => .step id
      | .subSession => .subSession id := by
  unfold agentKeyOf RunForest.ownerOfAgent RunForest.shape
  cases s.forest.agents.lookup id with
  | none => rfl
  | some k =>
    rw [Option.bind_some, Option.bind_some]
    cases s.forest.entry k with
    | none => rfl
    | some e =>
      obtain ⟨parent, state⟩ := e
      cases state <;> rfl

theorem agents_performAll (h : ∀ a ∈ as, a.run? = none) :
    (s.applyAll (performAll env s as).events).forest.agents = s.forest.agents := by
  induction as generalizing s with
  | nil => rfl
  | cons a as ih =>
    show (s.applyAll (_ ++ _)).forest.agents = _
    rw [applyAll_append]
    refine (ih fun b hb => h b (List.mem_cons_of_mem _ hb)).trans ?_
    cases a with
    | deliver d =>
      show (s.applyAll (s.deliver env d).events).forest.agents = _
      rcases @deliver_events s env d with hd | hd | hd <;> rw [hd] <;> rfl
    | startStep | finish | fail =>
      exact absurd (h _ List.mem_cons_self) (by simp [AgentAction.run?])

theorem agentKeyOf_performAll (h : ∀ a ∈ as, a.run? = none) {id : String} :
    (s.applyAll (performAll env s as).events).agentKeyOf id = s.agentKeyOf id := by
  rw [agentKeyOf_eq, agentKeyOf_eq, agents_performAll h]
  cases s.forest.agents.lookup id with
  | none => rfl
  | some k =>
    rw [Option.bind_some, Option.bind_some, shape_performAll]

theorem Settled.dry (h : s.Settled env) : (s.applyAll (round env s).events).Dry env := by
  by_cases hready : (s.sessionRuntime env.id).readyOn = true
  swap
  · have hnone : s.nextActions env = [] := if_neg hready
    have hsame : s.applyAll (round env s).events = s := by
      unfold round
      rw [hnone]
      rfl
    rw [hsame]
    intro a ha
    rw [hnone] at ha
    cases ha
  have hactions := h.nextActions hready
  have hround : (round env s).events = (performAll env s (s.owedDeliveries env)).events := by
    unfold round
    rw [hactions]
  rw [hround]
  have hrun : ∀ a ∈ s.owedDeliveries env, ∀ r, a.run? ≠ some r := fun a => run?_of_owed
  set t := s.applyAll (performAll env s (s.owedDeliveries env)).events with ht
  have hsettled : t.Settled env := by
    intro r g w hp
    rw [ht, progress_performAll_other fun a ha => hrun a ha r] at hp
    exact h r g w hp
  intro a ha
  by_cases hready' : (t.sessionRuntime env.id).readyOn = true
  swap
  · rw [show t.nextActions env = [] from if_neg hready'] at ha
    cases ha
  rw [hsettled.nextActions hready'] at ha
  obtain ⟨d, rfl⟩ := deliver_of_mem_owedDeliveries ha
  refine ⟨d, rfl, ?_⟩
  by_contra hreach
  have hd : env.reaches d = true := Bool.not_eq_false _ ▸ hreach
  by_cases hsent : ∃ d', .deliver d' ∈ s.owedDeliveries env ∧ d'.child = d.child ∧
      env.reaches d' = true
  · obtain ⟨d', hmem, hchild, hd'⟩ := hsent
    have hpaid : t.Paid env d'.child := paid_performAll hmem hd' fun a ha => hrun a ha _
    rw [hchild] at hpaid
    exact hpaid.not_owed ha
  · obtain ⟨e, parent, he, hp, hpart, hkey⟩ := mem_owedDeliveries.mp ha
    have hentry : t.forest.entry d.child = s.forest.entry d.child := by
      refine entry_performAll_other fun a ha => ⟨hrun a ha _, fun d' hd' hchild => ?_⟩
      subst hd'
      by_contra hreach'
      exact hsent ⟨d', ha, hchild, Bool.not_eq_false _ ▸ hreach'⟩
    have hkeys : t.agentKeyOf parent = s.agentKeyOf parent := by
      refine agentKeyOf_performAll fun a ha => ?_
      obtain ⟨d', rfl⟩ := deliver_of_mem_owedDeliveries ha
      rfl
    exact hsent ⟨d, mem_owedDeliveries.mpr
      ⟨e, parent, hentry ▸ he, hp, hpart, hkeys ▸ hkey⟩, rfl, hd⟩

/-! ## All rounds -/

theorem flushRounds_succ (n : ℕ) : flushRounds env (n + 1) s =
    if (round env s).events.isEmpty then round env s
    else (round env s).andThen (flushRounds env n (s.applyAll (round env s).events)) := rfl

theorem flushRounds_eq (n : ℕ) : flushRounds env (n + 2) s =
    (round env s).andThen (round env (s.applyAll (round env s).events)) := by
  have hdry : ∀ (t : SessionState) (n : ℕ), t.Dry env → flushRounds env n t = {} := by
    intro t n ht
    cases n with
    | zero => rfl
    | succ n =>
      unfold flushRounds
      rw [show performAll env t (t.nextActions env) = {} from ht.round]
      rfl
  have hnil : ∀ e : Effect, e.andThen {} = e := by
    intro e
    obtain ⟨events, sent, reply, stop⟩ := e
    simp [Effect.andThen]
  rw [flushRounds_succ]
  by_cases hempty : (round env s).events = []
  · -- nothing came of the first round, and nothing will of another
    have hround := (dry_of_round hempty).round
    rw [if_pos (List.isEmpty_iff.mpr hempty), hempty, hround]
    show _ = Effect.andThen {} (round env s)
    rw [hround]
    rfl
  · rw [if_neg fun h => hempty (List.isEmpty_iff.mp h)]
    have hready : (s.sessionRuntime env.id).readyOn = true := by
      by_contra hnot
      refine hempty ?_
      unfold round
      rw [show s.nextActions env = [] from if_neg hnot]
      rfl
    have hdry₂ := (settled_round hready).dry
    rw [flushRounds_succ, hdry _ n hdry₂, hnil, ite_self]

theorem dry_flushThenDrain : (s.applyAll (s.flushThenDrain env).events).Dry env := by
  have hflush : s.flushThenDrain env = _ := @flushRounds_eq s env 6
  rw [hflush]
  show (s.applyAll ((round env s).events ++ (round env _).events)).Dry env
  rw [applyAll_append]
  by_cases hready : (s.sessionRuntime env.id).readyOn = true
  · exact (settled_round hready).dry
  · have hnone : s.nextActions env = [] := if_neg hready
    have hsame : s.applyAll (round env s).events = s := by
      unfold round
      rw [hnone]
      rfl
    rw [hsame, hsame]
    intro a ha
    rw [hnone] at ha
    cases ha

/-! ## Once each -/

/-- The child an action reports, if its recipient can be reached. -/
def delivers? (env : Env) : AgentAction → Option String
  | .deliver d => if env.reaches d then some d.child else none
  | .startStep _ | .finish _ _ | .fail _ _ => none

theorem delivered_perform : (s.perform env a).reports =
    (delivers? env a).toList := by
  cases a with
  | deliver d =>
    show (s.deliver env d).sent.filterMap _ = (if env.reaches d = true then _ else none).toList
    cases hd : env.reaches d with
    | false =>
      rw [deliver_of_not_reaches hd]
      rfl
    | true =>
      unfold deliver
      unfold Env.reaches at hd
      rw [if_pos hd]
      rfl
  | startStep st =>
    show (s.startStep env st).sent.filterMap _ = []
    unfold startStep
    split
    · split_ifs <;> rfl
    · rfl
    · rfl
  | finish | fail => rfl

theorem delivered_performAll : (performAll env s as).reports =
    as.filterMap (delivers? env) := by
  induction as generalizing s with
  | nil => rfl
  | cons a as ih =>
    show ((s.perform env a).sent ++ (performAll env _ as).sent).filterMap _ = _
    rw [List.filterMap_append]
    show (s.perform env a).reports ++ (performAll env _ as).reports = _
    rw [delivered_perform, ih, List.filterMap_cons]
    cases delivers? env a <;> rfl

theorem started_performAll : ((performAll env s as).events.filterMap
    SessionDomainEvent.startedRun?).Sublist (as.filterMap AgentAction.run?) := by
  induction as generalizing s with
  | nil => exact .slnil
  | cons a as ih =>
    show (((s.perform env a).events ++ (performAll env _ as).events).filterMap _).Sublist _
    rw [List.filterMap_append, List.filterMap_cons]
    cases a with
    | deliver d =>
      show (((s.deliver env d).events.filterMap _) ++ _).Sublist (as.filterMap AgentAction.run?)
      rcases @deliver_events s env d with hd | hd | hd <;> rw [hd] <;> exact ih
    | startStep st =>
      show (((s.startStep env st).events.filterMap _) ++ _).Sublist
        (st.run :: as.filterMap AgentAction.run?)
      rcases @startStep_events s env st with ⟨-, hs⟩ | ⟨error, hs⟩ <;> rw [hs]
      · exact ih.cons_cons st.run
      · exact ih.cons st.run
    | finish run | fail run => exact ih.cons run

theorem pairwise_owedDeliveries :
    (s.owedDeliveries env).Pairwise fun a b => a.trigger ≠ b.trigger := by
  unfold owedDeliveries
  have hkeys := Map.nodup_toPairs (m := s.forest.entries)
  rw [List.Nodup, List.pairwise_map] at hkeys
  refine hkeys.filterMap _ fun x y hxy a ha b hb htrigger => hxy ?_
  obtain ⟨parent, -, ha⟩ := Option.bind_eq_some_iff.mp ha
  obtain ⟨part, -, ha⟩ := Option.bind_eq_some_iff.mp ha
  obtain ⟨key, -, rfl⟩ := Option.map_eq_some_iff.mp ha
  obtain ⟨parent', -, hb⟩ := Option.bind_eq_some_iff.mp hb
  obtain ⟨part', -, hb⟩ := Option.bind_eq_some_iff.mp hb
  obtain ⟨key', -, rfl⟩ := Option.map_eq_some_iff.mp hb
  exact Trigger.owed.inj htrigger

theorem not_decided_of_owed (h : .deliver d ∈ s.owedDeliveries env) :
    ∀ a ∈ s.nextActions env, a.run? ≠ some d.child := by
  intro a ha hr
  obtain ⟨e, parent, he, -, hpart, -⟩ := mem_owedDeliveries.mp h
  have hmem : a ∈ (s.nextActions env).filter (·.run? = some d.child) :=
    List.mem_filter.mpr ⟨ha, decide_eq_true hr⟩
  rw [nextActions_filter] at hmem
  split_ifs at hmem
  · cases hp : s.forest.progress d.child with
    | none =>
      rw [hp] at hmem
      cases hmem
    | some p =>
      obtain ⟨g, w⟩ := p
      obtain ⟨parent', v, he', -, rfl⟩ := entry_of_progress hp
      cases he.symm.trans he'
      have hterm : v.run.status.isTerminal = true := by
        by_contra hnot
        rw [owedPart, if_pos (by simp [hnot])] at hpart
        cases hpart
      rw [hp] at hmem
      change a ∈ WorkflowOrchestrator.stepActions env.newV5 ⟨d.child, g⟩ v.run at hmem
      rw [WorkflowRunState.stepActions_of_terminal hterm] at hmem
      cases hmem
  · cases hmem

theorem length_decided (r : String) :
    ((s.nextActions env).filter (·.run? = some r)).length ≤ 1 := by
  rw [nextActions_filter]
  split_ifs
  · cases s.forest.progress r with
    | none => exact Nat.zero_le _
    | some p =>
      obtain ⟨g, w⟩ := p
      show (WorkflowOrchestrator.stepActions env.newV5 ⟨r, g⟩ w).length ≤ 1
      rcases @WorkflowOrchestrator.stepActions_cases env.newV5 ⟨r, g⟩ w with
        hnone | ⟨a, ha, -⟩
      · rw [hnone]
        exact Nat.zero_le _
      · rw [ha]
        exact Nat.le_refl _
  · exact Nat.zero_le _

theorem nodup_decided : ((s.nextActions env).filterMap AgentAction.run?).Nodup := by
  rw [List.nodup_iff_count_le_one]
  intro r
  rw [List.count_filterMap, List.countP_eq_length_filter]
  refine Nat.le_trans (Nat.le_of_eq ?_) (@length_decided s env r)
  congr 2
  funext a
  exact Bool.beq_eq_decide_eq _ _

theorem mem_nextActions (h : .deliver d ∈ s.nextActions env) :
    .deliver d ∈ s.owedDeliveries env := by
  unfold nextActions at h
  split_ifs at h
  · rcases List.mem_append.mp h with h | h
    · exact h
    · obtain ⟨x, -, hx⟩ := List.mem_flatMap.mp h
      exact absurd (WorkflowOrchestrator.decides_of_mem hx).run? (by simp [AgentAction.run?])
  · cases h

theorem delivers?_eq_some : delivers? env a = some k ↔
    ∃ d, a = .deliver d ∧ env.reaches d = true ∧ d.child = k := by
  cases a with
  | deliver d =>
    show (if env.reaches d = true then some d.child else none) = some k ↔ _
    simp
  | startStep | finish | fail => simp [delivers?]

theorem nodup_delivered_round :
    ((round env s).reports).Nodup := by
  unfold round
  rw [delivered_performAll]
  have hone : (s.owedDeliveries env).filterMap (delivers? env) |>.Nodup := by
    refine pairwise_owedDeliveries.filterMap _ fun a b hab k hk k' hk' hkk => hab ?_
    subst hkk
    obtain ⟨d, rfl, -, hd⟩ := delivers?_eq_some.mp hk
    obtain ⟨d', rfl, -, hd'⟩ := delivers?_eq_some.mp hk'
    exact congrArg Trigger.owed (hd.trans hd'.symm)
  unfold nextActions
  split_ifs
  · have hnone : (s.workflowActions env).filterMap (delivers? env) = [] := by
      rw [List.filterMap_eq_nil_iff]
      intro a ha
      rw [Option.eq_none_iff_forall_ne_some]
      intro k hk
      obtain ⟨d, rfl, -⟩ := delivers?_eq_some.mp hk
      obtain ⟨x, -, hx⟩ := List.mem_flatMap.mp ha
      exact absurd (WorkflowOrchestrator.decides_of_mem hx).run? (by simp [AgentAction.run?])
    rw [List.filterMap_append, hnone, List.append_nil]
    exact hone
  · exact List.nodup_nil

theorem paid_of_delivered (h : k ∈ (round env s).reports) :
    (s.applyAll (round env s).events).Paid env k := by
  unfold round at h
  rw [delivered_performAll] at h
  obtain ⟨a, ha, hk⟩ := List.mem_filterMap.mp h
  obtain ⟨d, rfl, hd, rfl⟩ := delivers?_eq_some.mp hk
  exact paid_performAll ha hd (not_decided_of_owed (mem_nextActions ha))

theorem not_delivered_of_paid (h : s.Paid env k) :
    k ∉ (round env s).reports := by
  intro hk
  unfold round at hk
  rw [delivered_performAll] at hk
  obtain ⟨a, ha, hk⟩ := List.mem_filterMap.mp hk
  obtain ⟨d, rfl, -, rfl⟩ := delivers?_eq_some.mp hk
  exact h.not_owed (mem_nextActions ha)

theorem extinguished {pre post : List AgentAction} (hround : s.nextActions env = pre ++ a :: post)
    (ht : t = s.applyAll (performAll env s pre).events) (ha : (t.perform env a).events ≠ []) :
    ∀ b ∈ (t.applyAll (t.perform env a).events).nextActions env, b.trigger ≠ a.trigger := by
  intro b hb htrigger
  have hmem : a ∈ s.nextActions env := by
    rw [hround]
    exact List.mem_append_right _ List.mem_cons_self
  cases htr : a.trigger with
  | owed k =>
    obtain ⟨d, rfl⟩ : ∃ d, a = .deliver d := by
      cases a with
      | deliver d => exact ⟨d, rfl⟩
      | startStep | finish | fail => exact Trigger.noConfusion htr
    obtain ⟨d', rfl⟩ : ∃ d', b = .deliver d' := by
      cases b with
      | deliver d' => exact ⟨d', rfl⟩
      | startStep | finish | fail => exact Trigger.noConfusion htrigger
    have hd : env.reaches d = true := by
      by_contra hnot
      exact ha (congrArg Effect.events (deliver_of_not_reaches (Bool.eq_false_iff.mpr hnot)))
    have hpaid := paid_deliver (s := t) hd
    rw [← Trigger.owed.inj htrigger] at hpaid
    exact hpaid.not_owed (mem_nextActions hb)
  | decided r =>
    have hr : a.run? = some r := AgentAction.trigger_eq_decided.mp htr
    have hrb : b.run? = some r := AgentAction.trigger_eq_decided.mp (htrigger.trans htr)
    have hfilter : a ∈ (s.nextActions env).filter (·.run? = some r) :=
      List.mem_filter.mpr ⟨hmem, decide_eq_true hr⟩
    -- nothing before it in the round is about the same run
    have hpre : ∀ c ∈ pre, c.run? ≠ some r := by
      intro c hc hrc
      have hlength := @length_decided s env r
      rw [hround, List.filter_append, List.filter_cons_of_pos (by simpa using hr)] at hlength
      have hpos : 0 < (pre.filter (·.run? = some r)).length :=
        List.length_pos_of_mem (List.mem_filter.mpr ⟨hc, decide_eq_true hrc⟩)
      rw [List.length_append, List.length_cons] at hlength
      omega
    rw [nextActions_filter] at hfilter
    split_ifs at hfilter
    · cases hp : s.forest.progress r with
      | none =>
        rw [hp] at hfilter
        cases hfilter
      | some p =>
        obtain ⟨g, w⟩ := p
        rw [hp] at hfilter
        have hpt : t.forest.progress r = some (g, w) := by
          rw [ht, progress_performAll_other hpre, hp]
        obtain ⟨w', hw', hcarried⟩ := progress_perform hr hpt
        have hdriven : WorkflowOrchestrator.Driven env.newV5 ⟨r, g⟩ w w' := ⟨a, hfilter, hcarried⟩
        have hmemb : b ∈ ((t.applyAll (t.perform env a).events).nextActions env).filter
            (·.run? = some r) := List.mem_filter.mpr ⟨hb, decide_eq_true hrb⟩
        rw [nextActions_filter, hw'] at hmemb
        split_ifs at hmemb
        · change b ∈ WorkflowOrchestrator.stepActions env.newV5 ⟨r, g⟩ w' at hmemb
          rw [hdriven.stepActions] at hmemb
          cases hmemb
        · cases hmemb
    · cases hfilter

/-! ## The boundary -/

/-- What is promised of the actions of a boundary. -/
structure Flushed (env : Env) (s : SessionState) : Prop where
  /-- What is left to do are reports that reach nobody. -/
  rest : ∀ a ∈ (s.applyAll (s.flushThenDrain env).events).nextActions env,
    ∃ d, a = .deliver d ∧ env.reaches d = false
  rounds : ∀ n, flushRounds env (n + 2) s = flushRounds env 2 s
  extinguished : ∀ pre a post, s.nextActions env = pre ++ a :: post →
    ((s.applyAll (performAll env s pre).events).perform env a).events ≠ [] →
    ∀ b ∈ ((s.applyAll (performAll env s pre).events).applyAll
      ((s.applyAll (performAll env s pre).events).perform env a).events).nextActions env,
      b.trigger ≠ a.trigger
  delivered : ((s.flushThenDrain env).reports).Nodup
  started : ((s.flushThenDrain env).events.filterMap SessionDomainEvent.startedRun?).Nodup

theorem flushThenDrain_eq : s.flushThenDrain env =
    (round env s).andThen (round env (s.applyAll (round env s).events)) := flushRounds_eq 6

theorem nodup_delivered : ((s.flushThenDrain env).reports).Nodup := by
  rw [flushThenDrain_eq]
  show (((round env s).sent ++ (round env _).sent).filterMap _).Nodup
  rw [List.filterMap_append, List.nodup_append]
  refine ⟨nodup_delivered_round, nodup_delivered_round, ?_⟩
  rintro k hk k' hk' rfl
  exact not_delivered_of_paid (paid_of_delivered hk) hk'

theorem nodup_started :
    ((s.flushThenDrain env).events.filterMap SessionDomainEvent.startedRun?).Nodup := by
  rw [flushThenDrain_eq]
  show (((round env s).events ++ (round env _).events).filterMap _).Nodup
  rw [List.filterMap_append]
  by_cases hready : (s.sessionRuntime env.id).readyOn = true
  · -- every run is settled after the first round
    have hnone : ((round env (s.applyAll (round env s).events)).events.filterMap
        SessionDomainEvent.startedRun?) = [] := by
      refine List.sublist_nil.mp (started_performAll.trans ?_)
      rw [List.filterMap_eq_nil_iff.mpr]
      intro a ha
      by_cases hready' : ((s.applyAll (round env s).events).sessionRuntime env.id).readyOn = true
      · rw [(settled_round hready).nextActions hready'] at ha
        obtain ⟨d, rfl⟩ := deliver_of_mem_owedDeliveries ha
        rfl
      · rw [show nextActions _ env = [] from if_neg hready'] at ha
        cases ha
    rw [hnone, List.append_nil]
    exact started_performAll.nodup nodup_decided
  · have hnone : s.nextActions env = [] := if_neg hready
    have hround : round env s = {} := by
      unfold round
      rw [hnone]
      rfl
    rw [hround]
    show (_ ++ ((round env s).events.filterMap _)).Nodup
    rw [hround]
    exact List.nodup_nil

end SessionState

/-- A boundary carries out all that is due and can be carried out, and each action once. -/
theorem boundary_fixpoint (env : Env) (s : SessionState) : s.Flushed env where
  rest := SessionState.dry_flushThenDrain
  rounds n := (SessionState.flushRounds_eq n).trans (SessionState.flushRounds_eq 0).symm
  extinguished _ _ _ hround ha := SessionState.extinguished hround rfl ha
  delivered := SessionState.nodup_delivered
  started := SessionState.nodup_started

end Horsie.Session
