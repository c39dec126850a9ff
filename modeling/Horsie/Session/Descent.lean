import Horsie.Session.Ancestry

/-!
# What lies above and below an agent

In every forest a session reaches the indexes agree with the entries, and what the forest computes
of an agent is what its links say: its depth is the length of its climb, what it descends from is
what it climbs past, and what is below it is the same by agents and by entries (`forest_ordered`). A
climb ends at the root, or at a sub session that was removed (`chain_cut`).

A delete stops all agents below the one it removes, also the sub sessions that stay
(`delete_stops_branch`): it stops what it removes where nothing was branched from that agent
(`delete_exact`).
-/

namespace Horsie.Session

open Lib

namespace RunForest

def EndsAtRoot (f : RunForest) (a : String) : Prop :=
  ∃ n top k, Climbs f.above n a top ∧ f.root = some k ∧ f.agents.lookup top = some k

end RunForest

namespace SessionState

variable {s : SessionState} {a b k p id : String} {newV5 : String → String → String} {n : ℕ}

/-! ## Links and entries -/

theorem lookup_of_above (h : s.forest.above a = some p) : (s.forest.agents.lookup a).isSome := by
  obtain ⟨k, -, hk, -⟩ := RunForest.above_eq_some.mp h
  rw [hk]
  rfl

theorem Nested.parent_ne_run (h : s.Nested newV5) (hh : s.Hosts newV5) {q : Option String}
    {kind : RunKind} (hk : s.forest.shape k = some (some p, kind)) :
    s.forest.shape p ≠ some (q, .workflow) := by
  intro hp
  by_cases hkind : kind = .subSession
  · subst hkind
    obtain ⟨-, ⟨-, hnone⟩ | ⟨q', kind', hq', hkind'⟩⟩ := h.branched k p hk
    · rw [hnone] at hp
      cases hp
    · rw [hp] at hq'
      cases hq'
      rcases hkind' with hkind' | hkind' <;> exact RunKind.noConfusion hkind'
  · obtain ⟨host, hhost⟩ := Option.isSome_iff_exists.mp (h.delegated k p kind hk hkind)
    rcases RunForest.hosting_iff.mp (h.hosted p host hhost) with
      ⟨q', kind', hshape, hwork, rfl⟩ | ⟨g, w, hprog, step, hstep, rfl⟩
    · rw [hp] at hshape
      exact hwork (Prod.mk.inj (Option.some.inj hshape)).2.symm
    · obtain ⟨⟨index, hindex⟩, -⟩ := hh.agents host g w hprog step hstep
      refine hh.entries step.agent ?_ host index hindex.symm
      rw [entry_isSome_iff, hp]
      rfl

theorem Nested.mem_descendantAgents (h : s.Nested newV5) :
    b ∈ s.forest.descendantAgents a ↔ ∃ n, Climbs s.forest.above (n + 1) b a := by
  unfold RunForest.descendantAgents
  rw [List.mem_filter, Bool.and_eq_true, decide_eq_true_eq, RunForest.descendsFrom_iff h.ends]
  constructor
  · rintro ⟨-, hne, n, hc⟩
    cases n with
    | zero => exact absurd hc.eq_of_zero hne
    | succ n => exact ⟨n, hc⟩
  · rintro ⟨n, hc⟩
    refine ⟨?_, ?_, n + 1, hc⟩
    · obtain ⟨p, hp, -⟩ := hc.head
      exact AList.lookup_isSome.mp (lookup_of_above hp)
    · rintro rfl
      exact h.ends.not_circle hc

/-- An entry is below an agent if it runs under it, or under an agent below it. -/
theorem Nested.mem_descendantEntries (h : s.Nested newV5) (hh : s.Hosts newV5) :
    k ∈ s.forest.descendantEntries a ↔ ∃ e p n, s.forest.entry k = some e ∧ e.parent = some p ∧
      Climbs s.forest.above n p a := by
  have hlink : ∀ e : RunEntry, s.forest.entry k = some e → e.state.kind ≠ .workflow →
      s.forest.above k = e.parent := by
    intro e he hkind
    have hshape : s.forest.shape k = some (e.parent, e.state.kind) := by
      rw [RunForest.shape, he]
      rfl
    rw [RunForest.above_eq, h.own k e.parent e.state.kind hshape hkind, Option.bind_some, hshape]
    rfl
  unfold RunForest.descendantEntries
  rw [List.mem_map]
  constructor
  · rintro ⟨⟨k', e⟩, hmem, rfl⟩
    obtain ⟨hpair, hcond⟩ := List.mem_filter.mp hmem
    have he := Map.mem_toPairs.mp hpair
    obtain ⟨hne, hcond⟩ := (Bool.and_eq_true_iff).mp hcond
    have hagent : e.state.kind ≠ .workflow → s.forest.descendsFrom k' a = true →
        ∃ e p n, s.forest.entry k' = some e ∧ e.parent = some p ∧
          Climbs s.forest.above n p a := by
      intro hkind hdesc
      obtain ⟨n, hc⟩ := (RunForest.descendsFrom_iff h.ends).mp hdesc
      cases n with
      | zero => exact absurd hc.eq_of_zero (of_decide_eq_true hne)
      | succ n =>
        obtain ⟨p, hp, hrest⟩ := hc.head
        exact ⟨e, p, n, he, (hlink e he hkind).symm.trans hp, hrest⟩
    cases hs : e.state with
    | main | sub | subSession =>
      rw [hs] at hcond hagent
      exact hagent RunKind.noConfusion hcond
    | workflow w =>
      rw [hs] at hcond
      obtain ⟨p, hp, hcond⟩ := (Option.any_eq_true _ _).mp hcond
      refine ⟨e, p, ?_⟩
      rw [Bool.or_eq_true, decide_eq_true_eq, RunForest.descendsFrom_iff h.ends] at hcond
      rcases hcond with rfl | ⟨n, hc⟩
      · exact ⟨0, he, hp, .refl p⟩
      · exact ⟨n, he, hp, hc⟩
  · rintro ⟨e, p, n, he, hp, hc⟩
    refine ⟨(k, e), List.mem_filter.mpr ⟨Map.mem_toPairs.mpr he, ?_⟩, rfl⟩
    have hshape : s.forest.shape k = some (some p, e.state.kind) := by
      rw [RunForest.shape, he, Option.map_some, hp]
    cases hs : e.state with
    | main | sub | subSession =>
      have hk : Climbs s.forest.above (n + 1) k a := by
        refine .step ?_ hc
        rw [hlink e he (by rw [hs]; exact RunKind.noConfusion)]
        exact hp
      have hne : k ≠ a := by
        rintro rfl
        exact h.ends.not_circle hk
      exact Bool.and_eq_true_iff.mpr
        ⟨decide_eq_true hne, (RunForest.descendsFrom_iff h.ends).mpr ⟨n + 1, hk⟩⟩
    | workflow w =>
      rw [hs] at hshape
      have hne : k ≠ a := by
        rintro rfl
        -- the last link of the climb would lead to a run
        have hlast : ∃ j kind, s.forest.shape j = some (some k, kind) := by
          cases n with
          | zero => exact ⟨k, _, hc.eq_of_zero ▸ hshape⟩
          | succ n =>
            obtain ⟨x, -, hx⟩ := hc.last
            obtain ⟨j, d, -, hj, hd⟩ := RunForest.above_eq_some.mp hx
            refine ⟨j, d.state.kind, ?_⟩
            rw [RunForest.shape, hj, Option.map_some, hd]
        obtain ⟨j, kind, hj⟩ := hlast
        exact h.parent_ne_run hh hj hshape
      refine Bool.and_eq_true_iff.mpr ⟨decide_eq_true hne, (Option.any_eq_true _ _).mpr ⟨p, hp, ?_⟩⟩
      rw [Bool.or_eq_true, RunForest.descendsFrom_iff h.ends]
      exact .inr ⟨n, hc⟩

/-! ## The forest of a session -/

/-- What is promised of the forest. -/
structure Ordered (s : SessionState) : Prop where
  hosted : ∀ a k, s.forest.agents.lookup a = some k → s.forest.Hosting k a
  steps : ∀ run w, s.forest.workflow run = some w → ∀ step ∈ w.run.steps,
    s.forest.agents.lookup step.agent = some run
  acyclic : ∀ a n, ¬ Climbs s.forest.above (n + 1) a a
  /-- A climb ends at the root, or at an agent that is gone and that a sub session ran under, and is
  as long as the agent is deep. -/
  top : ∀ a, s.forest.isKnownAgent a = true → ∃ n top, Climbs s.forest.above n a top ∧
    s.forest.above top = none ∧ s.forest.depthOfAgent a = some n ∧
    (s.forest.EndsAtRoot a ∨
      s.forest.isKnownAgent top = false ∧ ∃ k, s.forest.shape k = some (some top, .subSession))
  descends : ∀ a b, s.forest.descendsFrom a b = true ↔
    Relation.ReflTransGen (fun x y => s.forest.above x = some y) a b
  agents : ∀ a b k, s.forest.agents.lookup b = some k →
    (b ∈ s.forest.descendantAgents a ↔ k ∈ s.forest.descendantEntries a)
  entries : ∀ a k, k ∈ s.forest.descendantEntries a ↔ ∃ e p, s.forest.entry k = some e ∧
    e.parent = some p ∧ (p = a ∨ p ∈ s.forest.descendantAgents a)

theorem Nested.ordered (h : s.Nested newV5) (hh : s.Hosts newV5) : s.Ordered where
  hosted := h.hosted
  steps run w hw step hstep :=
    (hh.agents run w.graph w.run (RunForest.progress_eq_some.mpr ⟨w, hw, rfl, rfl⟩) step hstep).2
  acyclic a n := h.ends.not_circle
  top a ha := by
    obtain ⟨n, top, hc, htop⟩ := h.ends.exists_top a
    have howner : (s.forest.ownerOfAgent a).isSome := by
      obtain ⟨k, hk⟩ := Option.isSome_iff_exists.mp ha
      obtain ⟨e, he, -⟩ := h.hosted a k hk
      rw [RunForest.ownerOfAgent_eq_some.mpr ⟨hk, he⟩]
      rfl
    refine ⟨n, top, hc, htop, RunForest.depthOfAgent_eq h.ends howner hc htop, ?_⟩
    cases hlookup : s.forest.agents.lookup top with
    | some k =>
      left
      obtain ⟨e, he, -⟩ := h.hosted top k hlookup
      have hshape : s.forest.shape k = some (none, e.state.kind) := by
        have hparent : e.parent = none := by
          rw [RunForest.above, RunForest.ownerOfAgent_eq_some.mpr ⟨hlookup, he⟩] at htop
          exact htop
        rw [RunForest.shape, he, Option.map_some, hparent]
      exact ⟨n, top, k, hc, h.root k _ hshape, hlookup⟩
    | none =>
      right
      unfold RunForest.isKnownAgent at ha ⊢
      rw [hlookup]
      refine ⟨rfl, ?_⟩
      cases n with
      | zero =>
        obtain rfl := hc.eq_of_zero
        rw [hlookup] at ha
        cases ha
      | succ n =>
        obtain ⟨x, -, hx⟩ := hc.last
        obtain ⟨k, e, -, he, hp⟩ := RunForest.above_eq_some.mp hx
        have hshape : s.forest.shape k = some (some top, e.state.kind) := by
          rw [RunForest.shape, he, Option.map_some, hp]
        refine ⟨k, ?_⟩
        by_cases hkind : e.state.kind = .subSession
        · rw [hshape, hkind]
        · have hsome := h.delegated k top _ hshape hkind
          rw [hlookup] at hsome
          cases hsome
  descends a b := by rw [RunForest.descendsFrom_iff h.ends, Climbs.exists_iff]
  agents a b k hb := by
    obtain ⟨e, he, -⟩ := h.hosted b k hb
    rw [h.mem_descendantAgents, h.mem_descendantEntries hh]
    constructor
    · rintro ⟨n, hc⟩
      obtain ⟨p, hp, hrest⟩ := hc.head
      obtain ⟨k', e', hk', he', hp'⟩ := RunForest.above_eq_some.mp hp
      cases hb.symm.trans hk'
      exact ⟨e', p, n, he', hp', hrest⟩
    · rintro ⟨e', p, n, he', hp, hc⟩
      exact ⟨n, .step (RunForest.above_eq_some.mpr ⟨k, e', hb, he', hp⟩) hc⟩
  entries a k := by
    rw [h.mem_descendantEntries hh]
    constructor
    · rintro ⟨e, p, n, he, hp, hc⟩
      refine ⟨e, p, he, hp, ?_⟩
      cases n with
      | zero => exact .inl hc.eq_of_zero
      | succ n => exact .inr (h.mem_descendantAgents.mpr ⟨n, hc⟩)
    · rintro ⟨e, p, he, hp, rfl | hbelow⟩
      · exact ⟨e, p, 0, he, hp, .refl p⟩
      · obtain ⟨n, hc⟩ := h.mem_descendantAgents.mp hbelow
        exact ⟨e, p, n + 1, he, hp, hc⟩

end SessionState

/-- The forest of every session is ordered. -/
theorem forest_ordered (id : String) (newV5 : String → String → String) (hd : Derives newV5 id)
    {s : SessionState} (h : (nesting id newV5).Reachable s) : s.Ordered :=
  (SessionState.nested_of_reachable hd h).ordered
    (SessionState.stepAgents_of_reachable hd h.unrestrict).hosts

def branches : List (Env × SessionCommand) :=
  [(.plain "1", .core (.create ⟨.agent, none⟩ none none)),
    (.plain "1", .subSession (.create "s" .fresh "go" "one" .inherit)),
    (.plain "2", .subSession (.create "1" .fresh "go on" "two" .inherit)),
    (.plain "3", .subAgent (.spawn "2" "scan" "scan it" none))]

/-- Below two branches the depth of a subagent is three. -/
theorem forest_ordered_branches : ∃ s, (nesting "s" joined).Reachable s ∧
    s.forest.isKnownAgent "3" = true ∧ s.forest.depthOfAgent "3" = some 3 ∧ s.Ordered := by
  let s := (System.steps? nest? .empty branches).get (by decide +kernel)
  have h : (nesting "s" joined).Reachable s := reachable_of_nest? (Option.some_get _).symm
  exact ⟨s, h, by decide +kernel, by decide +kernel,
    forest_ordered "s" joined (derives_joined rfl) h⟩

/-- Once the first branch is removed, the second runs under nobody that is there: its climb ends
below the root. -/
theorem chain_cut : ∃ s, (nesting "s" joined).Reachable s ∧ s.forest.isKnownAgent "2" = true ∧
    ¬ s.forest.EndsAtRoot "2" := by
  let s := (System.steps? nest? .empty
    (branches ++ [(Env.plain "4", .core (.deleteAgent "1"))])).get (by decide +kernel)
  refine ⟨s, reachable_of_nest? (Option.some_get _).symm, by decide +kernel, ?_⟩
  rintro ⟨n, top, k, hc, hroot, hk⟩
  have hroot' : s.forest.root = some "s" := by decide +kernel
  cases hroot'.symm.trans hroot
  have hlink : s.forest.above "2" = some "1" := by decide +kernel
  have htop : s.forest.above "1" = none := by decide +kernel
  cases n with
  | zero =>
    obtain rfl := hc.eq_of_zero
    exact absurd hk (by decide +kernel)
  | succ n =>
    obtain ⟨p, hp, hrest⟩ := hc.head
    cases hlink.symm.trans hp
    obtain ⟨-, rfl⟩ := hrest.of_top htop
    exact absurd hk (by decide +kernel)

/-! ## What a delete stops -/

def Sent.retired? : Sent → Option String
  | .retire agent => some agent
  | .spawn _ _ | .tell _ _ | .cancel _ | .self _ | .later _ _ | .laterTell _ _ | .create _ _ _
  | .seed _ => none

/-- The agents whose actors a handler stops. -/
def Effect.retired (e : Effect) : List String := e.sent.filterMap Sent.retired?

namespace SessionState

variable {s t : SessionState} {env : Env} {a k p id gone : String}
  {newV5 : String → String → String} {n : ℕ}

/-- The agents of the entries an event removes. -/
def Loses (s t : SessionState) (a : String) : Prop :=
  s.forest.isKnownAgent a = true ∧ t.forest.isKnownAgent a = false

theorem Removes.loses_iff (h : s.Removes gone t) : s.Loses t a ↔
    ∃ k, s.forest.agents.lookup a = some k ∧ (s.forest.Doomed gone k ∨ k = gone) := by
  unfold Loses RunForest.isKnownAgent
  constructor
  · rintro ⟨hbefore, hafter⟩
    obtain ⟨k, hk⟩ := Option.isSome_iff_exists.mp hbefore
    refine ⟨k, hk, ?_⟩
    by_contra hkept
    rw [h.keptAgent a k hk hkept] at hafter
    exact absurd hafter Bool.noConfusion
  · rintro ⟨k, hk, hgone⟩
    rw [h.goneAgent a k hk hgone, hk]
    exact ⟨rfl, rfl⟩

theorem Nested.below_of_lost (h : s.Nested newV5) (hid : s.forest.Removable gone)
    (hk : s.forest.agents.lookup a = some k) (hgone : s.forest.Doomed gone k ∨ k = gone) :
    a = gone ∨ ∃ n, Climbs s.forest.above (n + 1) a gone := by
  rcases hgone with ⟨e, p, n, he, -, hp, hc⟩ | rfl
  · exact .inr ⟨n, .step (RunForest.above_eq_some.mpr ⟨k, e, hk, he, hp⟩)
      (hc.mono fun _ _ => RunForest.above_of_delegator)⟩
  · rcases RunForest.hosting_iff.mp (h.hosted a k hk) with ⟨parent, kind, -, -, rfl⟩ |
      ⟨g, w, hprog, -⟩
    · exact .inl rfl
    · exact absurd rfl (ne_of_removable hid hprog)

/-- Where nothing was branched from an agent, all that is below it was delegated by it. -/
theorem Nested.doomed_of_below (h : s.Nested newV5) (hid : s.forest.Removable gone)
    (hbranch : ∀ k, s.forest.shape k ≠ some (some gone, .subSession))
    (hc : Climbs s.forest.above (n + 1) a gone) (hk : s.forest.agents.lookup a = some k) :
    s.forest.Doomed gone k := by
  induction n generalizing a k with
  | zero =>
    obtain ⟨p, hp, hrest⟩ := hc.head
    obtain rfl := hrest.eq_of_zero
    obtain ⟨k', e, hk', he, hparent⟩ := RunForest.above_eq_some.mp hp
    cases hk.symm.trans hk'
    have hshape : s.forest.shape k = some (some p, e.state.kind) := by
      rw [RunForest.shape, he, Option.map_some, hparent]
    refine ⟨e, p, 0, he, RunState.isDelegated_iff.mpr ⟨?_, ?_⟩, hparent, .refl p⟩
    · intro hmain
      exact h.main k p (hmain ▸ hshape)
    · intro hsub
      exact hbranch k (hsub ▸ hshape)
  | succ n ih =>
    obtain ⟨p, hp, hrest⟩ := hc.head
    obtain ⟨k', e, hk', he, hparent⟩ := RunForest.above_eq_some.mp hp
    cases hk.symm.trans hk'
    obtain ⟨q, hq, -⟩ := hrest.head
    obtain ⟨host, hhost⟩ := Option.isSome_iff_exists.mp (lookup_of_above hq)
    exact h.doomed_of_doomed hid he hparent hhost (ih hrest hhost)

theorem spec_of_deleted
    (hdone : (s.handleCommand env (.core (.deleteAgent gone))).reply = some .done) :
    s.spec.isSome := by
  cases hs : s.spec with
  | some spec => rfl
  | none =>
    unfold handleCommand at hdone
    rw [hs] at hdone
    exact absurd hdone (by simp [refuseUntilTold])

theorem deleteAgent_effect
    (hdone : (s.handleCommand env (.core (.deleteAgent gone))).reply = some .done) :
    s.forest.Removable gone ∧
      (s.handleCommand env (.core (.deleteAgent gone))).events = [.agentDeleted gone] ∧
      ∀ a, a ∈ (s.handleCommand env (.core (.deleteAgent gone))).retired ↔
        a ∈ s.forest.descendantAgents gone ∨ a = gone := by
  have hspec := spec_of_deleted hdone
  rw [handleCommand_of_told hspec] at hdone ⊢
  change (s.handleCore env (.deleteAgent gone)).reply = _ at hdone
  show _ ∧ (s.handleCore env (.deleteAgent gone)).events = _ ∧
    ∀ a, a ∈ (s.handleCore env (.deleteAgent gone)).retired ↔ _
  unfold handleCore at hdone ⊢
  dsimp only at hdone ⊢
  by_cases hid : ((s.forest.sub gone).isSome || (s.forest.subSession gone).isSome) = true
  · rw [if_pos hid]
    refine ⟨(Bool.or_eq_true _ _).mp hid, rfl, fun a => ?_⟩
    unfold Effect.retired
    rw [List.filterMap_append, List.mem_append, List.filterMap_map]
    have hsome : (Sent.retired? ∘ Sent.retire) = some := rfl
    rw [hsome, List.filterMap_some]
    exact or_congr_right List.mem_singleton
  · rw [if_neg hid] at hdone
    exact absurd hdone (by simp [Effect.answer])

/-- A delete retires the agents it removes, and no others, exactly if no sub session was branched
from the one that is deleted. -/
theorem Nested.retired_iff (h : s.Nested newV5) (hh : s.Hosts newV5) (hroot : s.Rooted id)
    (hdone : (s.handleCommand env (.core (.deleteAgent gone))).reply = some .done) :
    (∀ a, a ∈ (s.handleCommand env (.core (.deleteAgent gone))).retired ↔
      s.Loses (s.applyAll (s.handleCommand env (.core (.deleteAgent gone))).events) a) ↔
      ∀ k, s.forest.shape k ≠ some (some gone, .subSession) := by
  obtain ⟨hid, hevents, hretired⟩ := deleteAgent_effect hdone
  rw [hevents]
  have hr := h.removes hh hroot hid
  change s.Removes gone (s.applyAll [.agentDeleted gone]) at hr
  constructor
  · intro hall k hk
    have hlink : s.forest.above k = some gone := by
      rw [RunForest.above_eq, h.own k _ _ hk RunKind.noConfusion, Option.bind_some, hk]
      rfl
    have hbelow := (hretired k).mpr (.inl (h.mem_descendantAgents.mpr ⟨0, .single hlink⟩))
    obtain ⟨j, hj, hgone⟩ := hr.loses_iff.mp ((hall k).mp hbelow)
    cases hj.symm.trans (h.own k _ _ hk RunKind.noConfusion)
    rcases hgone with ⟨e, -, -, he, hdel, -⟩ | rfl
    · rw [RunForest.shape, he] at hk
      obtain ⟨-, hkind⟩ := Prod.mk.inj (Option.some.inj hk)
      exact (RunState.isDelegated_iff.mp hdel).2 hkind
    · exact h.ends.not_circle (.single hlink)
  · intro hbranch a
    rw [hretired, hr.loses_iff, h.mem_descendantAgents]
    constructor
    · rintro (⟨n, hc⟩ | rfl)
      · obtain ⟨p, hp, -⟩ := hc.head
        obtain ⟨k, hk⟩ := Option.isSome_iff_exists.mp (lookup_of_above hp)
        exact ⟨k, hk, .inl (h.doomed_of_below hid hbranch hc hk)⟩
      · exact ⟨a, h.lookup_removable hid, .inr rfl⟩
    · rintro ⟨k, hk, hgone⟩
      exact (h.below_of_lost hid hk hgone).symm

end SessionState

/-- A delete that is accepted stops the actors of the agents it removes, and no others, exactly if
no sub session was branched from the one that is deleted. -/
theorem delete_exact (id : String) (newV5 : String → String → String) (hd : Derives newV5 id)
    {s : SessionState} (h : (nesting id newV5).Reachable s) (env : Env) (gone : String)
    (hdone : (s.handleCommand (env.serving id newV5) (.core (.deleteAgent gone))).reply =
      some .done) :
    (∀ a, a ∈ (s.handleCommand (env.serving id newV5) (.core (.deleteAgent gone))).retired ↔
      s.Loses (s.applyAll
        (s.handleCommand (env.serving id newV5) (.core (.deleteAgent gone))).events) a) ↔
      ∀ k, s.forest.shape k ≠ some (some gone, .subSession) :=
  (SessionState.nested_of_reachable hd h).retired_iff
    (SessionState.stepAgents_of_reachable hd h.unrestrict).hosts
    (SessionState.rooted_of_reachable hd.apart h.unrestrict) hdone

/-- A branch that has not branched goes with its subagent, and both are stopped. -/
theorem delete_exact_branch : ∃ s, (nesting "s" joined).Reachable s ∧
    ∀ a, a ∈ (s.handleCommand ((Env.plain "4").serving "s" joined)
        (.core (.deleteAgent "2"))).retired ↔
      s.Loses (s.applyAll (s.handleCommand ((Env.plain "4").serving "s" joined)
        (.core (.deleteAgent "2"))).events) a := by
  let s := (System.steps? nest? .empty branches).get (by decide +kernel)
  have h : (nesting "s" joined).Reachable s := reachable_of_nest? (Option.some_get _).symm
  refine ⟨s, h, (delete_exact "s" joined (derives_joined rfl) h (.plain "4") "2"
    (by decide +kernel)).mpr fun k hk => ?_⟩
  have hparents : ∀ e ∈ s.forest.entries.toPairs, e.2.parent = some "2" →
      e.2.state.kind ≠ .subSession := by decide +kernel
  obtain ⟨e, he, heq⟩ := Option.map_eq_some_iff.mp hk
  obtain ⟨hp, hkind⟩ := Prod.mk.inj heq
  exact hparents (k, e) (Map.mem_toPairs.mpr he) hp hkind

/-- Deleting a branch that has branched stops the second branch and the subagent of that, which both
stay. -/
theorem delete_stops_branch : ¬ ∀ s, (nesting "s" joined).Reachable s →
    ∀ (env : Env) (gone : String),
    (s.handleCommand (env.serving "s" joined) (.core (.deleteAgent gone))).reply = some .done →
    ∀ a, a ∈ (s.handleCommand (env.serving "s" joined) (.core (.deleteAgent gone))).retired ↔
      s.Loses (s.applyAll
        (s.handleCommand (env.serving "s" joined) (.core (.deleteAgent gone))).events) a := by
  let s := (System.steps? nest? .empty branches).get (by decide +kernel)
  intro hall
  have h : (nesting "s" joined).Reachable s := reachable_of_nest? (Option.some_get _).symm
  have hstays := (hall s h (Env.plain "4") "1" (by decide +kernel) "2").mp (by decide +kernel)
  exact absurd hstays.2 (by decide +kernel)

end Horsie.Session
