import Horsie.Session.Descent

/-!
# Which runtime an agent runs on

An agent takes the runtime that the nearest entry at or above it decided on; subagents, steps and
sub sessions that inherit decide nothing and take the one of whoever they run under. Where the way
up ends at an agent that is not there, nothing is known of the runtime, and the walk says so
(`RunForest.Adrift`).

A delete changes the runtime of no agent that stays, but for those that took theirs through the
agent that goes: of these nothing is known any more (`runtime_resolved`, `deletion_unseats`).
-/

namespace Horsie.Session

open Lib

/-! ## The way up -/

namespace RunForest

variable {f : RunForest} {a b p k : String} {n hops : ℕ} {c : RuntimeChoice}

def chosen (f : RunForest) (agent : String) : Option (Option RuntimeChoice) :=
  (f.ownerOfAgent agent).map (·.2.state.decides)

/-- Whose runtime `agent` takes, where its entry decides nothing. -/
def inheritsFrom (f : RunForest) (agent : String) : Option String :=
  (f.ownerOfAgent agent).bind fun (_, e) => if e.state.decides = none then e.parent else none

/-- The nearest entry that decides, at or above the agent, decided `c`. -/
def Nearest (f : RunForest) (agent : String) (c : RuntimeChoice) : Prop :=
  ∃ n b, Climbs f.inheritsFrom n agent b ∧ f.chosen b = some (some c)

/-- The way up ends at an agent that is not there, and nobody on it decides. -/
def Adrift (f : RunForest) (agent : String) : Prop :=
  ∃ n b, Climbs f.inheritsFrom n agent b ∧ f.chosen b = none

theorem inheritsFrom_eq_some : f.inheritsFrom a = some p ↔
    ∃ k e, f.ownerOfAgent a = some (k, e) ∧ e.state.decides = none ∧ e.parent = some p := by
  unfold inheritsFrom
  rw [Option.bind_eq_some_iff]
  constructor
  · rintro ⟨⟨k, e⟩, howner, hp⟩
    obtain ⟨hnone, hp⟩ := Option.ite_none_right_eq_some.mp hp
    exact ⟨k, e, howner, hnone, hp⟩
  · rintro ⟨k, e, howner, hnone, hp⟩
    exact ⟨(k, e), howner, (if_pos hnone).trans hp⟩

theorem above_of_inheritsFrom (h : f.inheritsFrom a = some p) : f.above a = some p := by
  obtain ⟨k, e, howner, -, hp⟩ := inheritsFrom_eq_some.mp h
  unfold above
  rw [howner]
  exact hp

theorem chosen_eq_none (h : f.isKnownAgent a = false) : f.chosen a = none := by
  have hnone : f.agents.lookup a = none := Option.not_isSome_iff_eq_none.mp (by
    rw [show (f.agents.lookup a).isSome = false from h]
    exact Bool.false_ne_true)
  unfold chosen ownerOfAgent
  rw [hnone]
  rfl

/-! ### The walk -/

def runtimeWithin (f : RunForest) (hops : ℕ) (agent : String) : RuntimeChoice :=
  match f.ownerOfAgent agent with
  | some (_, entry) => f.runtimeFrom hops entry
  | none => .pending

theorem runtimeFrom_of_undecided {e : RunEntry} (hnone : e.state.decides = none)
    (hp : e.parent = some p) : f.runtimeFrom (hops + 1) e = f.runtimeWithin hops p := by
  conv_lhs => unfold runtimeFrom
  rw [hnone, hp]
  rfl

theorem runtimeWithin_of_inherits (h : f.inheritsFrom a = some p) :
    f.runtimeWithin (hops + 1) a = f.runtimeWithin hops p := by
  obtain ⟨k, e, howner, hnone, hp⟩ := inheritsFrom_eq_some.mp h
  conv_lhs => unfold runtimeWithin
  rw [howner]
  exact runtimeFrom_of_undecided hnone hp

theorem runtimeWithin_of_climbs (h : Climbs f.inheritsFrom n a b) :
    f.runtimeWithin (hops + n) a = f.runtimeWithin hops b := by
  induction h with
  | refl a => rfl
  | step hlink hrest ih => exact (runtimeWithin_of_inherits hlink).trans ih

theorem runtimeWithin_of_chosen (h : f.chosen a = some (some c)) : f.runtimeWithin hops a = c := by
  obtain ⟨⟨k, e⟩, howner, hc⟩ := Option.map_eq_some_iff.mp h
  unfold runtimeWithin
  rw [howner]
  show f.runtimeFrom hops e = c
  unfold runtimeFrom
  rw [show e.state.decides = some c from hc]

theorem runtimeWithin_of_unknown (h : f.chosen a = none) : f.runtimeWithin hops a = .pending := by
  unfold runtimeWithin
  rw [Option.map_eq_none_iff.mp h]

theorem runtimeOfAgent_of_climbs (hends : Ends f.above) (h : Climbs f.inheritsFrom n a b) :
    ∃ hops, f.runtimeOfAgent a = f.runtimeWithin hops b := by
  have hle := climb_le hends (h.mono fun _ _ => above_of_inheritsFrom)
  refine ⟨f.entries.entries.length - n, ?_⟩
  rw [← runtimeWithin_of_climbs h, Nat.sub_add_cancel hle]
  rfl

theorem runtimeOfAgent_of_nearest (hends : Ends f.above) (h : f.Nearest a c) :
    f.runtimeOfAgent a = c := by
  obtain ⟨n, b, hc, hb⟩ := h
  obtain ⟨hops, hwalk⟩ := runtimeOfAgent_of_climbs hends hc
  exact hwalk.trans (runtimeWithin_of_chosen hb)

theorem runtimeOfAgent_of_adrift (hends : Ends f.above) (h : f.Adrift a) :
    f.runtimeOfAgent a = .pending := by
  obtain ⟨n, b, hc, hb⟩ := h
  obtain ⟨hops, hwalk⟩ := runtimeOfAgent_of_climbs hends hc
  exact hwalk.trans (runtimeWithin_of_unknown hb)

end RunForest

namespace SessionState

variable {s t : SessionState} {a b gone id : String} {newV5 : String → String → String} {n : ℕ}

/-- The way up from any agent ends: at one that decides, or at one that is not there. The root
always decides. -/
theorem Nested.nearest_or_adrift (h : s.Nested newV5) (hroot : s.Rooted id)
    (hhoused : s.Housed id) (a : String) :
    (∃ c, s.forest.Nearest a c) ∨ s.forest.Adrift a := by
  have hends : Ends s.forest.inheritsFrom := h.ends.mono fun _ _ => RunForest.above_of_inheritsFrom
  obtain ⟨n, top, hc, htop⟩ := hends.exists_top a
  cases hchosen : s.forest.chosen top with
  | none => exact .inr ⟨n, top, hc, hchosen⟩
  | some choice =>
    cases choice with
    | some c => exact .inl ⟨c, n, top, hc, hchosen⟩
    | none =>
      exfalso
      obtain ⟨⟨k, e⟩, howner, hnone⟩ := Option.map_eq_some_iff.mp hchosen
      obtain ⟨-, he⟩ := RunForest.ownerOfAgent_eq_some.mp howner
      have hparent : e.parent = none := by
        cases hp : e.parent with
        | none => rfl
        | some p =>
          have hlink := RunForest.inheritsFrom_eq_some.mpr ⟨k, e, howner, hnone, hp⟩
          rw [htop] at hlink
          cases hlink
      have hk : s.forest.root = some k := h.root k e.state.kind (by
        rw [RunForest.shape, he, Option.map_some, hparent])
      have hspec : s.spec.isSome := by
        cases hs : s.spec with
        | some spec => rfl
        | none =>
          rw [hroot.untold hs] at hk
          exact absurd hk (by simp [RunForest.empty])
      obtain ⟨hid, c, hchoice⟩ := hhoused.seated hspec
      cases hid.symm.trans hk
      rw [RunForest.choice, he] at hchoice
      exact absurd (hnone.symm.trans (Option.some.inj hchoice)) (by simp)

/-! ## What goes -/

theorem Removes.owner (h : s.Removes gone t) (ha : t.forest.isKnownAgent a = true) :
    t.forest.ownerOfAgent a = s.forest.ownerOfAgent a := by
  obtain ⟨k, hk⟩ := Option.isSome_iff_exists.mp ha
  obtain ⟨hbefore, hkept⟩ := h.lookup hk
  unfold RunForest.ownerOfAgent
  rw [hk, hbefore, Option.bind_some, Option.bind_some, h.kept k hkept]

theorem Removes.inheritsFrom (h : s.Removes gone t) (ha : t.forest.isKnownAgent a = true) :
    t.forest.inheritsFrom a = s.forest.inheritsFrom a := by
  unfold RunForest.inheritsFrom
  rw [h.owner ha]

theorem Removes.chosen (h : s.Removes gone t) (ha : t.forest.isKnownAgent a = true) :
    t.forest.chosen a = s.forest.chosen a := by
  unfold RunForest.chosen
  rw [h.owner ha]

theorem Removes.unknown_of_unknown (h : s.Removes gone t)
    (ha : s.forest.isKnownAgent a = false) : t.forest.isKnownAgent a = false := by
  have hnone : s.forest.agents.lookup a = none := Option.not_isSome_iff_eq_none.mp (by
    rw [show (s.forest.agents.lookup a).isSome = false from ha]
    exact Bool.false_ne_true)
  unfold RunForest.isKnownAgent
  rw [h.unknown a hnone]
  rfl

/-- Whoever stays runs under somebody who stays, under the agent that goes, or under one that is
gone already. -/
theorem Removes.parent (h : s.Removes gone t) (hnested : s.Nested newV5)
    (hid : s.forest.Removable gone) (ha : t.forest.isKnownAgent a = true) {p : String}
    (hp : s.forest.above a = some p) :
    t.forest.isKnownAgent p = true ∨ p = gone ∨ s.forest.isKnownAgent p = false := by
  cases hhost : s.forest.agents.lookup p with
  | none =>
    right
    right
    unfold RunForest.isKnownAgent
    rw [hhost]
    rfl
  | some host =>
    obtain ⟨k, e, hk, he, hparent⟩ := RunForest.above_eq_some.mp hp
    obtain ⟨k', hk'⟩ := Option.isSome_iff_exists.mp ha
    obtain ⟨hbefore, hkept⟩ := h.lookup hk'
    cases hk.symm.trans hbefore
    by_cases hdoomed : s.forest.Doomed gone host
    · exact absurd (.inl (hnested.doomed_of_doomed hid he hparent hhost hdoomed)) hkept
    by_cases hgone : host = gone
    · subst hgone
      rcases RunForest.hosting_iff.mp (hnested.hosted p host hhost) with ⟨-, -, -, -, hp⟩ |
        ⟨g, w, hprog, -⟩
      · exact .inr (.inl hp)
      · exact absurd rfl (ne_of_removable hid hprog)
    · left
      unfold RunForest.isKnownAgent
      rw [h.keptAgent p host hhost fun hor => hor.elim hdoomed hgone]
      rfl

theorem Removes.climbs (h : s.Removes gone t) (hnested : s.Nested newV5)
    (hid : s.forest.Removable gone) (hc : Climbs s.forest.inheritsFrom n a b)
    (ha : t.forest.isKnownAgent a = true)
    (hpast : ∀ m, ¬ Climbs s.forest.inheritsFrom m a gone) :
    Climbs t.forest.inheritsFrom n a b ∧ t.forest.chosen b = s.forest.chosen b := by
  induction hc with
  | refl a => exact ⟨.refl a, h.chosen ha⟩
  | @step n a p b hlink hrest ih =>
    have hlink' : t.forest.inheritsFrom a = some p := (h.inheritsFrom ha).trans hlink
    rcases h.parent hnested hid ha (RunForest.above_of_inheritsFrom hlink) with hp | rfl | hp
    · obtain ⟨hclimb, hsame⟩ := ih hp fun m hm => hpast (m + 1) (.step hlink hm)
      exact ⟨.step hlink' hclimb, hsame⟩
    · exact absurd (.single hlink) (hpast 1)
    · -- nothing is known of the parent, so it is where the way ends
      have htop : s.forest.inheritsFrom p = none := by
        rw [Option.eq_none_iff_forall_ne_some]
        intro q hq
        obtain ⟨k, e, howner, -⟩ := RunForest.inheritsFrom_eq_some.mp hq
        have hnone := RunForest.chosen_eq_none hp
        unfold RunForest.chosen at hnone
        rw [howner] at hnone
        cases hnone
      obtain ⟨rfl, rfl⟩ := hrest.of_top htop
      refine ⟨.single hlink', ?_⟩
      rw [RunForest.chosen_eq_none hp, RunForest.chosen_eq_none (h.unknown_of_unknown hp)]

theorem Removes.adrift (h : s.Removes gone t) (hgone : t.forest.isKnownAgent gone = false)
    (hc : Climbs s.forest.inheritsFrom n a gone) (ha : t.forest.isKnownAgent a = true) :
    t.forest.Adrift a := by
  induction n generalizing a with
  | zero =>
    obtain rfl := hc.eq_of_zero
    rw [hgone] at ha
    cases ha
  | succ n ih =>
    obtain ⟨p, hp, hrest⟩ := hc.head
    have hlink : t.forest.inheritsFrom a = some p := (h.inheritsFrom ha).trans hp
    cases hknown : t.forest.isKnownAgent p with
    | false => exact ⟨1, p, .single hlink, RunForest.chosen_eq_none hknown⟩
    | true =>
      obtain ⟨m, top, hclimb, htop⟩ := ih hrest hknown
      exact ⟨m + 1, top, .step hlink hclimb, htop⟩

/-! ## The runtime of an agent -/

/-- What is promised of the runtimes that agents resolve to. -/
structure Resolves (id : String) (newV5 : String → String → String) (s : SessionState) :
    Prop where
  nearest : ∀ a c, s.forest.Nearest a c → s.forest.runtimeOfAgent a = c
  /-- Nothing is said of an agent that is not there, or whose way up is broken. -/
  adrift : ∀ a, s.forest.Adrift a → s.forest.runtimeOfAgent a = .pending
  total : ∀ a, (∃ c, s.forest.Nearest a c) ∨ s.forest.Adrift a
  kept : ∀ (env : Env) (gone a : String),
    (s.handleCommand (env.serving id newV5) (.core (.deleteAgent gone))).reply = some .done →
    (s.applyAll (s.handleCommand (env.serving id newV5)
      (.core (.deleteAgent gone))).events).forest.isKnownAgent a = true →
    (∀ n, ¬ Climbs s.forest.inheritsFrom n a gone) →
    (s.applyAll (s.handleCommand (env.serving id newV5)
      (.core (.deleteAgent gone))).events).forest.runtimeOfAgent a = s.forest.runtimeOfAgent a
  /-- Of those that inherited through the agent that was deleted nothing is known any more. -/
  cut : ∀ (env : Env) (gone a : String) (n : ℕ),
    (s.handleCommand (env.serving id newV5) (.core (.deleteAgent gone))).reply = some .done →
    (s.applyAll (s.handleCommand (env.serving id newV5)
      (.core (.deleteAgent gone))).events).forest.isKnownAgent a = true →
    Climbs s.forest.inheritsFrom n a gone →
    (s.applyAll (s.handleCommand (env.serving id newV5)
      (.core (.deleteAgent gone))).events).forest.runtimeOfAgent a = .pending

theorem Nested.resolves (h : s.Nested newV5) (hh : s.Hosts newV5) (hroot : s.Rooted id)
    (hhoused : s.Housed id) : s.Resolves id newV5 := by
  have hremoved : ∀ (env : Env) (gone : String),
      (s.handleCommand (env.serving id newV5) (.core (.deleteAgent gone))).reply = some .done →
      s.forest.Removable gone ∧ s.Removes gone (s.applyAll
        (s.handleCommand (env.serving id newV5) (.core (.deleteAgent gone))).events) := by
    intro env gone hdone
    obtain ⟨hid, hevents, -⟩ := deleteAgent_effect hdone
    rw [hevents]
    exact ⟨hid, h.removes hh hroot hid⟩
  refine ⟨fun a c => RunForest.runtimeOfAgent_of_nearest h.ends,
    fun a => RunForest.runtimeOfAgent_of_adrift h.ends, h.nearest_or_adrift hroot hhoused, ?_, ?_⟩
  · intro env gone a hdone ha hpast
    obtain ⟨hid, hr⟩ := hremoved env gone hdone
    generalize s.applyAll _ = t at hr ha ⊢
    have hends : Ends t.forest.above := h.ends.mono fun x y => hr.above
    rcases h.nearest_or_adrift hroot hhoused a with ⟨c, n, b, hc, hb⟩ | ⟨n, b, hc, hb⟩
    · obtain ⟨hclimb, hsame⟩ := hr.climbs h hid hc ha hpast
      rw [RunForest.runtimeOfAgent_of_nearest h.ends ⟨n, b, hc, hb⟩]
      exact RunForest.runtimeOfAgent_of_nearest hends ⟨n, b, hclimb, hsame.trans hb⟩
    · obtain ⟨hclimb, hsame⟩ := hr.climbs h hid hc ha hpast
      rw [RunForest.runtimeOfAgent_of_adrift h.ends ⟨n, b, hc, hb⟩]
      exact RunForest.runtimeOfAgent_of_adrift hends ⟨n, b, hclimb, hsame.trans hb⟩
  · intro env gone a n hdone ha hc
    obtain ⟨hid, hr⟩ := hremoved env gone hdone
    generalize s.applyAll _ = t at hr ha ⊢
    have hends : Ends t.forest.above := h.ends.mono fun x y => hr.above
    have hgone : t.forest.isKnownAgent gone = false := by
      unfold RunForest.isKnownAgent
      rw [hr.goneAgent gone gone (h.lookup_removable hid) (.inr rfl)]
      rfl
    exact RunForest.runtimeOfAgent_of_adrift hends (hr.adrift hgone hc ha)

end SessionState

/-- In every session an agent runs on what the nearest entry at or above it decided; of an agent
that is not there, or whose way up is broken, nothing is known. A delete changes the runtime of
those only that inherited through the agent that goes. -/
theorem runtime_resolved (id : String) (newV5 : String → String → String) (hd : Derives newV5 id)
    {s : SessionState} (h : (nesting id newV5).Reachable s) : s.Resolves id newV5 :=
  (SessionState.nested_of_reachable hd h).resolves
    (SessionState.stepAgents_of_reachable hd h.unrestrict).hosts
    (SessionState.rooted_of_reachable hd.apart h.unrestrict)
    (SessionState.housed_of_reachable hd.apart h.unrestrict)

def inheriting : List (Env × SessionCommand) :=
  [(.plain "1", .core (.create ⟨.agent, some "fly"⟩ none none)),
    (.plain "1", .subSession (.create "s" .fresh "go" "one" .inherit)),
    (.plain "2", .subSession (.create "1" .fresh "go on" "two" .inherit)),
    (.plain "4", .lifecycle (.provision "s" none))]

theorem runtime_resolved_inheriting : ∃ s, (nesting "s" joined).Reachable s ∧
    s.forest.runtimeOfAgent "2" = .on "4" ∧ s.Resolves "s" joined := by
  let s := (System.steps? nest? .empty inheriting).get (by decide +kernel)
  have h : (nesting "s" joined).Reachable s := reachable_of_nest? (Option.some_get _).symm
  exact ⟨s, h, by decide +kernel, runtime_resolved "s" joined (derives_joined rfl) h⟩

/-- Once the branch between them is deleted, the branch below it runs on nothing it knows of. -/
theorem deletion_unseats : ¬ ∀ s, (nesting "s" joined).Reachable s →
    ∀ (env : Env) (gone a : String),
    (s.handleCommand (env.serving "s" joined) (.core (.deleteAgent gone))).reply = some .done →
    (s.applyAll (s.handleCommand (env.serving "s" joined)
      (.core (.deleteAgent gone))).events).forest.isKnownAgent a = true →
    (s.applyAll (s.handleCommand (env.serving "s" joined)
      (.core (.deleteAgent gone))).events).forest.runtimeOfAgent a =
        s.forest.runtimeOfAgent a := by
  let s := (System.steps? nest? .empty inheriting).get (by decide +kernel)
  intro hall
  have h : (nesting "s" joined).Reachable s := reachable_of_nest? (Option.some_get _).symm
  have hsame := hall s h (Env.plain "5") "1" "2" (by decide +kernel) (by decide +kernel)
  exact absurd hsame (by decide +kernel)

end Horsie.Session
