import Horsie.Lib.Take
import Horsie.RuntimeHost.Registry

/-!
# Connections of one runtime

A transport is removed by the id of its runtime when its link is gone, which a newer connection may
have taken; and a token is looked up when a connection is upgraded, and revoked before it registers.
Neither goes wrong, and every waiter is answered once, as long as a connection registers while its
token is still issued and no earlier connection is still to be removed, and nobody waits for a
runtime that is connected (`connections_apart`).
-/

namespace Horsie.RuntimeHost

open Horsie.Lib

namespace Listener

variable (v : Listener)

/-! ## The property -/

/-- The runtime whose transport a connection registered, and has not removed. -/
def holds (c : ℕ) : Option String := (v.links[c]?).bind (·.phase.holds)

/-- The token and the runtime a connection has authenticated with. -/
def authenticated (c : ℕ) : Option (String × String) :=
  (v.links[c]?).bind fun link => link.phase.authenticated.map (link.token, ·)

/-- The token of a connection is not its runtime's any more, which is not registered. -/
def ShutOut (c : ℕ) : Prop :=
  ∃ token runtime, v.authenticated c = some (token, runtime) ∧
    v.issued.resolve token ≠ some runtime ∧ v.registry.runtimeTransport runtime = none

/-- The end of a connection leaves the transports of the others. -/
def EndsAlone : Prop :=
  ∀ c v', v.step? (.deregister c) = some v' → ∀ runtime c',
    v.registry.runtimeTransport runtime = some c' → c' ≠ c →
      v'.registry.runtimeTransport runtime = some c'

/-- A waiter gets one answer at most, has got it if its runtime is registered, and is on the list of
those who get the next one if it has not. -/
structure AnsweredOnce : Prop where
  once : ∀ (i : ℕ) (w : Waiter), v.waiters[i]? = some w → w.answers.length ≤ 1
  answered : ∀ (i : ℕ) (w : Waiter), v.waiters[i]? = some w → w.gaveUp = false →
    (v.registry.runtimeTransport w.runtime).isSome = true → w.answers.length = 1
  waits : ∀ (i : ℕ) (w : Waiter), v.waiters[i]? = some w → w.gaveUp = false → w.answers = [] →
    i ∈ v.registry.pending w.runtime

/-! ## The condition -/

/-- A connection registers while its token names its runtime and no earlier connection of the
runtime is to be removed, and nobody begins to wait for a runtime that is registered. -/
def orderly : Label → Bool
  | .register c =>
    match v.links[c]? with
    | some ⟨token, .checked runtime⟩ =>
      decide (v.issued.resolve token = some runtime) &&
        (List.range v.links.length).all fun c' => decide (v.holds c' ≠ some runtime)
    | _ => true
  | .notify runtime => (v.registry.runtimeTransport runtime).isNone
  | _ => true

/-! ## What holds in every run -/

structure Sound : Prop where
  paired : v.issued.Paired
  minted : ∀ token runtime, v.issued.resolve token = some runtime → token ∈ v.minted
  tokens : ∀ c token runtime, v.authenticated c = some (token, runtime) → token ∈ v.minted
  own : ∀ runtime c, v.registry.transports runtime = some c → v.holds c = some runtime
  listed : ∀ runtime i, i ∈ v.registry.pending runtime →
    ∃ w, v.waiters[i]? = some w ∧ w.runtime = runtime ∧ w.answers = []
  once : ∀ (i : ℕ) (w : Waiter), v.waiters[i]? = some w → w.answers.length ≤ 1
  waits : ∀ (i : ℕ) (w : Waiter), v.waiters[i]? = some w → w.gaveUp = false → w.answers = [] →
    i ∈ v.registry.pending w.runtime

variable {v} {v' : Listener}

theorem Sound.init : init.Sound where
  paired _ _ := ⟨fun h => (by cases h), fun h => (by cases h)⟩
  minted _ _ h := by cases h
  tokens _ _ _ h := by cases h
  own _ _ h := by cases h
  listed _ _ h := absurd h List.not_mem_nil
  once _ _ h := by cases h
  waits _ _ h := by cases h

variable {c : ℕ} {link : Link}

theorem holds_setPhase (hc : v.links[c]? = some link) (phase : LinkPhase)
    (c' : ℕ) : (v.setPhase c phase).holds c' = if c' = c then phase.holds else v.holds c' := by
  unfold holds setPhase
  rw [List.getElem?_modify]
  split_ifs with h h' h'
  · rw [← h, hc]
    rfl
  · exact absurd h.symm h'
  · exact absurd h'.symm h
  · simp

theorem authenticated_setPhase (hc : v.links[c]? = some link)
    (phase : LinkPhase) (c' : ℕ) : (v.setPhase c phase).authenticated c' =
      if c' = c then phase.authenticated.map (link.token, ·) else v.authenticated c' := by
  unfold authenticated setPhase
  rw [List.getElem?_modify]
  split_ifs with h h' h'
  · rw [← h, hc]
    rfl
  · exact absurd h.symm h'
  · exact absurd h'.symm h
  · simp

variable {phase : LinkPhase}

theorem Sound.setPhase (h : v.Sound)
    (hc : v.links[c]? = some link)
    (htoken : phase.authenticated.isSome = true → link.token ∈ v.minted)
    (hholds : ∀ runtime, v.registry.transports runtime = some c → phase.holds = some runtime) :
    (v.setPhase c phase).Sound := by
  refine ⟨h.paired, h.minted, fun c' token runtime ha => ?_, fun runtime c' ht => ?_, h.listed,
    h.once, h.waits⟩
  · rw [authenticated_setPhase hc] at ha
    split_ifs at ha
    · obtain ⟨runtime', hr, heq⟩ := Option.map_eq_some_iff.mp ha
      cases heq
      exact htoken (by rw [hr]; rfl)
    · exact h.tokens c' token runtime ha
  · rw [holds_setPhase hc]
    split_ifs with hcc
    · exact hholds runtime (hcc ▸ ht)
    · exact h.own runtime c' ht

variable {runtime token : String}

theorem authenticated_of
    (hc : v.links[c]? = some ⟨token, phase⟩) (hp : phase.authenticated = some runtime) :
    v.authenticated c = some (token, runtime) := by
  unfold authenticated
  rw [hc]
  exact congrArg (Option.map (token, ·)) hp

theorem holds_of (hc : v.links[c]? = some link) :
    v.holds c = link.phase.holds := by
  unfold holds
  rw [hc]
  rfl

theorem Sound.unregistered (h : v.Sound) (hc : v.links[c]? = some link)
    (hp : link.phase.holds = none) (runtime : String) :
    v.registry.transports runtime ≠ some c := by
  intro ht
  have ho := h.own runtime c ht
  rw [holds_of hc, hp] at ho
  cases ho

/-- The transports may only be those of connections that registered them. -/
theorem Sound.setTransports (h : v.Sound) {transports : String → Option ℕ}
    (hown : ∀ runtime c, transports runtime = some c → v.holds c = some runtime) :
    Sound { v with registry := { v.registry with transports } } :=
  ⟨h.paired, h.minted, h.tokens, hown, h.listed, h.once, h.waits⟩

theorem Sound.answer (h : v.Sound) (outcome : Except String Unit) (runtime : String) :
    (v.answer outcome (v.registry.resolve runtime).1 (v.registry.resolve runtime).2).Sound := by
  have hwaiters : ∀ i w, (v.answer outcome (v.registry.pending runtime)
      (v.registry.resolve runtime).2).waiters[i]? = some w → ∃ w', v.waiters[i]? = some w' ∧
        w = if i ∈ v.registry.pending runtime ∧ w'.gaveUp = false
          then { w' with answers := w'.answers ++ [outcome] } else w' := by
    intro i w hw
    simp only [Listener.answer, List.getElem?_mapIdx] at hw
    obtain ⟨w', hw', rfl⟩ := Option.map_eq_some_iff.mp hw
    exact ⟨w', hw', rfl⟩
  refine ⟨h.paired, h.minted, h.tokens, h.own, fun r i hi => ?_, fun i w hw => ?_,
    fun i w hw hgave hnil => ?_⟩
  · obtain ⟨hr, hi⟩ : r ≠ runtime ∧ i ∈ v.registry.pending r := by
      simp only [Listener.answer, ConnectedRuntimeRegistry.resolve, Function.update_apply] at hi
      split_ifs at hi with hr
      · cases hi
      · exact ⟨hr, hi⟩
    obtain ⟨w, hw, rfl, hnil⟩ := h.listed r i hi
    refine ⟨w, ?_, rfl, hnil⟩
    simp only [Listener.answer, List.getElem?_mapIdx, hw, Option.map_some]
    rw [if_neg]
    rintro ⟨hi', -⟩
    obtain ⟨w', hw', hr', -⟩ := h.listed runtime i hi'
    rw [← Option.some.inj (hw.symm.trans hw')] at hr'
    exact hr hr'
  · obtain ⟨w', hw', rfl⟩ := hwaiters i w hw
    split_ifs with hi
    · obtain ⟨w'', hw'', -, hnil⟩ := h.listed runtime i hi.1
      rw [Option.some.inj (hw'.symm.trans hw''), hnil]
      exact Nat.le_refl 1
    · exact h.once i w' hw'
  · obtain ⟨w', hw', rfl⟩ := hwaiters i w hw
    have hi : ¬ (i ∈ v.registry.pending runtime ∧ w'.gaveUp = false) := by
      intro hi
      rw [if_pos hi] at hnil
      exact List.append_ne_nil_of_right_ne_nil _ (List.cons_ne_nil _ _) hnil
    rw [if_neg hi] at hgave hnil ⊢
    have hmem := h.waits i w' hw' hgave hnil
    simp only [Listener.answer, ConnectedRuntimeRegistry.resolve, Function.update_apply]
    rw [if_neg]
    · exact hmem
    · intro hr
      exact hi ⟨hr ▸ hmem, hgave⟩

theorem Sound.notify (h : v.Sound) (runtime : String) :
    Sound
      { v with
        registry := v.registry.notifyWhenReady runtime v.waiters.length
        waiters := v.waiters ++ [⟨runtime, [], false⟩] } := by
  refine ⟨h.paired, h.minted, h.tokens, h.own, fun r i hi => ?_, fun i w hw => ?_,
    fun i w hw hgave hnil => ?_⟩
  · simp only [ConnectedRuntimeRegistry.notifyWhenReady, Function.update_apply] at hi
    by_cases hlist : i ∈ v.registry.pending r
    · obtain ⟨w, hw, hr, hnil⟩ := h.listed r i hlist
      exact ⟨w, getElem?_snoc_of_some hw, hr, hnil⟩
    · split_ifs at hi with hr
      · rw [hr] at hlist
        obtain rfl := List.mem_singleton.mp ((List.mem_append.mp hi).resolve_left hlist)
        exact ⟨_, List.getElem?_concat_length, hr.symm, rfl⟩
      · exact absurd hi hlist
  · rcases getElem?_snoc_cases hw with hw | ⟨-, rfl⟩
    · exact h.once i w hw
    · exact Nat.zero_le 1
  · simp only [ConnectedRuntimeRegistry.notifyWhenReady, Function.update_apply]
    rcases getElem?_snoc_cases hw with hw | ⟨rfl, rfl⟩
    · have hmem := h.waits i w hw hgave hnil
      split_ifs with hr
      · exact List.mem_append_left _ (hr ▸ hmem)
      · exact hmem
    · rw [if_pos rfl]
      exact List.mem_append_right _ List.mem_cons_self

theorem Sound.giveUp (h : v.Sound) {i : ℕ} {gaveUp : Bool}
    (hi : v.waiters[i]? = some ⟨runtime, [], gaveUp⟩) :
    Sound { v with waiters := v.waiters.set i ⟨runtime, [], true⟩ } := by
  have hset : ∀ j w, (v.waiters.set i (⟨runtime, [], true⟩ : Waiter))[j]? = some w →
      j = i ∧ w = ⟨runtime, [], true⟩ ∨ j ≠ i ∧ v.waiters[j]? = some w := by
    intro j w hw
    by_cases hji : j = i
    · subst hji
      rw [List.getElem?_set_self (List.getElem?_eq_some_iff.mp hi).1] at hw
      exact .inl ⟨rfl, (Option.some.inj hw).symm⟩
    · rw [List.getElem?_set_ne (Ne.symm hji)] at hw
      exact .inr ⟨hji, hw⟩
  refine ⟨h.paired, h.minted, h.tokens, h.own, fun r j hj => ?_, fun j w hw => ?_,
    fun j w hw hgave hnil => ?_⟩
  · obtain ⟨w, hw, hr, hnil⟩ := h.listed r j hj
    by_cases hji : j = i
    · subst hji
      cases hi.symm.trans hw
      exact ⟨_, List.getElem?_set_self (List.getElem?_eq_some_iff.mp hi).1, hr, rfl⟩
    · refine ⟨w, ?_, hr, hnil⟩
      rw [List.getElem?_set_ne (Ne.symm hji)]
      exact hw
  · rcases hset j w hw with ⟨-, rfl⟩ | ⟨-, hw⟩
    · exact Nat.zero_le 1
    · exact h.once j w hw
  · rcases hset j w hw with ⟨-, rfl⟩ | ⟨-, hw⟩
    · cases hgave
    · exact h.waits j w hw hgave hnil

theorem Sound.dial (h : v.Sound) (token : String) :
    Sound { v with links := v.links ++ [⟨token, .dialled⟩] } := by
  refine ⟨h.paired, h.minted, fun c token' runtime ha => ?_, fun runtime c ht => ?_, h.listed,
    h.once, h.waits⟩
  · refine h.tokens c token' runtime ?_
    unfold authenticated at ha ⊢
    rw [List.getElem?_append] at ha
    split_ifs at ha with hc
    · exact ha
    · rw [List.getElem?_singleton] at ha
      split_ifs at ha <;> cases ha
  · have ho := h.own runtime c ht
    unfold holds at ho ⊢
    obtain ⟨link, hlink, -⟩ := Option.bind_eq_some_iff.mp ho
    rw [List.getElem?_append_left (List.getElem?_eq_some_iff.mp hlink).1]
    exact ho

theorem answer_nil (outcome : Except String Unit) : v.answer outcome [] v.registry = v := by
  unfold answer
  simp only [List.not_mem_nil, false_and, if_false]
  have hsame : v.waiters.mapIdx (fun _ w => w) = v.waiters :=
    List.mapIdx_eq_iff.mpr fun i => (Option.map_id_apply (x := v.waiters[i]?)).symm
  rw [hsame]

theorem Sound.register (h : v.Sound)
    (hc : v.links[c]? = some ⟨token, .checked runtime⟩) :
    Sound ((v.answer (.ok ()) (v.registry.tryRegisterTransport runtime c).2.1
      (v.registry.tryRegisterTransport runtime c).2.2).setPhase c
        (if (v.registry.tryRegisterTransport runtime c).1 then .registered runtime
          else .ended)) := by
  have htoken : token ∈ v.minted := h.tokens c token runtime (authenticated_of hc rfl)
  unfold ConnectedRuntimeRegistry.tryRegisterTransport
  by_cases hlive : (v.registry.transports runtime).isSome = true
  · simp only [hlive, if_true, answer_nil, Bool.false_eq_true, if_false]
    exact h.setPhase hc (fun ha => by cases ha) fun r ht => absurd ht (h.unregistered hc rfl r)
  · simp only [hlive]
    have hlinked : (v.setPhase c (.registered runtime)).Sound :=
      h.setPhase hc (fun _ => htoken) fun r ht => absurd ht (h.unregistered hc rfl r)
    have hentered : Sound
        { v.setPhase c (.registered runtime) with
          registry :=
            { v.registry with
              transports := Function.update v.registry.transports runtime (some c) } } := by
      refine hlinked.setTransports fun r c' ht => ?_
      rw [Function.update_apply] at ht
      split_ifs at ht with hr
      · rw [← Option.some.inj ht, holds_setPhase hc, if_pos rfl, hr]
        rfl
      · exact hlinked.own r c' ht
    exact hentered.answer (.ok ()) runtime

variable {l : Label}

theorem Sound.step (h : v.Sound) (hs : v.step? l = some v') : v'.Sound := by
  unfold step? at hs
  cases l with
  | issue token runtime =>
    obtain ⟨hnew, hs⟩ := Option.ite_none_left_eq_some.mp hs
    cases hs
    have hfree : v.issued.resolve token = none := by
      cases hr : v.issued.resolve token with
      | none => rfl
      | some runtime' => exact absurd (h.minted token runtime' hr) hnew
    refine ⟨h.paired.issue runtime hfree, fun token' runtime' hr => ?_, fun c token' runtime' ha =>
      List.mem_append_left _ (h.tokens c token' runtime' ha), h.own, h.listed, h.once, h.waits⟩
    rw [IssuedTokens.resolve_issue] at hr
    split_ifs at hr with htoken
    · rw [htoken]
      exact List.mem_append_right _ List.mem_cons_self
    · exact List.mem_append_left _ (h.minted token' runtime' hr)
  | revoke runtime =>
    cases hs
    refine ⟨h.paired.revokeRuntime runtime, fun token runtime' hr => ?_, h.tokens, h.own, h.listed,
      h.once, h.waits⟩
    rw [IssuedTokens.resolve_revokeRuntime] at hr
    split_ifs at hr
    exact h.minted token runtime' hr
  | remove runtime =>
    cases hs
    refine h.setTransports fun runtime' c ht => ?_
    rw [Function.update_apply] at ht
    split_ifs at ht
    exact h.own runtime' c ht
  | notify runtime =>
    cases hs
    exact h.notify runtime
  | failPending runtime message =>
    cases hs
    exact h.answer _ runtime
  | giveUp i =>
    dsimp only at hs
    split at hs
    · rename_i hi
      cases hs
      exact h.giveUp hi
    · cases hs
  | dial token =>
    cases hs
    exact h.dial token
  | upgrade c =>
    dsimp only at hs
    split at hs
    · rename_i token hc
      cases hs
      refine h.setPhase hc (fun ha => ?_) fun runtime ht => ?_
      · cases hr : v.issued.resolve token with
        | none =>
          rw [hr] at ha
          cases ha
        | some runtime => exact h.minted token runtime hr
      · exact absurd ht (h.unregistered hc rfl runtime)
    · cases hs
  | announce c runtime =>
    dsimp only at hs
    split at hs
    · rename_i token authenticated hc
      cases hs
      refine h.setPhase hc (fun _ => ?_) fun runtime' ht => ?_
      · exact h.tokens c token authenticated (authenticated_of hc rfl)
      · exact absurd ht (h.unregistered hc rfl runtime')
    · cases hs
  | check c =>
    dsimp only at hs
    split at hs
    · rename_i token runtime hc
      cases hs
      refine h.setPhase hc (fun _ => ?_) fun runtime' ht => ?_
      · exact h.tokens c token runtime (authenticated_of hc rfl)
      · exact absurd ht (h.unregistered hc rfl runtime')
    · cases hs
  | register c =>
    dsimp only at hs
    split at hs
    · rename_i token runtime hc
      cases hs
      exact h.register hc
    · cases hs
  | drop c =>
    dsimp only at hs
    split at hs
    · rename_i token runtime hc
      cases hs
      refine h.setPhase hc (fun _ => ?_) fun runtime' ht => ?_
      · exact h.tokens c token runtime (authenticated_of hc rfl)
      · have ho := h.own runtime' c ht
        rwa [holds_of hc] at ho
    · cases hs
    · cases hs
    · rename_i link hregistered hclosed hover hc
      cases hs
      refine h.setPhase hc (fun ha => by cases ha) fun runtime' ht => ?_
      have ho := h.own runtime' c ht
      rw [holds_of hc] at ho
      obtain ⟨token, phase⟩ := link
      cases phase with
      | registered runtime => exact absurd rfl (hregistered token runtime)
      | closed runtime => exact absurd rfl (hclosed token runtime)
      | dialled | upgraded _ | announced _ | checked _ | ended => cases ho
    · cases hs
  | deregister c =>
    dsimp only at hs
    split at hs
    · rename_i token runtime hc
      cases hs
      have hremoved : Sound { v with registry := v.registry.remove runtime } := by
        refine h.setTransports fun runtime' c' ht => ?_
        rw [Function.update_apply] at ht
        split_ifs at ht
        exact h.own runtime' c' ht
      refine hremoved.setPhase hc (fun ha => by cases ha) fun runtime' ht => ?_
      -- only its own runtime's transport may be its, which is removed
      have ho := hremoved.own runtime' c ht
      obtain rfl : runtime = runtime' := Option.some.inj ((holds_of hc).symm.trans ho)
      rw [show (v.registry.remove runtime).transports runtime = none from
        Function.update_self _ _ _] at ht
      cases ht
    · cases hs

theorem sound_of_reachable (h : dialBack.Reachable v) : v.Sound :=
  h.invariant (by rintro _ rfl; exact .init) fun _ _ _ _ hv hs => hv.step hs

/-! ## One connection at a time -/

/-- At most one connection of a runtime is registered or to be removed, and nobody waits for a
runtime that is registered. -/
structure Orderly (v : Listener) : Prop where
  sole : ∀ c c' runtime, v.holds c = some runtime → v.holds c' = some runtime → c = c'
  quiet : ∀ runtime, (v.registry.transports runtime).isSome = true →
    v.registry.pending runtime = []

theorem Orderly.init : init.Orderly where
  sole _ _ _ h := by cases h
  quiet _ h := by cases h

theorem Orderly.setPhase (h : v.Orderly)
    (hc : v.links[c]? = some link)
    (hp : ∀ runtime, phase.holds = some runtime → link.phase.holds = some runtime) :
    (v.setPhase c phase).Orderly := by
  have hholds : ∀ c' runtime, (v.setPhase c phase).holds c' = some runtime →
      v.holds c' = some runtime := by
    intro c' runtime hr
    rw [holds_setPhase hc] at hr
    split_ifs at hr with hcc
    · rw [hcc, holds_of hc]
      exact hp runtime hr
    · exact hr
  exact ⟨fun c₁ c₂ runtime h₁ h₂ => h.sole c₁ c₂ runtime (hholds c₁ runtime h₁)
    (hholds c₂ runtime h₂), h.quiet⟩

theorem Orderly.remove (h : v.Orderly) (runtime : String) :
    Orderly { v with registry := v.registry.remove runtime } := by
  refine ⟨h.sole, fun r hr => h.quiet r ?_⟩
  have hr' : (Function.update v.registry.transports runtime none r).isSome = true := hr
  rw [Function.update_apply] at hr'
  split_ifs at hr'
  · cases hr'
  · exact hr'

theorem Orderly.register (h : v.Orderly)
    (hc : v.links[c]? = some ⟨token, .checked runtime⟩)
    (hsole : ∀ c', v.holds c' ≠ some runtime) :
    Orderly ((v.answer (.ok ()) (v.registry.tryRegisterTransport runtime c).2.1
      (v.registry.tryRegisterTransport runtime c).2.2).setPhase c
        (if (v.registry.tryRegisterTransport runtime c).1 then .registered runtime
          else .ended)) := by
  unfold ConnectedRuntimeRegistry.tryRegisterTransport
  by_cases hlive : (v.registry.transports runtime).isSome = true
  · simp only [hlive, if_true, answer_nil, Bool.false_eq_true, if_false]
    exact h.setPhase hc fun _ hr => by cases hr
  · simp only [hlive]
    refine ⟨fun c₁ c₂ r h₁ h₂ => ?_, fun r hr => ?_⟩
    · have h₁' := (holds_setPhase hc (.registered runtime) c₁).symm.trans h₁
      have h₂' := (holds_setPhase hc (.registered runtime) c₂).symm.trans h₂
      split_ifs at h₁' h₂' with hc₁ hc₂ hc₂
      · rw [hc₁, hc₂]
      · cases h₁'
        exact absurd h₂' (hsole c₂)
      · cases h₂'
        exact absurd h₁' (hsole c₁)
      · exact h.sole c₁ c₂ r h₁' h₂'
    · show Function.update v.registry.pending runtime [] r = []
      have hr' : (Function.update v.registry.transports runtime (some c) r).isSome = true := hr
      rw [Function.update_apply] at hr' ⊢
      split_ifs at hr' ⊢ with hrr
      · rfl
      · exact h.quiet r hr'

theorem Orderly.step (h : v.Orderly) (hg : v.orderly l = true)
    (hs : v.step? l = some v') : v'.Orderly := by
  unfold step? at hs
  cases l with
  | issue token runtime =>
    obtain ⟨-, hs⟩ := Option.ite_none_left_eq_some.mp hs
    cases hs
    exact ⟨h.sole, h.quiet⟩
  | revoke runtime =>
    cases hs
    exact ⟨h.sole, h.quiet⟩
  | remove runtime =>
    cases hs
    exact ⟨h.sole, (h.remove runtime).quiet⟩
  | notify runtime =>
    cases hs
    refine ⟨h.sole, fun r hr => ?_⟩
    simp only [orderly, Option.isNone_iff_eq_none] at hg
    have hrr : r ≠ runtime := by
      rintro rfl
      have hr' : (v.registry.transports r).isSome = true := hr
      rw [show v.registry.transports r = none from hg] at hr'
      cases hr'
    exact (Function.update_of_ne hrr _ _).trans (h.quiet r hr)
  | failPending runtime message =>
    cases hs
    refine ⟨h.sole, fun r hr => ?_⟩
    show Function.update v.registry.pending runtime [] r = []
    rw [Function.update_apply]
    split_ifs
    · rfl
    · exact h.quiet r hr
  | giveUp i =>
    dsimp only at hs
    split at hs
    · cases hs
      exact ⟨h.sole, h.quiet⟩
    · cases hs
  | dial token =>
    cases hs
    have hholds : ∀ c runtime, holds { v with links := v.links ++ [⟨token, .dialled⟩] } c =
        some runtime → v.holds c = some runtime := by
      intro c runtime hr
      unfold holds at hr ⊢
      rw [List.getElem?_append] at hr
      split_ifs at hr
      · exact hr
      · rw [List.getElem?_singleton] at hr
        split_ifs at hr <;> cases hr
    exact ⟨fun c₁ c₂ runtime h₁ h₂ => h.sole c₁ c₂ runtime (hholds c₁ runtime h₁)
      (hholds c₂ runtime h₂), h.quiet⟩
  | upgrade c =>
    dsimp only at hs
    split at hs
    · rename_i token hc
      cases hs
      refine h.setPhase hc fun runtime hr => ?_
      cases ht : v.issued.resolve token <;> rw [ht] at hr <;> cases hr
    · cases hs
  | announce c runtime =>
    dsimp only at hs
    split at hs
    · rename_i token authenticated hc
      cases hs
      refine h.setPhase hc fun runtime' hr => ?_
      split_ifs at hr <;> cases hr
    · cases hs
  | check c =>
    dsimp only at hs
    split at hs
    · rename_i token runtime hc
      cases hs
      refine h.setPhase hc fun runtime' hr => ?_
      split_ifs at hr <;> cases hr
    · cases hs
  | register c =>
    dsimp only at hs
    split at hs
    · rename_i token runtime hc
      cases hs
      simp only [orderly, hc, Bool.and_eq_true, List.all_eq_true, List.mem_range,
        decide_eq_true_eq] at hg
      refine h.register hc fun c' hr => ?_
      obtain ⟨link, hlink, -⟩ := Option.bind_eq_some_iff.mp hr
      exact hg.2 c' (List.getElem?_eq_some_iff.mp hlink).1 hr
    · cases hs
  | drop c =>
    dsimp only at hs
    split at hs
    · rename_i token runtime hc
      cases hs
      exact h.setPhase hc fun _ hr => hr
    · cases hs
    · cases hs
    · rename_i hc
      cases hs
      exact h.setPhase hc fun _ hr => by cases hr
    · cases hs
  | deregister c =>
    dsimp only at hs
    split at hs
    · rename_i token runtime hc
      cases hs
      have hover : (v.setPhase c .ended).Orderly := h.setPhase hc fun _ hr => by cases hr
      exact ⟨hover.sole, (h.remove runtime).quiet⟩
    · cases hs

/-! ## Connections that are shut out -/

/-- What stays true of a connection that is shut out. -/
structure Shut (v : Listener) (c : ℕ) (token runtime : String) : Prop where
  minted : token ∈ v.minted
  retired : v.issued.resolve token ≠ some runtime
  link : ∃ phase, v.links[c]? = some ⟨token, phase⟩ ∧
    (phase.authenticated = some runtime ∨ phase = .ended)
  out : v.registry.transports runtime ≠ some c

theorem ShutOut.shut (h : v.ShutOut c) (hsound : v.Sound) :
    ∃ token runtime, v.Shut c token runtime := by
  obtain ⟨token, runtime, ha, hr, ht⟩ := h
  refine ⟨token, runtime, hsound.tokens c token runtime ha, hr, ?_, ?_⟩
  · obtain ⟨link, hlink, hl⟩ := Option.bind_eq_some_iff.mp ha
    obtain ⟨runtime', hr', heq⟩ := Option.map_eq_some_iff.mp hl
    cases heq
    exact ⟨link.phase, hlink, .inl hr'⟩
  · rw [show v.registry.transports runtime = none from ht]
    exact (Option.some_ne_none c).symm

theorem Shut.unregistered (h : v.Shut c token runtime)
    (hsound : v.Sound) (runtime' : String) : v.registry.runtimeTransport runtime' ≠ some c := by
  intro ht
  have ho := hsound.own runtime' c ht
  obtain ⟨phase, hlink, hp⟩ := h.link
  rw [holds_of hlink] at ho
  rcases hp with hp | rfl
  · have hsame : runtime' = runtime := by
      cases phase <;> simp_all [LinkPhase.holds, LinkPhase.authenticated]
    exact h.out (hsame ▸ ht)
  · cases ho

theorem Shut.setOther {c' : ℕ} (h : v.Shut c token runtime) (hcc : c' ≠ c) :
    (v.setPhase c' phase).Shut c token runtime := by
  refine ⟨h.minted, h.retired, ?_, h.out⟩
  obtain ⟨old, hlink, hold⟩ := h.link
  refine ⟨old, ?_, hold⟩
  show (v.links.modify c' fun link => { link with phase })[c]? = _
  rw [List.getElem?_modify_ne _ _ hcc]
  exact hlink

theorem Shut.setPhase {c' : ℕ} (h : v.Shut c token runtime) (hc : v.links[c']? = some link)
    (hp : phase.authenticated = link.phase.authenticated ∨ phase = .ended)
    (hbegun : link.phase ≠ .ended) : (v.setPhase c' phase).Shut c token runtime := by
  by_cases hcc : c' = c
  · subst hcc
    obtain ⟨old, hlink, hold⟩ := h.link
    cases hc.symm.trans hlink
    refine ⟨h.minted, h.retired, ⟨phase, ?_, ?_⟩, h.out⟩
    · show (v.links.modify c' fun link => { link with phase })[c']? = _
      rw [List.getElem?_modify_eq, hlink]
      rfl
    · rcases hp with hp | hp
      · exact .inl (hp.trans (hold.resolve_right hbegun))
      · exact .inr hp
  · exact h.setOther hcc

theorem Shut.remove (h : v.Shut c token runtime)
    (runtime' : String) : (v.registry.remove runtime').transports runtime ≠ some c := by
  show Function.update v.registry.transports runtime' none runtime ≠ some c
  rw [Function.update_apply]
  split_ifs
  · exact (Option.some_ne_none c).symm
  · exact h.out

theorem Shut.step (h : v.Shut c token runtime)
    (hg : v.orderly l = true) (hs : v.step? l = some v') : v'.Shut c token runtime := by
  unfold step? at hs
  cases l with
  | issue token' runtime' =>
    obtain ⟨hnew, hs⟩ := Option.ite_none_left_eq_some.mp hs
    cases hs
    refine ⟨List.mem_append_left _ h.minted, ?_, h.link, h.out⟩
    rw [IssuedTokens.resolve_issue, if_neg (by rintro rfl; exact hnew h.minted)]
    split_ifs
    · exact (Option.some_ne_none _).symm
    · exact h.retired
  | revoke runtime' =>
    cases hs
    refine ⟨h.minted, ?_, h.link, h.out⟩
    rw [IssuedTokens.resolve_revokeRuntime]
    split_ifs
    · exact (Option.some_ne_none _).symm
    · exact h.retired
  | remove runtime' =>
    cases hs
    exact ⟨h.minted, h.retired, h.link, h.remove runtime'⟩
  | notify runtime' =>
    cases hs
    exact ⟨h.minted, h.retired, h.link, h.out⟩
  | failPending runtime' message =>
    cases hs
    exact ⟨h.minted, h.retired, h.link, h.out⟩
  | giveUp i =>
    dsimp only at hs
    split at hs
    · cases hs
      exact ⟨h.minted, h.retired, h.link, h.out⟩
    · cases hs
  | dial token' =>
    cases hs
    obtain ⟨phase, hlink, hp⟩ := h.link
    exact ⟨h.minted, h.retired, ⟨phase, getElem?_snoc_of_some hlink, hp⟩, h.out⟩
  | upgrade c' =>
    dsimp only at hs
    split at hs
    · rename_i token' hc
      cases hs
      obtain ⟨phase, hlink, hp⟩ := h.link
      have hcc : c' ≠ c := by
        rintro rfl
        cases hc.symm.trans hlink
        rcases hp with hp | hp <;> cases hp
      exact h.setOther hcc
    · cases hs
  | announce c' runtime' =>
    dsimp only at hs
    split at hs
    · rename_i token' authenticated hc
      cases hs
      refine h.setPhase hc ?_ LinkPhase.noConfusion
      split_ifs with hne
      · exact .inr rfl
      · exact .inl (congrArg some (not_not.mp hne))
    · cases hs
  | check c' =>
    dsimp only at hs
    split at hs
    · rename_i token' runtime' hc
      cases hs
      refine h.setPhase hc ?_ LinkPhase.noConfusion
      split_ifs
      · exact .inr rfl
      · exact .inl rfl
    · cases hs
  | register c' =>
    dsimp only at hs
    split at hs
    · rename_i token' runtime' hc
      cases hs
      simp only [orderly, hc, Bool.and_eq_true, decide_eq_true_eq] at hg
      unfold ConnectedRuntimeRegistry.tryRegisterTransport
      by_cases hlive : (v.registry.transports runtime').isSome = true
      · simp only [hlive, if_true, answer_nil, Bool.false_eq_true, if_false]
        exact h.setPhase hc (.inr rfl) LinkPhase.noConfusion
      · simp only [hlive]
        have hlinked : (v.setPhase c' (.registered runtime')).Shut c token runtime :=
          h.setPhase hc (.inl rfl) LinkPhase.noConfusion
        refine ⟨hlinked.minted, hlinked.retired, hlinked.link, ?_⟩
        show Function.update v.registry.transports runtime' (some c') runtime ≠ some c
        rw [Function.update_apply]
        split_ifs with hr
        · intro hcc
          cases hcc
          obtain ⟨phase, hlink, -⟩ := h.link
          cases hc.symm.trans hlink
          exact h.retired (hr ▸ hg.1)
        · exact h.out
    · cases hs
  | drop c' =>
    dsimp only at hs
    split at hs
    · rename_i token' runtime' hc
      cases hs
      exact h.setPhase hc (.inl rfl) LinkPhase.noConfusion
    · cases hs
    · cases hs
    · rename_i link hregistered hclosed hover hc
      cases hs
      obtain ⟨token', phase⟩ := link
      exact h.setPhase hc (.inr rfl) fun hp => hover token' (by rw [show phase = .ended from hp])
    · cases hs
  | deregister c' =>
    dsimp only at hs
    split at hs
    · rename_i token' runtime' hc
      cases hs
      have hover : (v.setPhase c' .ended).Shut c token runtime :=
        h.setPhase hc (.inr rfl) LinkPhase.noConfusion
      exact ⟨hover.minted, hover.retired, hover.link, h.remove runtime'⟩
    · cases hs

/-! ## What follows -/

theorem Orderly.endsAlone (h : v.Orderly) (hsound : v.Sound) : v.EndsAlone := by
  intro c v' hs runtime c' ht hne
  unfold step? at hs
  dsimp only at hs
  split at hs
  · rename_i token closed hc
    cases hs
    show Function.update v.registry.transports closed none runtime = some c'
    rw [Function.update_of_ne]
    · exact ht
    · rintro rfl
      exact hne (h.sole c' c runtime (hsound.own runtime c' ht) (holds_of hc))
  · cases hs

theorem Orderly.answeredOnce (h : v.Orderly) (hsound : v.Sound) : v.AnsweredOnce := by
  refine ⟨hsound.once, fun i w hw hgave hlive => ?_, hsound.waits⟩
  have hle := hsound.once i w hw
  have hne : w.answers ≠ [] := by
    intro hnil
    have hmem := hsound.waits i w hw hgave hnil
    rw [h.quiet w.runtime hlive] at hmem
    cases hmem
  have hpos := List.length_pos_of_ne_nil hne
  omega

end Listener

end Horsie.RuntimeHost
