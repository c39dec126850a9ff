import Horsie.Session.Creates

/-!
# What a load attempts again

A loaded session handles the repairs it sent itself, and the completions of the creates they begin,
until none is outstanding. Only one of these repairs is about a runtime, and the completion of its
create sends nothing.
-/

namespace Horsie.Session

open Lib

/-! ## Repairs and their completions -/

/-- Commands are handled in order, and the creates they begin end whenever they do, until none is
outstanding. -/
inductive Repairs (id : String) (newV5 : String → String → String) :
    Creating → List SessionCommand → List (String × ℕ) → Creating → Prop
  | done {x : Creating} (h : x.outstanding = []) : Repairs id newV5 x [] [] x
  | handle {x y : Creating} {c : SessionCommand} {cs : List SessionCommand}
      {begun : List (String × ℕ)} (env : Env) (hunused : x.session.Unused newV5 env.fresh)
      (h : Repairs id newV5 (x.serve id newV5 env c) cs begun y) :
      Repairs id newV5 x (c :: cs)
        ((x.session.handleCommand (env.serving id newV5) c).creates ++ begun) y
  | complete {x y : Creating} {cs : List SessionCommand} {begun : List (String × ℕ)} (env : Env)
      {index incarnation : ℕ} {runtime : String} (error : Option String) (terminal : Bool)
      (hi : x.outstanding[index]? = some (runtime, incarnation))
      (hunused : x.session.Unused newV5 env.fresh)
      (h : Repairs id newV5 (x.finish id newV5 env index runtime error terminal) cs begun y) :
      Repairs id newV5 x cs begun y

/-- The repairs that are about no runtime. -/
def SessionCommand.isAside : SessionCommand → Bool
  | .subAgent .reconcile | .run .reconcileInterrupted | .run .advance
  | .subSession .reseedInterrupted => true
  | _ => false

namespace SessionState

variable {s t : SessionState} {env : Env} {c : SessionCommand} {id r k : String}
  {newV5 : String → String → String} {events : List SessionDomainEvent}

/-! ## What is left alone -/

theorem isTame_of_isAside (hc : c.isAside = true) :
    ∀ e ∈ (s.handleCommand env c).events, isTame e = true := by
  cases hspec : s.spec with
  | none =>
    have hnone : (s.handleCommand env c).events = [] := by
      unfold handleCommand
      rw [hspec]
      cases c with
      | core => cases hc
      | turn c => cases c <;> exact absurd hc Bool.false_ne_true
      | _ => rfl
    rw [hnone]
    exact fun e he => absurd he List.not_mem_nil
  | some spec =>
    rw [handleCommand_of_told (hspec ▸ rfl)]
    unfold SessionCommand.isAside at hc
    intro e he
    split at hc
    · obtain ⟨x, -, rfl⟩ := List.mem_map.mp he
      rfl
    · obtain ⟨x, -, rfl⟩ := List.mem_map.mp he
      rfl
    · exact isTame_of_atBoundary (atBoundary_flushThenDrain e he)
    · cases he
    · cases hc

theorem runtimes_of_isAside (hc : c.isAside = true) :
    (s.applyAll (s.handleCommand env c).events).runtimes = s.runtimes ∧
      (s.handleCommand env c).creates = [] := by
  rcases @runtimes_handleCommand s env c with
    h | ⟨owner, vendor, runtime, built, requested, rfl, -⟩ | ⟨runtime, error, terminal, rfl, -⟩
  · exact h
  · cases hc
  · cases hc

section

variable {runtime : String} {error : Option String} {terminal : Bool}

theorem choice_finishProvisioning : (s.applyAll (s.handleCommand env
    (.lifecycle (.finishProvisioning runtime error terminal))).events).forest.choice k =
      s.forest.choice k := by
  cases hspec : s.spec with
  | none =>
    unfold handleCommand
    rw [hspec]
    rfl
  | some spec =>
    rw [handleCommand_of_told (hspec ▸ rfl)]
    refine choice_applyAll fun e he => ?_
    rcases List.mem_append.mp he with he | he
    · obtain rfl := List.mem_singleton.mp he
      cases error <;> rfl
    · exact isTame_of_atBoundary (atBoundary_flushThenDrain e he)

theorem provisioningOf_finishProvisioning (hspec : s.spec.isSome) :
    (s.applyAll (s.handleCommand env
      (.lifecycle (.finishProvisioning runtime error terminal))).events).provisioningOf r =
        if r = runtime then (s.provisioningOf r).map (settled error) else s.provisioningOf r := by
  rw [handleCommand_of_told hspec]
  have hruntimes : (s.applyAll (s.handle env
      (.lifecycle (.finishProvisioning runtime error terminal))).events).runtimes =
        (s.applyEvent (.finishing runtime error terminal)).runtimes :=
    runtimes_applyAll_flush [.finishing runtime error terminal]
  rw [provisioningOf_congr hruntimes, provisioningOf_finishing]

end

end SessionState

/-! ## Until no create is outstanding -/

/-- Whether a create was begun, and has ended. -/
def ProvisioningState.isSettled : ProvisioningState → Bool
  | .ready _ | .failed _ _ => true
  | .never | .inFlight _ => false

theorem isSettled_settled (error : Option String) (p : ProvisioningState) :
    (SessionState.settled error p).isSettled = true := by
  cases error <;> rfl

namespace Repairs

variable {id : String} {newV5 : String → String → String} {x y : Creating} {c : SessionCommand}
  {cs : List SessionCommand} {begun : List (String × ℕ)}

theorem head (h : Repairs id newV5 x (c :: cs) begun y) (hx : x.outstanding = []) :
    ∃ env begun', x.session.Unused newV5 env.fresh ∧
      Repairs id newV5 (x.serve id newV5 env c) cs begun' y ∧
      begun = (x.session.handleCommand (env.serving id newV5) c).creates ++ begun' := by
  cases h with
  | handle env hunused h => exact ⟨env, _, hunused, h, rfl⟩
  | complete env error terminal hi =>
    rw [hx] at hi
    cases hi

/-- Repairs about no runtime begin no create and change no choice. The creates that were outstanding
settle their records, and no other record changes. -/
theorem settles (h : Repairs id newV5 x cs begun y)
    (hspec : x.outstanding ≠ [] → x.session.spec.isSome) (hcs : ∀ c ∈ cs, c.isAside = true) :
    begun = [] ∧ (∀ k, y.session.forest.choice k = x.session.forest.choice k) ∧
      (∀ r, (∀ c ∈ x.outstanding, c.1 ≠ r) →
        y.session.provisioningOf r = x.session.provisioningOf r) ∧
      ∀ c ∈ x.outstanding, ∀ p, y.session.provisioningOf c.1 = some p → p.isSettled = true := by
  induction h with
  | done hx =>
    exact ⟨rfl, fun _ => rfl, fun _ _ => rfl, fun c hc => absurd (hx ▸ hc) List.not_mem_nil⟩
  | @handle x y c cs begun env hunused h ih =>
    obtain ⟨hruntimes, hcreates⟩ := SessionState.runtimes_of_isAside (s := x.session)
      (hcs c List.mem_cons_self)
    have hout : (x.serve id newV5 env c).outstanding = x.outstanding :=
      (congrArg (x.outstanding ++ ·) hcreates).trans (List.append_nil _)
    obtain ⟨hbegun, hchoice, hkept, hsettled⟩ := ih
      (fun hne => SessionState.spec_applyAll_isSome (hspec (hout ▸ hne)))
      fun d hd => hcs d (List.mem_cons_of_mem _ hd)
    rw [hout] at hkept hsettled
    refine ⟨?_, fun k => (hchoice k).trans ?_, fun r hr => (hkept r hr).trans ?_, hsettled⟩
    · rw [hcreates, hbegun]
      rfl
    · exact SessionState.choice_applyAll
        (SessionState.isTame_of_isAside (hcs c List.mem_cons_self))
    · exact SessionState.provisioningOf_congr hruntimes
  | @complete x y cs begun env index incarnation runtime error terminal hi hunused h ih =>
    have hspec := hspec (List.ne_nil_of_mem (List.mem_of_getElem? hi))
    obtain ⟨hbegun, hchoice, hkept, hsettled⟩ := ih
      (fun _ => SessionState.spec_applyAll_isSome hspec) hcs
    rw [Creating.finish_outstanding] at hkept hsettled
    have hprov : ∀ r,
        (x.finish id newV5 env index runtime error terminal).session.provisioningOf r =
        if r = runtime then (x.session.provisioningOf r).map (SessionState.settled error)
        else x.session.provisioningOf r :=
      fun r => SessionState.provisioningOf_finishProvisioning hspec
    refine ⟨hbegun, fun k => (hchoice k).trans SessionState.choice_finishProvisioning,
      fun r hr => ?_, fun d hd p hp => ?_⟩
    · refine (hkept r fun d hd => hr d (List.mem_of_mem_eraseIdx hd)).trans ?_
      rw [hprov, if_neg]
      rintro rfl
      exact hr _ (List.mem_of_getElem? hi) rfl
    · by_cases hleft : ∃ d' ∈ x.outstanding.eraseIdx index, d'.1 = d.1
      · obtain ⟨d', hd', hsame⟩ := hleft
        exact hsettled d' hd' p (hsame ▸ hp)
      · -- the create that ended is the only one of this runtime
        have hlast : d.1 = runtime := by
          obtain ⟨i, hdi⟩ := List.getElem?_of_mem hd
          by_cases hne : i = index
          · subst hne
            exact congrArg Prod.fst (Option.some.inj (hdi.symm.trans hi))
          · exact absurd ⟨d, List.mem_eraseIdx_iff_getElem?.mpr ⟨i, hne, hdi⟩, rfl⟩ hleft
        rw [hkept d.1 fun d' hd' hsame => hleft ⟨d', hd', hsame⟩, hprov, if_pos hlast] at hp
        obtain ⟨q, -, rfl⟩ := Option.map_eq_some_iff.mp hp
        exact isSettled_settled error q

theorem reachable (h : Repairs id newV5 x cs begun y)
    (hx : (running id newV5).Reachable x.session) : (running id newV5).Reachable y.session := by
  induction h with
  | done => exact hx
  | @handle x y c cs begun env hunused h ih => exact ih (hx.step (l := (env, c)) ⟨hunused, rfl⟩)
  | @complete x y cs begun env index incarnation runtime error terminal hi hunused h ih =>
    refine ih (hx.step (l := (env, .lifecycle (.finishProvisioning runtime error terminal))) ?_)
    exact ⟨hunused, rfl⟩

end Repairs

/-! ## What a load repairs -/

namespace SessionState

/-- The record of `r` is of a create that was begun and has not succeeded. -/
def Unfinished (s : SessionState) (r : String) : Prop :=
  ∃ x, s.runtimes.lookup r = some x ∧ x.provisioning.isUnfinished = true

/-- No agent's runtime awaits a create, and nobody who decides where to run awaits a runtime that
was not asked for. -/
structure Provided (s : SessionState) : Prop where
  settled : ∀ agent r x, s.runtimeFor agent = .on r x → x.provisioning.isSettled = true
  requested : ∀ k c, s.forest.choice k = some (some c) → s.runtimeOfChoice c ≠ .pending

/-- Of every record that is unfinished, one create was begun. -/
def AttemptedOnce (s : SessionState) (begun : List (String × ℕ)) : Prop :=
  ∀ r, s.Unfinished r → begun.countP (·.1 = r) = 1

/-- Everybody's runtime was asked for, and at most one create is to be attempted again, in a session
that has not failed for good. -/
structure Repairable (s : SessionState) : Prop where
  requested : ∀ k, s.forest.choice k ≠ some (some .pending)
  one : ∀ r r', s.Unfinished r → s.Unfinished r' → r = r'
  alive : ∀ r, s.Unfinished r → s.fatal = none

variable {s t : SessionState} {c : SessionCommand} {id r : String}
  {newV5 : String → String → String}

theorem begun_of_reachable (h : (running id newV5).Reachable s) :
    ∀ r, s.provisioningOf r ≠ some .never := by
  refine h.invariant (I := fun s => ∀ r, s.provisioningOf r ≠ some .never) ?_ ?_
  · rintro s rfl r hr
    exact absurd hr (by simp [provisioningOf, SessionState.empty])
  · rintro s ⟨env, c⟩ t - hs ⟨hunused, rfl⟩ r
    rcases runtimes_handleCommand (s := s) (c := c) with
      ⟨hr, -⟩ | ⟨owner, vendor, runtime, built, requested, -, hp, hr, -⟩ |
      ⟨runtime, error, terminal, -, hr⟩
    · rw [provisioningOf_congr hr]
      exact hs r
    · have hknown := (provisioningOf_of_provisions hunused.runtime hp).2.1
      rw [provisioningOf_congr hr, provisioningOf_started hknown]
      split_ifs
      · simp
      · exact hs r
    · rw [provisioningOf_congr hr, provisioningOf_finishing]
      split_ifs
      · intro hnever
        obtain ⟨p, -, hp⟩ := Option.map_eq_some_iff.mp hnever
        have hsettled := isSettled_settled error p
        rw [hp] at hsettled
        exact Bool.false_ne_true hsettled
      · exact hs r

theorem isSettled_of_not_unfinished {p : ProvisioningState}
    (hbegun : s.provisioningOf r ≠ some .never)
    (h : ¬ s.Unfinished r) (hp : s.provisioningOf r = some p) : p.isSettled = true := by
  obtain ⟨x, hx, rfl⟩ := Option.map_eq_some_iff.mp hp
  cases hx' : x.provisioning with
  | never => exact absurd (hp.trans (congrArg some hx')) hbegun
  | inFlight => exact absurd ⟨x, hx, by rw [hx']; rfl⟩ h
  | ready | failed => rfl

theorem choice_ne_inherit {f : RunForest} {k : String} : f.choice k ≠ some (some .inherit) := by
  intro h
  obtain ⟨⟨parent, st⟩, -, h⟩ := Option.map_eq_some_iff.mp h
  cases st with
  | sub => exact absurd h (by simp [RunState.decides])
  | main =>
    unfold RunState.decides at h
    dsimp only at h
    split_ifs at h with hr
    · exact RuntimeChoice.noConfusion (Option.some.inj h)
    · exact hr (Option.some.inj h)
  | workflow | subSession =>
    unfold RunState.decides at h
    dsimp only at h
    split_ifs at h with hr
    exact hr (Option.some.inj h)

theorem provided_of_settled (h : t.Housed id)
    (hrequested : ∀ k, t.forest.choice k ≠ some (some .pending))
    (hsettled : ∀ r p, t.provisioningOf r = some p → p.isSettled = true) : t.Provided := by
  have hlookup : ∀ {c r x}, t.runtimeOfChoice c = .on r x → t.runtimes.lookup r = some x := by
    intro c r x hc
    cases c with
    | on r' =>
      unfold runtimeOfChoice at hc
      dsimp only at hc
      split at hc
      · cases hc
        assumption
      · exact AgentRuntime.noConfusion hc
    | without | pending | inherit => exact AgentRuntime.noConfusion hc
  refine ⟨fun agent r x hx => ?_, fun k c hk => ?_⟩
  · refine hsettled r x.provisioning ?_
    unfold provisioningOf
    rw [hlookup hx]
    rfl
  · cases c with
    | on r =>
      obtain ⟨x, hx, -⟩ := Option.map_eq_some_iff.mp (h.chosen k r hk)
      unfold runtimeOfChoice
      dsimp only
      rw [hx]
      exact AgentRuntime.noConfusion
    | without => exact AgentRuntime.noConfusion
    | pending => exact absurd hk (hrequested k)
    | inherit => exact absurd hk choice_ne_inherit

theorem repairLifecycle_cases : (s.repairLifecycle = none ∧ ∀ r, s.Unfinished r → s.fatal.isSome) ∨
    ∃ r x, s.repairLifecycle = some (.lifecycle (.provision x.owner none)) ∧ s.fatal = none ∧
      s.runtimes.lookup r = some x ∧ x.provisioning.isUnfinished = true := by
  rw [repairLifecycle_eq]
  split_ifs with hfatal
  · exact .inl ⟨rfl, fun _ _ => hfatal⟩
  · cases hfind : s.runtimes.toPairs.find? (·.2.provisioning.isUnfinished) with
    | none =>
      refine .inl ⟨rfl, fun r ⟨x, hx, hun⟩ => ?_⟩
      exact absurd hun (List.find?_eq_none.mp hfind (r, x) (Map.mem_toPairs.mpr hx))
    | some y =>
      obtain ⟨r, x⟩ := y
      have hun := List.find?_some hfind
      exact .inr ⟨r, x, rfl, Option.not_isSome_iff_eq_none.mp hfatal,
        Map.mem_toPairs.mp (List.mem_of_find?_eq_some hfind), hun⟩

theorem repairs_aside : ∃ cs, s.repairs = s.repairLifecycle.toList ++ cs ∧
    ∀ c ∈ cs, c.isAside = true := by
  refine ⟨s.repairSubAgents.toList ++ s.repairRuns.toList ++ s.repairSubSessions.toList, ?_, ?_⟩
  · unfold repairs
    simp only [List.append_assoc]
  · intro c hc
    simp only [List.mem_append, Option.mem_toList] at hc
    unfold repairSubAgents repairRuns repairSubSessions at hc
    rcases hc with (hc | hc) | hc
    · split_ifs at hc
      exact Option.some.inj hc ▸ rfl
    · split_ifs at hc <;> exact Option.some.inj hc ▸ rfl
    · split_ifs at hc
      exact Option.some.inj hc ▸ rfl

/-- The repairs of a load provide everybody, and attempt every unfinished create once more, exactly
if all runtimes were asked for and at most one create is unfinished, in a session that did not fail
for good. -/
theorem load_repairs_runtimes_iff (id : String) (newV5 : String → String → String)
    (hderived : ∀ run index, WorkflowRunSpec.stepAgentId newV5 run index ≠ id)
    {s : SessionState} {begun : List (String × ℕ)} {y : Creating}
    (hloaded : (running id newV5).Reachable s) (h : Repairs id newV5 ⟨s, []⟩ s.repairs begun y) :
    (y.session.Provided ∧ s.AttemptedOnce begun) ↔ s.Repairable := by
  have hhoused := housed_of_reachable hderived (h.reachable hloaded)
  have hbegun := begun_of_reachable hloaded
  obtain ⟨cs, hcs, haside⟩ := s.repairs_aside
  rw [hcs] at h
  rcases s.repairLifecycle_cases with ⟨hl, hfatal⟩ | ⟨r, x, hl, hfatal, hx, hun⟩
  · rw [hl] at h
    obtain ⟨rfl, hchoice, hkept, -⟩ := h.settles (fun hne => absurd rfl hne) haside
    constructor
    · rintro ⟨hprovided, honce⟩
      have hnone : ∀ r, ¬ s.Unfinished r := fun r hr => absurd (honce r hr) (by simp)
      refine ⟨fun k hk => ?_, fun r _ hr => absurd hr (hnone r), fun r hr => absurd hr (hnone r)⟩
      exact hprovided.requested k .pending ((hchoice k).trans hk) rfl
    · intro hrep
      have hnone : ∀ r, ¬ s.Unfinished r := by
        intro r hr
        have hsome := hfatal r hr
        rw [hrep.alive r hr] at hsome
        cases hsome
      refine ⟨provided_of_settled hhoused (fun k hk => ?_) fun r p hp => ?_,
        fun r hr => absurd hr (hnone r)⟩
      · exact hrep.requested k ((hchoice k).symm.trans hk)
      · refine isSettled_of_not_unfinished (hbegun r) (hnone r) ((hkept r ?_).symm.trans hp)
        exact fun c hc => absurd hc List.not_mem_nil
  · rw [hl] at h
    have hhoused₀ := housed_of_reachable hderived hloaded
    have hspec : s.spec.isSome := by
      by_contra hnone
      have howner := hhoused₀.untold (Option.not_isSome_iff_eq_none.mp hnone) r
      rw [ownerOf, hx] at howner
      cases howner
    obtain ⟨env, begun, -, hrest, rfl⟩ := h.head rfl
    have hprovision := @handleCommand_provision _ (env.serving id newV5) _ _ _ hhoused₀ hspec
      hfatal hx hun
    have hserve : Creating.serve id newV5 ⟨s, []⟩ env (.lifecycle (.provision x.owner none)) =
        ⟨s.setProvisioning r fun _ => .inFlight env.now, [(r, env.now)]⟩ := by
      unfold Creating.serve
      rw [hprovision]
      rfl
    have hcreates : (s.handleCommand (env.serving id newV5)
        (.lifecycle (.provision x.owner none))).creates = [(r, env.now)] := by
      rw [hprovision]
      rfl
    rw [hserve] at hrest
    rw [hcreates]
    obtain ⟨rfl, hchoice, hkept, hsettled⟩ := hrest.settles (fun _ => hspec) haside
    rw [List.append_nil]
    have honce : s.AttemptedOnce [(r, env.now)] ↔ ∀ r', s.Unfinished r' → r = r' := by
      refine forall₂_congr fun r' _ => ?_
      rw [List.countP_singleton]
      simp
    constructor
    · rintro ⟨hprovided, hattempted⟩
      have hsame := honce.mp hattempted
      refine ⟨fun k hk => ?_, fun r₁ r₂ h₁ h₂ => (hsame r₁ h₁).symm.trans (hsame r₂ h₂),
        fun r hr => hfatal⟩
      exact hprovided.requested k .pending ((hchoice k).trans hk) rfl
    · intro hrep
      have hsame : ∀ r', s.Unfinished r' → r = r' := fun r' => hrep.one r r' ⟨x, hx, hun⟩
      refine ⟨provided_of_settled hhoused (fun k hk => ?_) fun r' p hp => ?_, honce.mpr hsame⟩
      · exact hrep.requested k ((hchoice k).symm.trans hk)
      · by_cases hr : r = r'
        · exact hsettled (r, env.now) (List.mem_singleton_self _) p (hr ▸ hp)
        · refine isSettled_of_not_unfinished (hbegun r') (fun hun' => hr (hsame r' hun')) ?_
          have hp' := (hkept r' fun c hc => ?_).symm.trans hp
          · rw [provisioningOf_setProvisioning, if_neg (Ne.symm hr)] at hp'
            exact hp'
          · rw [List.mem_singleton.mp hc]
            exact hr

theorem unused_of_serve? {env : Env} (h : (serve? s (env, .read)).isSome) :
    s.Unused joined env.fresh :=
  (step_of_serve? (Option.some_get h).symm).1

theorem repairs_eq_provision {owner : String} (hf : s.fatal = none)
    (h : (s.runtimes.toPairs.find? (·.2.provisioning.isUnfinished)).map (·.2.owner) = some owner)
    (ha : s.repairSubAgents.isNone) (hr : s.repairRuns.isNone) (hs : s.repairSubSessions.isNone) :
    s.repairs = [.lifecycle (.provision owner none)] := by
  obtain ⟨x, hx, rfl⟩ := Option.map_eq_some_iff.mp h
  unfold repairs
  rw [repairLifecycle_eq, hf, hx, Option.isNone_iff_eq_none.mp ha, Option.isNone_iff_eq_none.mp hr,
    Option.isNone_iff_eq_none.mp hs]
  rfl

def interruptedCreate : List (Env × SessionCommand) :=
  [(.plain "1", .core (.create ⟨.agent, some "fly"⟩ none none)),
    (.plain "1", .lifecycle (.provision "s" none))]

/-- One create is attempted again, and succeeds. -/
theorem load_repairs_runtimes_one : ∃ s begun y, (running "s" joined).Reachable s ∧
    Repairs "s" joined ⟨s, []⟩ s.repairs begun y ∧ y.session.provisioningOf "1" = some (.ready 5) ∧
      y.session.Provided ∧ s.AttemptedOnce begun := by
  let s := (System.steps? serve? .empty interruptedCreate).get (by decide +kernel)
  let env : Env := { Env.plain "2" with now := 5 }
  let x : Creating := Creating.serve "s" joined ⟨s, []⟩ env (.lifecycle (.provision "s" none))
  let y := x.finish "s" joined (.plain "2") 0 "1" none false
  obtain ⟨tr, htr, -⟩ := exec_serve? (t := s) (Option.some_get _).symm
  have hloaded : (running "s" joined).Reachable s := htr.reachable (.init rfl)
  have hrepairs : s.repairs = [.lifecycle (.provision "s" none)] :=
    repairs_eq_provision (by decide +kernel) (by decide +kernel) (by decide +kernel)
      (by decide +kernel) (by decide +kernel)
  have hi : x.outstanding[0]? = some ("1", 5) := by decide +kernel
  have hx : Repairs "s" joined x [] [] y :=
    .complete (.plain "2") none false hi (unused_of_serve? (by decide +kernel))
      (.done (by decide +kernel))
  obtain ⟨begun, h⟩ : ∃ begun, Repairs "s" joined ⟨s, []⟩ s.repairs begun y := by
    rw [hrepairs]
    exact ⟨_, .handle env (unused_of_serve? (by decide +kernel)) hx⟩
  have hentries : ∀ e ∈ s.forest.entries.toPairs, e.2.state.decides ≠ some .pending := by
    decide +kernel
  have hrecords : ∀ r ∈ s.runtimes.toPairs, r.1 = "1" := by decide +kernel
  refine ⟨s, begun, y, hloaded, h, by decide +kernel,
    (load_repairs_runtimes_iff "s" joined (joined_ne rfl) hloaded h).mpr ⟨fun k hk => ?_, ?_, ?_⟩⟩
  · obtain ⟨e, he, hd⟩ := Option.map_eq_some_iff.mp hk
    exact hentries (k, e) (Map.mem_toPairs.mpr he) hd
  · rintro r r' ⟨x, hx, -⟩ ⟨x', hx', -⟩
    exact (hrecords (r, x) (Map.mem_toPairs.mpr hx)).trans
      (hrecords (r', x') (Map.mem_toPairs.mpr hx')).symm
  · have hfatal : s.fatal = none := by decide +kernel
    exact fun r _ => hfatal

/-- The process dies as a session and a sub session of it both have their runtime created. A load
attempts the one again, and nobody the other. -/
theorem second_create_forgotten :
    ¬ ∀ s begun y, (running "s" joined).Reachable s →
      Repairs "s" joined ⟨s, []⟩ s.repairs begun y →
        y.session.Provided ∧ s.AttemptedOnce begun := by
  let ls : List (Env × SessionCommand) := interruptedCreate ++
    [(Env.plain "2", .subSession (.create "s" .fresh "look" "Look" (.own "fly"))),
      (.plain "3", .lifecycle (.provision "2" (some "fly"))),
      (.plain "4", .subSession (.seeded "2"))]
  let s := (System.steps? serve? .empty ls).get (by decide +kernel)
  let x : Creating := Creating.serve "s" joined ⟨s, []⟩ (.plain "4")
    (.lifecycle (.provision "2" none))
  let y := x.finish "s" joined (.plain "4") 0 "3" none false
  obtain ⟨tr, htr, -⟩ := exec_serve? (t := s) (Option.some_get _).symm
  have hrepairs : s.repairs = [.lifecycle (.provision "2" none)] :=
    repairs_eq_provision (by decide +kernel) (by decide +kernel) (by decide +kernel)
      (by decide +kernel) (by decide +kernel)
  have hi : x.outstanding[0]? = some ("3", 0) := by decide +kernel
  have hx : Repairs "s" joined x [] [] y :=
    .complete (.plain "4") none false hi (unused_of_serve? (by decide +kernel))
      (.done (by decide +kernel))
  obtain ⟨begun, h⟩ : ∃ begun, Repairs "s" joined ⟨s, []⟩ s.repairs begun y := by
    rw [hrepairs]
    exact ⟨_, .handle (.plain "4") (unused_of_serve? (by decide +kernel)) hx⟩
  intro hall
  obtain ⟨hprovided, -⟩ := hall s begun y (htr.reachable (.init rfl)) h
  have hy : y.session.runtimeFor "s" = .on "1" ⟨"fly", "s", .inFlight 0⟩ := by decide +kernel
  exact absurd (hprovided.settled _ _ _ hy) (by decide)

end SessionState

end Horsie.Session
