import Horsie.Session.Runtimes
import Horsie.Session.Sends

/-!
# Creates and their completions

A `Provision` begins a create and returns; the create's completion is a command of its own, which
names the runtime but not the attempt. So that what is recorded of a runtime is what became of its
one attempt, a create must be begun only while none of that runtime is outstanding.
-/

namespace Horsie.Session

open Lib

namespace SessionState

variable {s : SessionState} {env : Env} {c : SessionCommand}

theorem handleCommand_creates (hc : ∀ owner vendor, c ≠ .lifecycle (.provision owner vendor)) :
    (s.handleCommand env c).creates = [] := by
  rw [matched_handleCommand.creates, List.filterMap_eq_nil_iff]
  have hrenamed : ∀ {name : Option String}, ∀ e ∈ (name.map SessionDomainEvent.renamed).toList,
      e.create? = none := by
    intro name e he
    obtain ⟨title, -, rfl⟩ := Option.map_eq_some_iff.mp (Option.mem_toList.mp he)
    rfl
  cases hspec : s.spec with
  | none =>
    rcases untold_events (c := c) hspec with he | ⟨spec, name, he⟩
    · rw [he]
      exact fun e he => absurd he List.not_mem_nil
    · rw [he]
      exact List.forall_mem_cons.mpr ⟨rfl, hrenamed⟩
  | some spec =>
    obtain ⟨recorded, hr, he⟩ := @handleCommand_journals s env c
    have hrecorded : ∀ e ∈ recorded, e.create? = none := by
      rcases hr.about with hl | ⟨owner, vendor, runtime, built, requested, rfl, -⟩ |
        ⟨runtime, error, terminal, -, rfl⟩ | ⟨spec, name, -, rfl⟩
      · intro e he
        have hcalm := hl e he
        cases e <;> first | rfl | exact absurd hcalm Bool.noConfusion
      · exact absurd rfl (hc owner vendor)
      · intro e he
        obtain rfl := List.mem_singleton.mp he
        cases error <;> rfl
      · exact List.forall_mem_cons.mpr ⟨rfl, hrenamed⟩
    have hboundary : ∀ e ∈ ((s.applyAll recorded).flushThenDrain env).events,
        e.create? = none := by
      intro e he
      have hb := atBoundary_flushThenDrain e he
      cases e <;> first | rfl | exact hb.elim
    rcases he with he | he
    · rw [he]
      exact hrecorded
    · rw [he]
      exact List.forall_mem_append.mpr ⟨hrecorded, hboundary⟩

/-! ## What is recorded of a runtime -/

def provisioningOf (s : SessionState) (r : String) : Option ProvisioningState :=
  (s.runtimes.lookup r).map (·.provisioning)

variable {t : SessionState} {r : String} {events : List SessionDomainEvent}

theorem provisioningOf_congr (h : t.runtimes = s.runtimes) :
    t.provisioningOf r = s.provisioningOf r := by
  unfold provisioningOf
  rw [h]

theorem runtimes_applyAll_flush (recorded : List SessionDomainEvent) :
    (s.applyAll (recorded ++ ((s.applyAll recorded).flushThenDrain env).events)).runtimes =
      (s.applyAll recorded).runtimes := by
  rw [applyAll_append]
  refine runtimes_applyAll_of_not_isLifecycle fun e he => ?_
  have hboundary := atBoundary_flushThenDrain e he
  cases e <;> first | rfl | exact hboundary.elim

theorem runtimes_handleCommand :
    ((s.applyAll (s.handleCommand env c).events).runtimes = s.runtimes ∧
        (s.handleCommand env c).creates = []) ∨
      (∃ owner vendor runtime built requested, c = .lifecycle (.provision owner vendor) ∧
        s.provisions env.id owner vendor env.fresh = some (runtime, built, requested) ∧
        (s.applyAll (s.handleCommand env c).events).runtimes =
          (s.applyAll (started runtime owner built requested env.now)).runtimes ∧
        (s.handleCommand env c).creates = [(runtime, env.now)]) ∨
      ∃ runtime error terminal, c = .lifecycle (.finishProvisioning runtime error terminal) ∧
        (s.applyAll (s.handleCommand env c).events).runtimes =
          (s.applyEvent (.finishing runtime error terminal)).runtimes := by
  cases hspec : s.spec with
  | none =>
    left
    have hcreates : (s.handleCommand env c).creates = [] := by
      by_cases hc : ∃ owner vendor, c = .lifecycle (.provision owner vendor)
      · obtain ⟨owner, vendor, rfl⟩ := hc
        unfold handleCommand
        rw [hspec]
        rfl
      · exact handleCommand_creates fun owner vendor h => hc ⟨owner, vendor, h⟩
    refine ⟨?_, hcreates⟩
    rcases untold_events (c := c) hspec with he | ⟨spec, name, he⟩
    · rw [he]
      rfl
    · rw [he]
      cases name <;> rfl
  | some spec =>
    have hsome : s.spec.isSome := hspec ▸ rfl
    by_cases hc : ∃ owner vendor, c = .lifecycle (.provision owner vendor)
    · obtain ⟨owner, vendor, rfl⟩ := hc
      cases hp : s.provisions env.id owner vendor env.fresh with
      | none =>
        rw [handleCommand_provision_none hsome hp]
        exact .inl ⟨rfl, rfl⟩
      | some x =>
        obtain ⟨runtime, built, requested⟩ := x
        rw [handleCommand_provision_some hsome hp]
        exact .inr (.inl ⟨owner, vendor, runtime, built, requested, rfl, hp, rfl, rfl⟩)
    · have hcreates : (s.handleCommand env c).creates = [] :=
        handleCommand_creates fun owner vendor h => hc ⟨owner, vendor, h⟩
      obtain ⟨recorded, hr, he⟩ := handleCommand_journals (s := s) (c := c)
      have hruntimes : (s.applyAll (s.handleCommand env c).events).runtimes =
          (s.applyAll recorded).runtimes := by
        rcases he with he | he
        · rw [he]
        · rw [he]
          exact runtimes_applyAll_flush recorded
      rw [hruntimes]
      rcases hr.about with hl | ⟨owner, vendor, runtime, built, requested, rfl, -⟩ |
        ⟨runtime, error, terminal, rfl, rfl⟩ | ⟨spec, name, hnone, rfl⟩
      · exact .inl ⟨runtimes_applyAll_of_not_isLifecycle hl, hcreates⟩
      · exact absurd ⟨owner, vendor, rfl⟩ hc
      · exact .inr (.inr ⟨runtime, error, terminal, rfl, rfl⟩)
      · rw [hnone] at hsome
        cases hsome

variable {runtime : String}

theorem provisioningOf_of_provisions {session owner fresh built : String}
    {vendor : Option String} {requested : Bool} (hfresh : s.runtimes.lookup fresh = none)
    (h : s.provisions session owner vendor fresh = some (runtime, built, requested)) :
    s.fatal = none ∧
      (requested = false ∧ s.ownerOf runtime = some owner ∨
        requested = true ∧ s.provisioningOf runtime = none) ∧
      ∀ x, s.provisioningOf runtime ≠ some (.ready x) := by
  unfold provisions at h
  by_cases hfatal : s.fatal.isSome = true
  · rw [if_pos hfatal] at h
    cases h
  rw [if_neg hfatal] at h
  refine ⟨Option.not_isSome_iff_eq_none.mp hfatal, ?_⟩
  have hnew : s.provisioningOf fresh = none := by
    unfold provisioningOf
    rw [hfresh]
    rfl
  cases hfind : s.runtimes.toPairs.find? (·.2.owner = owner) with
  | some y =>
    obtain ⟨r, x⟩ := y
    have hx : s.runtimes.lookup r = some x := Map.mem_toPairs.mp (List.mem_of_find?_eq_some hfind)
    have howner := List.find?_some hfind
    rw [decide_eq_true_eq] at howner
    rw [hfind] at h
    dsimp only at h
    unfold ownerOf provisioningOf
    cases hp : x.provisioning with
    | ready =>
      rw [hp] at h
      cases h
    | never | inFlight | failed =>
      rw [hp] at h
      obtain ⟨rfl, hrest⟩ := Prod.mk.inj (Option.some.inj h)
      cases hrest
      rw [hx]
      refine ⟨.inl ⟨rfl, congrArg some howner⟩, fun y hy => ?_⟩
      rw [Option.map_some, hp] at hy
      exact ProvisioningState.noConfusion (Option.some.inj hy)
  | none =>
    rw [hfind] at h
    have hfirst : runtime = fresh ∧ requested = true := by
      cases vendor with
      | some vendor =>
        obtain ⟨hr, hrest⟩ := Prod.mk.inj (Option.some.inj h)
        exact ⟨hr.symm, (Prod.mk.inj hrest).2.symm⟩
      | none =>
        split_ifs at h
        obtain ⟨v, -, hv⟩ := Option.map_eq_some_iff.mp h
        obtain ⟨hr, hrest⟩ := Prod.mk.inj hv
        exact ⟨hr.symm, (Prod.mk.inj hrest).2.symm⟩
    obtain ⟨rfl, rfl⟩ := hfirst
    exact ⟨.inr ⟨rfl, hnew⟩, fun y hy => absurd (hnew.symm.trans hy) (by simp)⟩

theorem provisioningOf_setProvisioning
    {f : ProvisioningState → ProvisioningState} :
    (s.setProvisioning runtime f).provisioningOf r =
      if r = runtime then (s.provisioningOf r).map f else s.provisioningOf r := by
  unfold provisioningOf setProvisioning
  rw [Map.lookup_adjust]
  split_ifs
  · rw [Option.map_map, Option.map_map]
    rfl
  · rfl

theorem provisioningOf_started {owner built : String} {requested : Bool} {now : ℕ}
    (h : requested = false ∧ s.ownerOf runtime = some owner ∨
      requested = true ∧ s.provisioningOf runtime = none) :
    (s.applyAll (started runtime owner built requested now)).provisioningOf r =
      if r = runtime then some (.inFlight now) else s.provisioningOf r := by
  rcases h with ⟨rfl, howner⟩ | ⟨rfl, -⟩
  · show (s.setProvisioning runtime fun _ => .inFlight now).provisioningOf r = _
    rw [provisioningOf_setProvisioning]
    split_ifs with hr
    · subst hr
      obtain ⟨x, hx, -⟩ := Option.map_eq_some_iff.mp howner
      unfold provisioningOf
      rw [hx]
      rfl
    · rfl
  · show (SessionState.setProvisioning (s.applyEvent (.runtimeRequested runtime owner built))
      runtime fun _ => .inFlight now).provisioningOf r = _
    rw [provisioningOf_setProvisioning]
    have hrequested : (s.applyEvent (.runtimeRequested runtime owner built)).provisioningOf r =
        if r = runtime then some .never else s.provisioningOf r := by
      show ((s.runtimes.insert runtime ⟨built, owner, .never⟩).lookup r).map _ = _
      rw [Map.lookup_insert_eq]
      split_ifs <;> rfl
    rw [hrequested]
    split_ifs <;> rfl

/-- How a create that ended leaves its record. -/
def settled (error : Option String) (p : ProvisioningState) : ProvisioningState :=
  match error with
  | none => .ready (p.atMs.getD 0)
  | some error => .failed (p.atMs.getD 0) error

theorem provisioningOf_finishing {error : Option String} {terminal : Bool} :
    (s.applyEvent (.finishing runtime error terminal)).provisioningOf r =
      if r = runtime then (s.provisioningOf r).map (settled error) else s.provisioningOf r := by
  cases error with
  | none => exact provisioningOf_setProvisioning
  | some error =>
    refine Eq.trans ?_ (provisioningOf_setProvisioning (f := settled (some error)))
    cases terminal <;> rfl

end SessionState

/-! ## Creates that are outstanding -/

/-- Whether a command is the completion of a create, which nothing but that create sends. -/
def SessionCommand.isCompletion : SessionCommand → Bool
  | .lifecycle (.finishProvisioning _ _ _) => true
  | _ => false

/-- A session, and the creates it began that have not ended. -/
structure Creating where
  session : SessionState
  outstanding : List (String × ℕ)

/-- What can happen: a command is handled, the create at an index ends, or the process dies. -/
inductive CreateEvent
  | handle (env : Env) (c : SessionCommand)
  | complete (env : Env) (index : ℕ) (error : Option String) (terminal : Bool)
  | die

/-- For whom a `Provision` is handled. -/
def CreateEvent.provisions : CreateEvent → Option String
  | .handle _ (.lifecycle (.provision owner _)) => some owner
  | _ => none

namespace Creating

variable (id : String) (newV5 : String → String → String)

def serve (x : Creating) (env : Env) (c : SessionCommand) : Creating :=
  let e := x.session.handleCommand (env.serving id newV5) c
  ⟨x.session.applyAll e.events, x.outstanding ++ e.creates⟩

/-- The create at an index ends, as a create of `runtime`. -/
def finish (x : Creating) (env : Env) (index : ℕ) (runtime : String) (error : Option String)
    (terminal : Bool) : Creating :=
  serve id newV5 ⟨x.session, x.outstanding.eraseIdx index⟩ env
    (.lifecycle (.finishProvisioning runtime error terminal))

theorem finish_outstanding (x : Creating) (env : Env) (index : ℕ) (runtime : String)
    (error : Option String) (terminal : Bool) :
    (x.finish id newV5 env index runtime error terminal).outstanding =
      x.outstanding.eraseIdx index := by
  show _ ++ Effect.creates _ = _
  rw [SessionState.handleCommand_creates fun owner vendor h => by simp at h, List.append_nil]

inductive Step : Creating → CreateEvent → Creating → Prop
  | handle {x : Creating} {env : Env} {c : SessionCommand} (hc : c.isCompletion = false)
      (hunused : x.session.Unused newV5 env.fresh) :
      Step x (.handle env c) (x.serve id newV5 env c)
  | complete {x : Creating} {env : Env} {index incarnation : ℕ} {runtime : String}
      {error : Option String} {terminal : Bool}
      (hi : x.outstanding[index]? = some (runtime, incarnation))
      (hunused : x.session.Unused newV5 env.fresh) :
      Step x (.complete env index error terminal)
        (x.finish id newV5 env index runtime error terminal)
  | die {x : Creating} : Step x .die ⟨x.session, []⟩

/-- A session from its beginning: commands in any order, and the creates they begin ending in any
order, with any result. A process that dies leaves no create outstanding, and is loaded again. -/
def creating : System Creating CreateEvent where
  Init x := x = ⟨.empty, []⟩
  Step := Step id newV5

/-- A ready runtime stays ready in its incarnation, and one becomes ready only as the create of that
incarnation succeeds. -/
def Final (x : Creating) (l : CreateEvent) (y : Creating) : Prop :=
  ∀ r atMs,
    (x.session.provisioningOf r = some (.ready atMs) →
      y.session.provisioningOf r = some (.ready atMs)) ∧
    (y.session.provisioningOf r = some (.ready atMs) →
      x.session.provisioningOf r = some (.ready atMs) ∨
        ∃ env index terminal, l = .complete env index none terminal ∧
          x.outstanding[index]? = some (r, atMs))

/-- No `Provision` is taken for whom a create is outstanding. -/
def Alone (x : Creating) (l : CreateEvent) : Prop :=
  ∀ owner ∈ l.provisions, x.session.fatal = none →
    ∀ c ∈ x.outstanding, x.session.ownerOf c.1 ≠ some owner

instance (x : Creating) (l : CreateEvent) : Decidable (x.Alone l) :=
  inferInstanceAs (Decidable (∀ owner ∈ l.provisions, x.session.fatal = none →
    ∀ c ∈ x.outstanding, x.session.ownerOf c.1 ≠ some owner))

/-- A runtime has at most one outstanding create, and its record awaits that one. -/
structure Tracked (x : Creating) : Prop where
  alone : (x.outstanding.map (·.1)).Nodup
  awaited : ∀ c ∈ x.outstanding, x.session.provisioningOf c.1 = some (.inFlight c.2)

variable {id newV5} {x y : Creating} {l : CreateEvent}

/-- Where no record changes and no create begins, ready runtimes are what they were. -/
theorem Final.of_runtimes (h : y.session.runtimes = x.session.runtimes) : x.Final l y := by
  intro r atMs
  rw [SessionState.provisioningOf_congr h]
  exact ⟨fun h => h, .inl⟩

theorem Tracked.handle {env : Env} {c : SessionCommand} (h : x.Tracked)
    (halone : x.Alone (.handle env c)) (hc : c.isCompletion = false)
    (hunused : x.session.Unused newV5 env.fresh) :
    x.Final (.handle env c) (x.serve id newV5 env c) ∧ (x.serve id newV5 env c).Tracked := by
  rcases SessionState.runtimes_handleCommand (s := x.session)
    (c := c) with ⟨hr, hcreates⟩ |
      ⟨owner, vendor, runtime, built, requested, rfl, hp, hr, hcreates⟩ |
    ⟨runtime, error, terminal, rfl, -⟩
  · refine ⟨.of_runtimes hr, ?_, ?_⟩
    · show ((x.outstanding ++ _).map _).Nodup
      rw [hcreates, List.append_nil]
      exact h.alone
    · intro d hd
      have hold : d ∈ x.outstanding ++ [] := hcreates ▸ hd
      rw [List.append_nil] at hold
      exact (SessionState.provisioningOf_congr hr).trans (h.awaited d hold)
  · obtain ⟨hfatal, hknown, hnotready⟩ :=
      SessionState.provisioningOf_of_provisions hunused.runtime hp
    have hfree : ∀ d ∈ x.outstanding, d.1 ≠ runtime := by
      rintro d hd rfl
      rcases hknown with ⟨-, howner⟩ | ⟨-, hnone⟩
      · exact halone owner rfl hfatal d hd howner
      · exact absurd (hnone.symm.trans (h.awaited d hd)) (by simp)
    have hprov : ∀ r,
        (x.serve id newV5 env (.lifecycle (.provision owner vendor))).session.provisioningOf r =
        if r = runtime then some (.inFlight env.now) else x.session.provisioningOf r :=
      fun r => (SessionState.provisioningOf_congr hr).trans
        (SessionState.provisioningOf_started hknown)
    refine ⟨fun r atMs => ?_, ?_, ?_⟩
    · rw [hprov]
      split_ifs with hrr
      · subst hrr
        exact ⟨fun hready => absurd hready (hnotready atMs), fun hready => by simp at hready⟩
      · exact ⟨fun hready => hready, .inl⟩
    · show ((x.outstanding ++ _).map _).Nodup
      rw [hcreates, List.map_append, List.nodup_append]
      refine ⟨h.alone, List.nodup_singleton _, fun r hr r' hr' => ?_⟩
      obtain ⟨d, hd, rfl⟩ := List.mem_map.mp hr
      obtain rfl := List.mem_singleton.mp hr'
      exact hfree d hd
    · intro d hd
      rw [hprov]
      have hd' : d ∈ x.outstanding ++ [(runtime, env.now)] := hcreates ▸ hd
      rcases List.mem_append.mp hd' with hd | hd
      · rw [if_neg (hfree d hd)]
        exact h.awaited d hd
      · obtain rfl := List.mem_singleton.mp hd
        exact if_pos rfl
  · exact absurd hc (by simp [SessionCommand.isCompletion])

theorem Tracked.complete {env : Env} {index incarnation : ℕ} {runtime : String}
    {error : Option String} {terminal : Bool} (h : x.Tracked)
    (hi : x.outstanding[index]? = some (runtime, incarnation)) :
    x.Final (.complete env index error terminal)
        (x.finish id newV5 env index runtime error terminal) ∧
      (x.finish id newV5 env index runtime error terminal).Tracked := by
  have hleft := x.finish_outstanding id newV5 env index runtime error terminal
  have hnodup : ((x.outstanding.eraseIdx index).map (·.1)).Nodup :=
    h.alone.sublist ((List.eraseIdx_sublist _ _).map _)
  have hkept : ∀ d ∈ x.outstanding.eraseIdx index,
      d.1 ≠ runtime ∧ x.session.provisioningOf d.1 = some (.inFlight d.2) := by
    intro d hd
    obtain ⟨i, hne, hdi⟩ := List.mem_eraseIdx_iff_getElem?.mp hd
    refine ⟨?_, h.awaited d (List.mem_of_getElem? hdi)⟩
    rintro rfl
    refine hne ((List.getElem?_inj ?_ h.alone).mp ?_)
    · rw [List.length_map]
      exact (List.getElem?_eq_some_iff.mp hdi).1
    · rw [List.getElem?_map, List.getElem?_map, hdi, hi]
      rfl
  rcases SessionState.runtimes_handleCommand (s := x.session)
    (c := .lifecycle (.finishProvisioning runtime error terminal)) with
    ⟨hr, -⟩ | ⟨owner, vendor, _, built, requested, hc, -⟩ | ⟨_, _, _, hc, hr⟩
  · refine ⟨.of_runtimes hr, by rw [hleft]; exact hnodup, fun d hd => ?_⟩
    rw [hleft] at hd
    exact (SessionState.provisioningOf_congr hr).trans (hkept d hd).2
  · simp at hc
  · obtain ⟨rfl, rfl, rfl⟩ :=
      LifecycleCommand.finishProvisioning.inj (SessionCommand.lifecycle.inj hc)
    have hawaited := h.awaited _ (List.mem_of_getElem? hi)
    have hprov : ∀ r,
        (x.finish id newV5 env index runtime error terminal).session.provisioningOf r =
        if r = runtime then some (SessionState.settled error (.inFlight incarnation))
        else x.session.provisioningOf r := by
      intro r
      refine (SessionState.provisioningOf_congr hr).trans ?_
      rw [SessionState.provisioningOf_finishing]
      split_ifs with hrr
      · rw [hrr, hawaited]
        rfl
      · rfl
    refine ⟨fun r atMs => ?_, by rw [hleft]; exact hnodup, fun d hd => ?_⟩
    · rw [hprov]
      split_ifs with hrr
      · subst hrr
        refine ⟨fun hready => absurd (hready.symm.trans hawaited) (by simp), fun hready => .inr ?_⟩
        cases error with
        | some error => simp [SessionState.settled] at hready
        | none =>
          cases hready
          exact ⟨env, index, terminal, rfl, hi⟩
      · exact ⟨fun hready => hready, .inl⟩
    · rw [hleft] at hd
      rw [hprov, if_neg (hkept d hd).1]
      exact (hkept d hd).2

theorem Tracked.step (h : x.Tracked) (halone : x.Alone l) (hstep : Step id newV5 x l y) :
    x.Final l y ∧ y.Tracked := by
  cases hstep with
  | handle hc hunused => exact h.handle halone hc hunused
  | complete hi hunused => exact h.complete hi
  | die => exact ⟨.of_runtimes rfl, List.nodup_nil, fun c hc => absurd hc List.not_mem_nil⟩

/-- As long as no `Provision` is taken for whom a create is outstanding, a ready runtime is final,
in the incarnation whose create succeeded. -/
theorem ready_is_final (id : String) (newV5 : String → String → String)
    {tr : List (Creating × CreateEvent × Creating)} {x : Creating}
    (h : (creating id newV5).Exec ⟨.empty, []⟩ tr x) (halone : ∀ z ∈ tr, z.1.Alone z.2.1) :
    ∀ z ∈ tr, z.1.Final z.2.1 z.2.2 := by
  intro z hz
  obtain ⟨pre, hpre, hmem, hstep⟩ := h.before hz
  have htracked : z.1.Tracked := by
    refine hpre.guarded (G := Alone) (fun x l y _ hx hl hxy => (hx.step hl hxy).2) (.init rfl) ?_
      fun w hw => halone w (hmem w hw)
    exact ⟨List.nodup_nil, fun c hc => absurd hc List.not_mem_nil⟩
  exact (htracked.step (halone z hz) hstep).1

/-! ### Executions that can be computed -/

/-- The step of the session `s` whose ids are derived by joining, as a function. -/
def step? (x : Creating) : CreateEvent → Option Creating
  | .handle env c =>
    if c.isCompletion then none
    else (serve? x.session (env, c)).map fun _ => x.serve "s" joined env c
  | .complete env index error terminal =>
    x.outstanding[index]?.bind fun create =>
      (serve? x.session (env, .read)).map fun _ =>
        x.finish "s" joined env index create.1 error terminal
  | .die => some ⟨x.session, []⟩

theorem step_of_step? (h : x.step? l = some y) : Step "s" joined x l y := by
  cases l with
  | handle env c =>
    obtain ⟨hc, h⟩ := Option.ite_none_left_eq_some.mp h
    obtain ⟨s, hs, rfl⟩ := Option.map_eq_some_iff.mp h
    exact .handle (Bool.eq_false_iff.mpr hc) (step_of_serve? hs).1
  | complete env index error terminal =>
    obtain ⟨⟨runtime, incarnation⟩, hi, h⟩ := Option.bind_eq_some_iff.mp h
    obtain ⟨s, hs, rfl⟩ := Option.map_eq_some_iff.mp h
    exact .complete hi (step_of_serve? hs).1
  | die =>
    cases h
    exact .die

def failedCreate : List CreateEvent :=
  [.handle (.plain "1") (.core (.create ⟨.agent, some "fly"⟩ none none)),
    .handle { Env.plain "1" with now := 1 } (.lifecycle (.provision "s" none)),
    .complete (.plain "2") 0 (some "offline") false]

/-- A create that failed is attempted once more, and succeeds. -/
theorem ready_is_final_retried :
    ∃ tr x, (creating "s" joined).Exec ⟨.empty, []⟩ tr x ∧
      x.session.provisioningOf "1" = some (.ready 2) ∧ ∀ z ∈ tr, z.1.Final z.2.1 z.2.2 := by
  let ls : List CreateEvent := failedCreate ++
    [CreateEvent.handle (.plain "2") (.turn (.userMessage none "hi" [])),
      .handle { Env.plain "2" with now := 2 } (.lifecycle (.provision "s" none)),
      .complete (.plain "2") 0 none false]
  let x := (System.steps? (System.guarded? Alone step?) ⟨.empty, []⟩ ls).get (by decide +kernel)
  obtain ⟨tr, htr, -, halone⟩ := System.exec_of_guarded? (M := creating "s" joined) (G := Alone)
    (fun _ _ _ _ => step_of_step?) (t := x) (Option.some_get _).symm
  exact ⟨tr, x, htr, by decide +kernel, ready_is_final "s" joined htr halone⟩

/-- Two messages to a session whose create failed have its runtime created twice at once. The first
of these to end has succeeded, but the runtime is ready as the second, whose failure then takes the
readiness back. -/
theorem ready_is_left :
    ¬ ∀ tr x, (creating "s" joined).Exec ⟨.empty, []⟩ tr x → ∀ z ∈ tr, z.1.Final z.2.1 z.2.2 := by
  let ls : List CreateEvent := failedCreate ++
    [CreateEvent.handle (.plain "2") (.turn (.userMessage none "hi" [])),
      .handle (.plain "3") (.turn (.userMessage none "are you there" [])),
      .handle { Env.plain "2" with now := 2 } (.lifecycle (.provision "s" none)),
      .handle { Env.plain "2" with now := 3 } (.lifecycle (.provision "s" none)),
      .complete (.plain "2") 0 none false]
  let l : CreateEvent := .complete (.plain "2") 0 (some "offline") false
  let x := (System.steps? step? ⟨.empty, []⟩ ls).get (by decide +kernel)
  let y := (x.step? l).get (by decide +kernel)
  obtain ⟨tr, htr, -⟩ := System.exec_of_steps? (M := creating "s" joined)
    (fun _ _ _ => step_of_step?) (t := x) (Option.some_get _).symm
  intro hall
  have hfinal := hall _ y (htr.snoc (step_of_step? (Option.some_get _).symm)) (x, l, y)
    (List.mem_append_right _ (List.mem_singleton_self _))
  have hx : x.session.provisioningOf "1" = some (.ready 3) := by decide +kernel
  have hy : y.session.provisioningOf "1" = some (.failed 3 "offline") := by decide +kernel
  exact absurd (hy.symm.trans ((hfinal "1" 3).1 hx)) (by decide)

end Creating

end Horsie.Session
