import Horsie.Session.Attempts
import Horsie.Session.Inheritance

/-!
# Messages and the runtimes they wait for

A message is queued for its agent whether or not the runtime of that agent is up, and is released
when it is. So that it does not wait for good, that runtime must be ready, or a create of it be
outstanding, once the session has handled what it told itself. What keeps it so is told by
`Tended`: whoever awaits a runtime has asked for it, and a runtime that is not up is being built,
about to be, or the main agent's, which a message has created again.
-/

namespace Horsie.Session

open Lib
open Agent (ArtifactRef)

/-! ## What leaves somebody without a runtime -/

namespace SessionState

variable (s : SessionState)

/-- Whether a delete leaves a sub session that inherited what the deleted one ran on. -/
def cuts : SessionCommand → Bool
  | .core (.deleteAgent gone) => s.forest.entries.toPairs.any fun e =>
    e.2.parent = some gone && e.2.state.subSession?.any (·.runtime = .inherit)
  | _ => false

/-- Whether the request of a sub session that awaits a runtime is lost with its actor. -/
def strands (env : Env) : SessionCommand → Bool
  | .subSession (.finishCreate id (.own _) _) =>
    !env.spawns id && s.forest.choice id = some (some .pending)
  | _ => false

/-- Whether `r` is the runtime of the main agent of the session `id`. -/
def isOfMain (id r : String) : Bool := s.ownerOf r = some id && !s.forest.rootIsWorkflow

/-- Whether whoever asked for `r` is gone. -/
def abandoned (r : String) : Bool := (s.ownerOf r).any fun owner => (s.forest.entry owner).isNone

/-- Whether a load takes up all that is unfinished: nobody awaits a runtime that was not recorded,
and every create but the first that has not succeeded failed for the main agent or for nobody. -/
def resumable (id : String) : Bool :=
  s.fatal.isSome ||
    (s.forest.entries.toPairs.all fun e => e.2.state.decides ≠ some .pending) &&
      s.runtimes.toPairs.all fun x =>
        !x.2.provisioning.isUnfinished ||
          (s.runtimes.toPairs.find? (·.2.provisioning.isUnfinished)).any (·.1 = x.1) ||
            !x.2.provisioning.isInFlight && s.isOfMain id x.1 || s.abandoned x.1

end SessionState

/-! ## What one command leaves -/

namespace SessionState

variable {s t : SessionState} {env : Env} {c : SessionCommand} {id k r : String}
  {events : List SessionDomainEvent}

theorem fatal_applyEvent {e : SessionDomainEvent} (h : (s.applyEvent e).fatal = none) :
    s.fatal = none := by
  cases e with
  | sessionFailed => exact absurd h (by simp [applyEvent])
  | provisioningFailed runtime error terminal =>
    cases terminal with
    | true => exact absurd h (by simp [applyEvent])
    | false => exact h
  | _ => exact h

theorem fatal_applyAll (h : (s.applyAll events).fatal = none) : s.fatal = none := by
  induction events generalizing s with
  | nil => exact h
  | cons e es ih => exact fatal_applyEvent (ih h)

theorem spec_applyAll_of_not_structural (h : ∀ e ∈ events, e.isStructural = false) :
    (s.applyAll events).spec = s.spec := by
  induction events generalizing s with
  | nil => rfl
  | cons e es ih =>
    refine (ih fun x hx => h x (List.mem_cons_of_mem _ hx)).trans (spec_applyEvent ?_)
    rintro session spec rfl
    exact absurd (h _ List.mem_cons_self) (by simp [SessionDomainEvent.isStructural])

theorem spec_handleCommand (hspec : s.spec.isSome) :
    (s.applyAll (s.handleCommand env c).events).spec = s.spec := by
  obtain ⟨recorded, hr, he⟩ := @handleCommand_journals s env c
  have hrec : (s.applyAll recorded).spec = s.spec := by
    rcases hr.steady with hs | ⟨spec, name, hn, -⟩ | ⟨e, rfl, hstr⟩
    · exact spec_applyAll_of_not_structural fun e he => (hs e he).1
    · rw [hn] at hspec
      cases hspec
    · rcases hstr with ⟨parent, graph, -, rfl⟩ | ⟨parent, title, task, agentType, -, rfl⟩ |
        ⟨parent, sourceSeq, seed, message, title, choice, -, -, rfl⟩ | ⟨gone, -, -, rfl⟩ <;> rfl
  rcases he with he | he
  · rw [he, hrec]
  · rw [he, applyAll_append, spec_applyAll_of_not_structural fun e he => (steady_of_atBoundary
      (atBoundary_flushThenDrain e he)).1, hrec]

/-! ### Entries -/

/-- An entry keeps its place and what it decides. -/
structure Kept (s t : SessionState) (k : String) : Prop where
  shape : t.forest.shape k = s.forest.shape k
  choice : t.forest.choice k = s.forest.choice k

theorem Kept.trans {u : SessionState} (h : Kept s t k) (h' : Kept t u k) : Kept s u k :=
  ⟨h'.shape.trans h.shape, h'.choice.trans h.choice⟩

theorem kept_of_isTame (h : ∀ e ∈ events, isTame e = true) : Kept s (s.applyAll events) k where
  shape := by
    induction events generalizing s with
    | nil => rfl
    | cons e es ih =>
      refine (ih fun x hx => h x (List.mem_cons_of_mem _ hx)).trans ?_
      exact shape_applyEvent (not_structural_of_isTame (h e List.mem_cons_self))
  choice := choice_applyAll h

def branchDecision : RequestedRuntime → Option RuntimeChoice
  | .own _ => some .pending
  | .without => some .without
  | .inherit => none

/-- What a command that is no `Provision` does to the entries: it leaves them all, or one comes, or
an agent goes with what it delegated. -/
inductive Places (s : SessionState) (env : Env) (c : SessionCommand) (t : SessionState) : Prop
  | kept (h : ∀ k, Kept s t k)
  | delegated (parent : String) (kind : RunKind) (hkind : kind ≠ .subSession)
      (hshape : t.forest.shape env.fresh = some (some parent, kind))
      (hchoice : t.forest.choice env.fresh = some none)
      (h : ∀ k, k ≠ env.fresh → Kept s t k)
  | branched (parent message title : String) (seed : SeedMode) (choice : RequestedRuntime)
      (hc : c = .subSession (.create parent seed message title choice))
      (hbranch : s.branchable env.id parent message = none)
      (hshape : t.forest.shape env.fresh = some (some parent, .subSession))
      (hchoice : t.forest.choice env.fresh = some (branchDecision choice))
      (h : ∀ k, k ≠ env.fresh → Kept s t k)
  | gone (id : String) (hc : c = .core (.deleteAgent id)) (hid : s.forest.Removable id)
      (hremoves : ∀ k, Kept (s.applyEvent (.agentDeleted id)) t k)

theorem Places.flushed (h : Places s env c t) : Places s env c
    (t.applyAll (t.flushThenDrain env).events) := by
  have hk : ∀ k, Kept t (t.applyAll (t.flushThenDrain env).events) k := fun k =>
    kept_of_isTame fun e he => isTame_of_atBoundary (atBoundary_flushThenDrain e he)
  cases h with
  | kept h => exact .kept fun k => (h k).trans (hk k)
  | delegated parent kind hkind hshape hchoice h =>
    exact .delegated parent kind hkind ((hk _).shape.trans hshape) ((hk _).choice.trans hchoice)
      fun k hne => (h k hne).trans (hk k)
  | branched parent message title seed choice hc hbranch hshape hchoice h =>
    exact .branched parent message title seed choice hc hbranch ((hk _).shape.trans hshape)
      ((hk _).choice.trans hchoice) fun k hne => (h k hne).trans (hk k)
  | gone id hc hid hremoves => exact .gone id hc hid fun k => (hremoves k).trans (hk k)

theorem kept_insertEntry {f : RunForest} {fresh : String} {parent : Option String}
    {state : RunState} (ht : ∀ k, t.forest.entry k = (f.insertEntry fresh parent state).entry k)
    (hs : s.forest = f) (hne : k ≠ fresh) : Kept s t k := by
  have hentry : t.forest.entry k = s.forest.entry k := by
    rw [ht, RunForest.entry_insertEntry, if_neg hne, hs]
  constructor
  · unfold RunForest.shape
    rw [hentry]
  · unfold RunForest.choice
    rw [hentry]

theorem places_handleCommand (hspec : s.spec.isSome)
    (hc : ∀ owner vendor, c ≠ .lifecycle (.provision owner vendor)) :
    Places s env c (s.applyAll (s.handleCommand env c).events) := by
  obtain ⟨recorded, hr, he⟩ := @handleCommand_journals s env c
  have hrec : Places s env c (s.applyAll recorded) := by
    rcases hr.steady with hs | ⟨spec, name, hn, -⟩ | ⟨e, rfl, hstr⟩
    · refine .kept fun k => kept_of_isTame fun e he => ?_
      rcases hr.about with hl | ⟨owner, vendor, -, -, -, h, -⟩ |
        ⟨runtime, error, terminal, -, rfl⟩ | ⟨spec, name, hn, -⟩
      · exact isTame_of_not_isLifecycle (hs e he).1 (hl e he)
      · exact absurd h (hc owner vendor)
      · obtain rfl := List.mem_singleton.mp he
        cases error <;> rfl
      · rw [hn] at hspec
        cases hspec
    · rw [hn] at hspec
      cases hspec
    · rcases hstr with ⟨parent, graph, -, rfl⟩ | ⟨parent, title, task, agentType, -, rfl⟩ |
        ⟨parent, sourceSeq, seed, message, title, choice, hbranch, hcreate, rfl⟩ |
        ⟨gone, hid, hdelete, rfl⟩
      · refine .delegated parent .workflow RunKind.noConfusion ?_ ?_ fun k hne =>
          kept_insertEntry (fun k => rfl) rfl hne
        · exact RunForest.shape_insertEntry.trans (if_pos rfl)
        · exact RunForest.choice_insertEntry.trans (if_pos rfl)
      · refine .delegated parent .sub RunKind.noConfusion ?_ ?_ fun k hne =>
          kept_insertEntry (fun k => rfl) rfl hne
        · exact RunForest.shape_insertEntry.trans (if_pos rfl)
        · exact RunForest.choice_insertEntry.trans (if_pos rfl)
      · refine .branched parent message title seed choice hcreate hbranch ?_ ?_ fun k hne =>
          kept_insertEntry (fun k => rfl) rfl hne
        · exact RunForest.shape_insertEntry.trans (if_pos rfl)
        · refine RunForest.choice_insertEntry.trans ((if_pos rfl).trans ?_)
          cases choice <;> rfl
      · exact .gone gone hdelete hid fun k => ⟨rfl, rfl⟩
  rcases he with he | he
  · rw [he]
    exact hrec
  · rw [he, applyAll_append]
    exact hrec.flushed

theorem handleCommand_provision_cases (hspec : s.spec.isSome) (owner : String)
    (vendor : Option String) :
    s.provisions env.id owner vendor env.fresh = none ∧
        s.handleCommand env (.lifecycle (.provision owner vendor)) = {} ∨
      ∃ runtime built requested,
        s.provisions env.id owner vendor env.fresh = some (runtime, built, requested) ∧
        s.handleCommand env (.lifecycle (.provision owner vendor)) =
          { events := started runtime owner built requested env.now
            sent := [.create runtime built env.now] } := by
  cases hp : s.provisions env.id owner vendor env.fresh with
  | none => exact .inl ⟨rfl, handleCommand_provision_none hspec hp⟩
  | some x =>
    obtain ⟨runtime, built, requested⟩ := x
    exact .inr ⟨runtime, built, requested, rfl, handleCommand_provision_some hspec hp⟩

variable {atMs : ℕ} {built owner : String} {requested : Bool}

theorem shape_started {runtime : String} :
    (s.applyAll (started runtime owner built requested atMs)).forest.shape k =
      s.forest.shape k := by
  cases requested with
  | true =>
    refine (shape_applyEvent (e := .provisioningStarted atMs runtime) rfl).trans ?_
    exact shape_applyEvent (e := .runtimeRequested runtime owner built) rfl
  | false => exact shape_applyEvent (e := .provisioningStarted atMs runtime) rfl

theorem choice_started {runtime : String} :
    (s.applyAll (started runtime owner built requested atMs)).forest.choice k =
      if requested = true ∧ k = owner then (s.forest.entry k).map fun e =>
        if e.state.kind = .sub then none else some (.on runtime)
      else s.forest.choice k := by
  cases requested with
  | true =>
    refine (RunForest.choice_pointAtRuntime RuntimeChoice.noConfusion).trans ?_
    by_cases hk : k = owner
    · rw [if_pos hk, if_pos ⟨rfl, hk⟩]
    · rw [if_neg hk, if_neg fun h => hk h.2]
  | false => exact (if_neg fun h => Bool.false_ne_true h.1).symm

theorem shape_handleCommand_none (hspec : s.spec.isSome) (hk : s.forest.shape k = none)
    (hne : k ≠ env.fresh) :
    (s.applyAll (s.handleCommand env c).events).forest.shape k = none := by
  by_cases hc : ∃ owner vendor, c = .lifecycle (.provision owner vendor)
  · obtain ⟨owner, vendor, rfl⟩ := hc
    rcases @handleCommand_provision_cases s env hspec owner vendor with ⟨-, h⟩ |
      ⟨runtime, built, requested, -, h⟩
    · rw [h]
      exact hk
    · rw [h, shape_started]
      exact hk
  · cases @places_handleCommand s env c hspec fun owner vendor h =>
      hc ⟨owner, vendor, h⟩ with
    | kept h => rw [(h k).shape, hk]
    | delegated parent kind hkind hshape hchoice h => rw [(h k hne).shape, hk]
    | branched parent message title seed choice hc hbranch hshape hchoice h =>
      rw [(h k hne).shape, hk]
    | gone gone hc hid hremoves =>
      rw [(hremoves k).shape]
      rcases RunForest.entry_applyAgentDeleted (f := s.forest) (r := k) with h | h
      · exact (congrArg _ h).trans hk
      · exact congrArg _ h

/-- Nobody comes to await a runtime but a sub session that asked for one of its own. -/
theorem pending_of_handled (hspec : s.spec.isSome)
    (hk : (s.applyAll (s.handleCommand env c).events).forest.choice k = some (some .pending)) :
    s.forest.choice k = some (some .pending) ∨
      k = env.fresh ∧ ∃ parent seed message title vendor,
        c = .subSession (.create parent seed message title (.own vendor)) ∧
        s.branchable env.id parent message = none := by
  by_cases hc : ∃ owner vendor, c = .lifecycle (.provision owner vendor)
  · left
    obtain ⟨owner, vendor, rfl⟩ := hc
    rcases @handleCommand_provision_cases s env hspec owner vendor with ⟨-, h⟩ |
      ⟨runtime, built, requested, -, h⟩
    · rw [h] at hk
      exact hk
    · rw [h, choice_started] at hk
      split_ifs at hk
      · obtain ⟨e, -, he⟩ := Option.map_eq_some_iff.mp hk
        split_ifs at he
        exact absurd (Option.some.inj he) RuntimeChoice.noConfusion
      · exact hk
  · cases @places_handleCommand s env c hspec fun owner vendor h =>
      hc ⟨owner, vendor, h⟩ with
    | kept h => exact .inl ((h k).choice ▸ hk)
    | delegated parent kind hkind hshape hchoice h =>
      by_cases hfresh : k = env.fresh
      · rw [hfresh, hchoice] at hk
        cases hk
      · exact .inl ((h k hfresh).choice ▸ hk)
    | branched parent message title seed choice hcreate hbranch hshape hchoice h =>
      by_cases hfresh : k = env.fresh
      · rw [hfresh, hchoice] at hk
        cases choice with
        | own vendor => exact .inr ⟨hfresh, parent, seed, message, title, vendor, hcreate, hbranch⟩
        | without | inherit => exact absurd hk (by simp [branchDecision])
      · exact .inl ((h k hfresh).choice ▸ hk)
    | gone gone hc hid hremoves =>
      rw [(hremoves k).choice] at hk
      rcases RunForest.choice_applyAgentDeleted (f := s.forest) (k := k) with h | h
      · exact .inl (h.symm.trans hk)
      · exact absurd (h.symm.trans hk) (by simp)

theorem not_pending_of_provision {vendor : Option String} (hhoused : s.Housed id)
    (hspec : s.spec.isSome) (hfatal : s.fatal = none)
    (hk : s.forest.choice k = some (some .pending))
    (hv : vendor.isSome = true ∨ k = env.id ∧ (s.spec.bind (·.runtime)).isSome = true) :
    (s.applyAll (s.handleCommand env (.lifecycle (.provision k vendor))).events).forest.choice k ≠
      some (some .pending) := by
  have hfind : s.runtimes.toPairs.find? (·.2.owner = k) = none := by
    rw [List.find?_eq_none]
    rintro ⟨r, x⟩ hx howner
    have hr : s.ownerOf r = some k := by
      rw [ownerOf, Map.mem_toPairs.mp hx]
      exact congrArg some (of_decide_eq_true howner)
    exact absurd (hhoused.owned r k .pending hr hk) RuntimeChoice.noConfusion
  obtain ⟨built, hp⟩ : ∃ built,
      s.provisions env.id k vendor env.fresh = some (env.fresh, built, true) := by
    unfold provisions
    rw [hfatal, if_neg (by decide), hfind]
    cases vendor with
    | some vendor => exact ⟨vendor, rfl⟩
    | none =>
      obtain ⟨rfl, hruntime⟩ := hv.resolve_left Bool.false_ne_true
      obtain ⟨built, hbuilt⟩ := Option.isSome_iff_exists.mp hruntime
      refine ⟨built, ?_⟩
      rw [if_pos rfl, hbuilt]
      rfl
  rw [handleCommand_provision_some hspec hp]
  show (s.applyAll (started env.fresh k built true env.now)).forest.choice k ≠ _
  rw [choice_started, if_pos ⟨rfl, rfl⟩]
  intro hpending
  obtain ⟨e, -, he⟩ := Option.map_eq_some_iff.mp hpending
  split_ifs at he
  exact RuntimeChoice.noConfusion (Option.some.inj he)

/-- A session that is told what it is awaits a runtime if that names one. -/
theorem pending_of_untold (hroot : s.Rooted env.id) (hspec : s.spec = none)
    (hk : (s.applyAll (s.handleCommand env c).events).forest.choice k = some (some .pending)) :
    k = env.id ∧ ∃ spec name message, c = .core (.create spec name message) ∧
      (spec.runtime).isSome = true ∧
      (s.applyAll (s.handleCommand env c).events).spec = some spec := by
  have hempty : ∀ k, s.forest.choice k = none := by
    rw [hroot.untold hspec]
    exact fun _ => rfl
  unfold handleCommand at hk ⊢
  rw [hspec] at hk ⊢
  split at hk
  · rename_i spec name message _
    have hevents : (s.handleCore env (.create spec name message)).events =
        .specRecorded env.id spec :: (name.map .renamed).toList := by
      unfold handleCore
      rw [hspec]
      rfl
    have htitle : ∀ e ∈ (Option.map SessionDomainEvent.renamed name).toList, isTame e = true := by
      intro e he
      obtain ⟨title, -, rfl⟩ := Option.map_eq_some_iff.mp (Option.mem_toList.mp he)
      rfl
    rw [hevents] at hk ⊢
    change (applyAll (s.applyEvent (.specRecorded env.id spec)) _).forest.choice k = _ at hk
    rw [choice_applyAll htitle] at hk
    have hchoice : (s.applyEvent (.specRecorded env.id spec)).forest.choice k =
        if k = env.id then some (some (rootChoice spec)) else none := by
      obtain ⟨kind, runtime⟩ := spec
      cases kind with
      | agent | workflow =>
        refine RunForest.choice_insertEntry.trans ?_
        rw [hempty]
        cases runtime <;> rfl
    rw [hchoice] at hk
    split_ifs at hk with hid
    refine ⟨hid, spec, name, message, rfl, ?_, ?_⟩
    · obtain ⟨kind, runtime⟩ := spec
      cases runtime with
      | some runtime => rfl
      | none => exact absurd hk (by simp [rootChoice])
    · show (applyAll (s.applyEvent (.specRecorded env.id spec)) _).spec = some spec
      rw [spec_applyAll_of_not_structural fun e he => not_structural_of_isTame (htitle e he)]
      rfl
  · exfalso
    rw [refuseUntilTold_events] at hk
    exact absurd ((hempty k).symm.trans hk) (by simp)
  · rename_i hsome
    cases hsome

/-- Whoever inherits a runtime inherits it from an entry that is there. -/
def Linked (s : SessionState) : Prop :=
  ∀ k p, s.forest.shape k = some (some p, .subSession) → s.forest.choice k = some none →
    s.forest.shape p ≠ none

theorem Linked.of_kept (h : s.Linked) (hk : ∀ k, Kept s t k) : t.Linked := by
  intro k p hshape hchoice
  rw [(hk k).shape] at hshape
  rw [(hk k).choice] at hchoice
  rw [(hk p).shape]
  exact h k p hshape hchoice

theorem Linked.deleted {newV5 : String → String → String} {gone : String} (h : s.Linked)
    (hn : s.Nested newV5) (hh : s.Hosts newV5) (hroot : s.Rooted id)
    (hid : s.forest.Removable gone) (hcut : s.cuts (.core (.deleteAgent gone)) = false) :
    (s.applyEvent (.agentDeleted gone)).Linked := by
  have hr := hn.removes hh hroot hid
  intro k p hshape hchoice
  obtain ⟨hbefore, hstays⟩ := hr.shape hshape
  have hkept := hr.kept k hstays
  have hold : s.forest.choice k = some none := by
    unfold RunForest.choice at hchoice ⊢
    rwa [hkept] at hchoice
  obtain ⟨e, he, heq⟩ := Option.map_eq_some_iff.mp hbefore
  obtain ⟨hp, hkind⟩ := Prod.mk.inj heq
  have hpgone : p ≠ gone := by
    rintro rfl
    have hany : s.cuts (.core (.deleteAgent p)) = true := by
      refine List.any_eq_true.mpr ⟨(k, e), Map.mem_toPairs.mpr he, ?_⟩
      obtain ⟨parent, state⟩ := e
      cases state with
      | subSession run =>
        have hinherit : run.runtime = .inherit := by
          unfold RunForest.choice at hold
          rw [he] at hold
          by_contra hne
          exact absurd hold (by simp [RunState.decides, hne])
        simp only at hp
        simp [hp, hinherit, RunState.subSession?]
      | main | sub | workflow => exact absurd hkind (by simp [RunState.kind])
    rw [hcut] at hany
    exact Bool.false_ne_true hany
  have hdoomed : ¬ s.forest.Doomed gone p := by
    intro hdoomed
    obtain ⟨-, ⟨-, hnone⟩ | ⟨q, kind, hq, hkind⟩⟩ := hn.branched k p hbefore
    · exact h k p hbefore hold hnone
    · have hwork : kind ≠ .workflow := by
        rcases hkind with rfl | rfl <;> exact RunKind.noConfusion
      exact hstays (.inl (hn.doomed_of_doomed hid he hp (hn.own p q kind hq hwork) hdoomed))
  have hpkept := hr.kept p fun hor => hor.elim hdoomed hpgone
  unfold RunForest.shape
  rw [hpkept]
  exact h k p hbefore hold

theorem Linked.handleCommand (h : s.Linked) (hn : s.Nested env.newV5) (hh : s.Hosts env.newV5)
    (hroot : s.Rooted env.id) (hhoused : s.Housed env.id) (hcut : s.cuts c = false) :
    (s.applyAll (s.handleCommand env c).events).Linked := by
  cases hspec : s.spec with
  | none =>
    rcases @untold_events s env c hspec with he | ⟨spec, name, he⟩
    · rw [he]
      exact h
    · rw [he]
      have hfirst : (s.applyEvent (.specRecorded env.id spec)).Linked := by
        intro k p hshape
        exfalso
        have hempty : ∀ k, s.forest.shape k = none := by
          rw [hroot.untold hspec]
          exact fun _ => rfl
        obtain ⟨kind, runtime⟩ := spec
        cases kind with
        | agent | workflow =>
          have hone := RunForest.shape_insertEntry.symm.trans hshape
          rw [hempty] at hone
          split_ifs at hone
          exact absurd (Prod.mk.inj (Option.some.inj hone)).1 (by simp)
      refine hfirst.of_kept fun k => kept_of_isTame fun e he => ?_
      obtain ⟨title, -, rfl⟩ := Option.map_eq_some_iff.mp (Option.mem_toList.mp he)
      rfl
  | some spec =>
    have htold : s.spec.isSome := hspec ▸ rfl
    by_cases hc : ∃ owner vendor, c = .lifecycle (.provision owner vendor)
    · obtain ⟨owner, vendor, rfl⟩ := hc
      rcases @handleCommand_provision_cases s env htold owner vendor with ⟨-, he⟩ |
        ⟨runtime, built, requested, -, he⟩
      · rw [he]
        exact h
      · rw [he]
        intro k p hshape hchoice
        rw [shape_started] at hshape
        rw [choice_started] at hchoice
        rw [shape_started]
        split_ifs at hchoice
        · obtain ⟨e, he, hnone⟩ := Option.map_eq_some_iff.mp hchoice
          rw [RunForest.shape, he] at hshape
          have hkind := (Prod.mk.inj (Option.some.inj hshape)).2
          rw [if_neg (by rw [hkind]; exact RunKind.noConfusion)] at hnone
          cases hnone
        · exact h k p hshape hchoice
    · cases @places_handleCommand s env c htold fun owner vendor heq =>
        hc ⟨owner, vendor, heq⟩ with
      | kept hk => exact h.of_kept hk
      | delegated parent kind hkind hshape hchoice hk =>
        intro k p hks hkc
        by_cases hkf : k = env.fresh
        · rw [hkf, hshape] at hks
          exact absurd (Prod.mk.inj (Option.some.inj hks)).2 hkind
        · by_cases hpf : p = env.fresh
          · rw [hpf, hshape]
            simp
          · rw [(hk k hkf).shape] at hks
            rw [(hk k hkf).choice] at hkc
            rw [(hk p hpf).shape]
            exact h k p hks hkc
      | branched parent message title seed choice hcreate hbranch hshape hchoice hk =>
        intro k p hks hkc
        by_cases hpf : p = env.fresh
        · rw [hpf, hshape]
          simp
        · rw [(hk p hpf).shape]
          by_cases hkf : k = env.fresh
          · rw [hkf, hshape] at hks
            obtain ⟨q, kind, hq, -⟩ := session_of_branchable hroot hhoused htold hbranch
            obtain rfl := Option.some.inj (Prod.mk.inj (Option.some.inj hks)).1
            rw [hq]
            simp
          · rw [(hk k hkf).shape] at hks
            rw [(hk k hkf).choice] at hkc
            exact h k p hks hkc
      | gone gone hdelete hid hremoves =>
        subst hdelete
        exact (h.deleted hn hh hroot hid hcut).of_kept hremoves

/-! ### Runtimes -/

theorem lookup_started {runtime : String}
    (hr : r ≠ runtime) :
    (s.applyAll (started runtime owner built requested atMs)).runtimes.lookup r =
      s.runtimes.lookup r := by
  have hbegun {u : SessionState} :
      (u.applyEvent (.provisioningStarted atMs runtime)).runtimes.lookup r =
        u.runtimes.lookup r := Map.lookup_adjust_ne hr
  cases requested with
  | true => exact hbegun.trans (AList.lookup_insert_ne hr)
  | false => exact hbegun

theorem ready_of_not_provisions {x : RuntimeRecord} {session fresh : String}
    {vendor : Option String} (hhoused : s.Housed id) (hfatal : s.fatal = none)
    (hx : s.runtimes.lookup r = some x)
    (h : s.provisions session x.owner vendor fresh = none) :
    ∃ atMs, x.provisioning = .ready atMs := by
  unfold provisions at h
  rw [hfatal, if_neg (by decide)] at h
  cases hfind : s.runtimes.toPairs.find? (·.2.owner = x.owner) with
  | none =>
    have hno := List.find?_eq_none.mp hfind (r, x) (Map.mem_toPairs.mpr hx)
    exact absurd (decide_eq_true rfl) hno
  | some y =>
    obtain ⟨r', x'⟩ := y
    have hx' : s.runtimes.lookup r' = some x' :=
      Map.mem_toPairs.mp (List.mem_of_find?_eq_some hfind)
    have howner := List.find?_some hfind
    rw [decide_eq_true_eq] at howner
    have hr' : s.ownerOf r' = some x.owner := by
      rw [ownerOf, hx', ← howner]
      rfl
    have hr : s.ownerOf r = some x.owner := by
      rw [ownerOf, hx]
      rfl
    obtain rfl := hhoused.unique r' r x.owner hr' hr
    obtain rfl := Option.some.inj (hx'.symm.trans hx)
    rw [hfind] at h
    dsimp only at h
    cases hp : x'.provisioning with
    | ready atMs => exact ⟨atMs, rfl⟩
    | never | inFlight | failed =>
      rw [hp] at h
      cases h

theorem rootIsWorkflow_eq (hhoused : s.Housed id) (hspec : s.spec.isSome) :
    s.forest.rootIsWorkflow = (s.forest.workflow id).isSome := by
  unfold RunForest.rootIsWorkflow RunForest.rootWorkflow RunForest.rootEntry
  rw [(hhoused.seated hspec).1]
  rfl

theorem rootIsWorkflow_handleCommand (hrooted : s.Rooted env.id) (hhoused : s.Housed env.id)
    (ht : t.Housed env.id) (hspec : s.spec.isSome) (hfresh : s.forest.entry env.fresh = none)
    (heq : t = s.applyAll (s.handleCommand env c).events) :
    t.forest.rootIsWorkflow = s.forest.rootIsWorkflow := by
  have htold : t.spec.isSome := by
    rw [heq, spec_handleCommand hspec]
    exact hspec
  have hsome {u : SessionState} (hu : u.Housed env.id) (hspec : u.spec.isSome) :
      ∃ x, u.forest.shape env.id = some x := by
    obtain ⟨-, choice, hchoice⟩ := hu.seated hspec
    obtain ⟨e, he, -⟩ := Option.map_eq_some_iff.mp hchoice
    exact ⟨_, congrArg _ he⟩
  obtain ⟨x, hx⟩ := hsome hhoused hspec
  obtain ⟨y, hy⟩ := hsome ht htold
  have hsame : x = y := shape_handleCommand hrooted hfresh hx (heq ▸ hy)
  rw [rootIsWorkflow_eq hhoused hspec, rootIsWorkflow_eq ht htold, Bool.eq_iff_iff,
    workflow_isSome_iff, workflow_isSome_iff, hx, hy, hsame]

end SessionState

/-! ## What a session tells itself -/

/-- What the session is told by itself, at once or by a task it began. -/
def Sent.mailed? : Sent → Option SessionCommand
  | .self c | .later c _ => some c
  | _ => none

namespace Effect

def mail (e : Effect) : List SessionCommand := e.sent.filterMap Sent.mailed?

/-- Whether a message is queued for `agent`, to be acknowledged. -/
def queues (e : Effect) (agent : String) : Bool :=
  e.sent.any fun x =>
    match x with
    | .tell recipient (.queue (.enqueue _ true)) => recipient = agent
    | _ => false

end Effect

/-- A session, the creates it began that have not ended, and what it told itself and has not
handled. -/
structure Building where
  session : SessionState
  outstanding : List (String × ℕ)
  mail : List SessionCommand

/-- What can happen: a command of somebody else is handled, or one of its own, the create at an
index ends, or the process dies and the session is loaded. -/
inductive BuildEvent
  | handle (env : Env) (c : SessionCommand)
  | own (env : Env) (index : ℕ)
  | complete (env : Env) (index : ℕ) (error : Option String) (terminal : Bool)
  | die

/-- Whether a create fails on something retryable, or the process dies. -/
def BuildEvent.isSetback : BuildEvent → Bool
  | .complete _ _ error terminal => error.isSome && !terminal
  | .die => true
  | .handle _ _ | .own _ _ => false

namespace Building

section

variable (id : String) (newV5 : String → String → String)

def serve (x : Building) (env : Env) (c : SessionCommand) : Building :=
  let e := x.session.handleCommand (env.serving id newV5) c
  ⟨x.session.applyAll e.events, x.outstanding ++ e.creates, x.mail ++ e.mail⟩

def take (x : Building) (index : ℕ) : Building := { x with mail := x.mail.eraseIdx index }

def ended (x : Building) (index : ℕ) : Building :=
  { x with outstanding := x.outstanding.eraseIdx index }

/-- A process died, and the session tells itself its repairs as it is loaded. -/
def load (x : Building) : Building :=
  ⟨x.session, [], if x.session.spec.isSome then x.session.repairs else []⟩

inductive Step : Building → BuildEvent → Building → Prop
  | handle {x : Building} {env : Env} {c : SessionCommand} (hc : c.isCompletion = false)
      (hs : (nesting id newV5).Step x.session (env, c) (x.serve id newV5 env c).session) :
      Step x (.handle env c) (x.serve id newV5 env c)
  | own {x : Building} {env : Env} {index : ℕ} {c : SessionCommand} (hi : x.mail[index]? = some c)
      (hc : c.isCompletion = false)
      (hs : (nesting id newV5).Step x.session (env, c) (x.serve id newV5 env c).session) :
      Step x (.own env index) ((x.take index).serve id newV5 env c)
  | complete {x : Building} {env : Env} {index incarnation : ℕ} {runtime : String}
      {error : Option String} {terminal : Bool}
      (hi : x.outstanding[index]? = some (runtime, incarnation))
      (hs : (nesting id newV5).Step x.session
        (env, .lifecycle (.finishProvisioning runtime error terminal))
        (x.serve id newV5 env (.lifecycle (.finishProvisioning runtime error terminal))).session) :
      Step x (.complete env index error terminal) ((x.ended index).serve id newV5 env
        (.lifecycle (.finishProvisioning runtime error terminal)))
  | die {x : Building} : Step x .die x.load

/-- A session from its beginning: commands of others in any order, its own whenever they are
handled, creates that end in any order with any result, and processes that die. -/
def building : System Building BuildEvent where
  Init x := x = ⟨.empty, [], []⟩
  Step := Step id newV5

end

/-- Whether a step leaves nobody without a runtime that nobody builds: no sub session loses the one
it inherited from, nor its request with its actor; a create that fails, and not for good, is the
main agent's or nobody's; and a process dies where its load takes up all that is unfinished. -/
def careful (id : String) (x : Building) : BuildEvent → Bool
  | .handle _ c => !x.session.cuts c
  | .own env index => x.mail[index]?.all fun c => !x.session.cuts c && !x.session.strands env c
  | .complete _ index error terminal => error.isNone || terminal ||
    x.outstanding[index]?.all fun c => x.session.isOfMain id c.1 || x.session.abandoned c.1
  | .die => x.session.resumable id

/-- Whether `agent` runs nowhere, on a runtime that is ready, or on one a create of is
outstanding. -/
def Attended (x : Building) (agent : String) : Prop :=
  x.session.runtimeFor agent = .without ∨
    ∃ r record, x.session.runtimeFor agent = .on r record ∧
      ((∃ atMs, record.provisioning = .ready atMs) ∨ ∃ atMs, (r, atMs) ∈ x.outstanding)

/-! ## What keeps every runtime attended -/

/-- Whether handling `c` has a runtime built for `owner`. -/
def Asks (s : SessionState) (id owner : String) (c : SessionCommand) : Prop :=
  (∃ vendor, c = .lifecycle (.provision owner (some vendor))) ∨
    (owner = id ∧ c = .lifecycle (.provision owner none) ∧ (s.spec.bind (·.runtime)).isSome) ∨
      ∃ vendor, c = .subSession (.finishCreate owner (.own vendor) true)

/-- Whether a runtime is up, is being built or about to be, or is nobody's any more. If `patient`,
the main agent's may also have failed. -/
inductive Covered (id : String) (patient : Bool) (x : Building) (r : String)
    (record : RuntimeRecord) : Prop
  | ready (atMs : ℕ) (h : record.provisioning = .ready atMs)
  | outstanding (atMs : ℕ) (h : (r, atMs) ∈ x.outstanding)
  | mailed (vendor : Option String) (h : .lifecycle (.provision record.owner vendor) ∈ x.mail)
  | abandoned (h : x.session.forest.shape record.owner = none)
  | failed (hp : patient = true) (atMs : ℕ) (error : String)
      (h : record.provisioning = .failed atMs error) (hmain : x.session.isOfMain id r = true)

/-- Whoever awaits a runtime has asked for one, every runtime is covered, and whoever inherits a
runtime inherits it from somebody. -/
structure Tended (id : String) (x : Building) : Prop where
  asked : x.session.fatal = none → ∀ k, x.session.forest.choice k = some (some .pending) →
    ∃ c ∈ x.mail, Asks x.session id k c
  covered : x.session.fatal = none → ∀ r record, x.session.runtimes.lookup r = some record →
    x.Covered id true r record
  linked : x.session.Linked

variable {id : String} {newV5 : String → String → String} {x y : Building} {env : Env}
  {c : SessionCommand} {r k : String} {record : RuntimeRecord} {patient : Bool}

/-- What is known of every session that is reached. -/
structure Settled (id : String) (newV5 : String → String → String) (s : SessionState) : Prop where
  nested : s.Nested newV5
  hosts : s.Hosts newV5
  rooted : s.Rooted id
  housed : s.Housed id
  begun : ∀ r, s.provisioningOf r ≠ some .never

variable {s : SessionState}

theorem settled_of_reachable (hd : Derives newV5 id)
    (h : (nesting id newV5).Reachable s) : Settled id newV5 s where
  nested := SessionState.nested_of_reachable hd h
  hosts := (SessionState.stepAgents_of_reachable hd h.unrestrict).hosts
  rooted := SessionState.rooted_of_reachable hd.apart h.unrestrict
  housed := SessionState.housed_of_reachable hd.apart h.unrestrict
  begun := SessionState.begun_of_reachable h.unrestrict

theorem Settled.told (h : Settled id newV5 x.session)
    (hr : x.session.runtimes.lookup r = some record) : x.session.spec.isSome := by
  by_contra hnot
  have hnone := h.housed.untold (Option.not_isSome_iff_eq_none.mp hnot) r
  unfold SessionState.ownerOf at hnone
  rw [hr] at hnone
  cases hnone

theorem ownerOf_of_lookup (hr : s.runtimes.lookup r = some record) :
    s.ownerOf r = some record.owner := by
  unfold SessionState.ownerOf
  rw [hr]
  rfl

theorem isOfMain_congr {t : SessionState} (howner : t.ownerOf r = s.ownerOf r)
    (hroot : t.forest.rootIsWorkflow = s.forest.rootIsWorkflow) :
    t.isOfMain id r = s.isOfMain id r := by
  unfold SessionState.isOfMain
  rw [howner, hroot]

/-- A runtime that is covered, the command at hand counted in, is covered once that is handled. -/
theorem Covered.serve (hx : Settled id newV5 x.session) (hd : Derives newV5 id)
    (hreach : (nesting id newV5).Reachable x.session)
    (hs : (nesting id newV5).Step x.session (env, c) (x.serve id newV5 env c).session)
    (hc : c.isCompletion = false) (hfatal : (x.serve id newV5 env c).session.fatal = none)
    (hr : (x.serve id newV5 env c).session.runtimes.lookup r = some record)
    (h : x.session.runtimes.lookup r = some record →
      Covered id patient ⟨x.session, x.outstanding, c :: x.mail⟩ r record) :
    Covered id patient (x.serve id newV5 env c) r record := by
  have hy := settled_of_reachable hd (hreach.step hs)
  obtain ⟨⟨hunused, -⟩, -⟩ := hs
  have hold : x.session.fatal = none := SessionState.fatal_applyAll hfatal
  -- the record is as it was, and no create of it was begun
  have hkept (hr' : x.session.runtimes.lookup r = some record)
      (hmail : ∀ vendor, c = .lifecycle (.provision record.owner vendor) →
        ∃ atMs, record.provisioning = .ready atMs) :
      Covered id patient (x.serve id newV5 env c) r record := by
    have htold := hx.told hr'
    cases h hr' with
    | ready atMs h => exact .ready atMs h
    | outstanding atMs h => exact .outstanding atMs (List.mem_append_left _ h)
    | mailed vendor h =>
      rcases List.mem_cons.mp h with rfl | h
      · obtain ⟨atMs, hready⟩ := hmail vendor rfl
        exact .ready atMs hready
      · exact .mailed vendor (List.mem_append_left _ h)
    | abandoned h =>
      have hne : record.owner ≠ env.fresh := hunused.owner r record hr'
      exact .abandoned (SessionState.shape_handleCommand_none htold h hne)
    | failed hp atMs error h hmain =>
      refine .failed hp atMs error h ?_
      rw [← hmain]
      have howner := (ownerOf_of_lookup hr).trans (ownerOf_of_lookup hr').symm
      exact isOfMain_congr howner (@SessionState.rootIsWorkflow_handleCommand x.session _
        (env.serving id newV5) c hx.rooted hx.housed hy.housed htold hunused.entry rfl)
  rcases @SessionState.runtimes_handleCommand x.session (env.serving id newV5) c with
    ⟨hsame, hcreates⟩ | ⟨owner, vendor, runtime, built, requested, rfl, hp, hsame, hcreates⟩ |
    ⟨runtime, error, terminal, rfl, -⟩
  · have hr' : x.session.runtimes.lookup r = some record := by
      rw [← hsame]
      exact hr
    refine hkept hr' fun vendor hcmd => ?_
    subst hcmd
    rcases SessionState.handleCommand_provision_cases (hx.told hr') record.owner vendor with
      ⟨hnone, -⟩ | ⟨runtime, built, requested, -, heq⟩
    · exact SessionState.ready_of_not_provisions hx.housed hold hr' hnone
    · rw [heq] at hcreates
      exact absurd hcreates (by simp [Effect.creates, Sent.create?])
  · by_cases hruntime : r = runtime
    · subst hruntime
      refine .outstanding env.now (List.mem_append_right _ ?_)
      rw [hcreates]
      exact List.mem_singleton_self _
    · have hr' : x.session.runtimes.lookup r = some record := by
        rw [← SessionState.lookup_started hruntime, ← hsame]
        exact hr
      refine hkept hr' fun vendor' hcmd => ?_
      -- the owner has this runtime and no other
      cases hcmd
      exfalso
      have howner := ownerOf_of_lookup hr'
      rcases (SessionState.provisioningOf_of_provisions hunused.runtime hp).2.1 with
        ⟨-, hown⟩ | ⟨rfl, -⟩
      · exact hruntime (hx.housed.unique r runtime _ howner hown)
      · exact (SessionState.not_owned_of_provisions hp).2 r howner
  · exact absurd hc (by simp [SessionCommand.isCompletion])

theorem mem_mail {e : Effect} (h : .self c ∈ e.sent ∨ ∃ written, .later c written ∈ e.sent) :
    c ∈ e.mail := by
  rcases h with h | ⟨written, h⟩
  · exact List.mem_filterMap.mpr ⟨_, h, rfl⟩
  · exact List.mem_filterMap.mpr ⟨_, h, rfl⟩

theorem mem_mail_finishCreate {vendor : String} (hspec : s.spec.isSome)
    (h : env.spawns k = true) : .lifecycle (.provision k (some vendor)) ∈
      (s.handleCommand env (.subSession (.finishCreate k (.own vendor) true))).mail := by
  apply mem_mail
  left
  rw [SessionState.handleCommand_of_told hspec]
  show _ ∈ (s.handleSubSession env _).sent
  unfold SessionState.handleSubSession
  dsimp only
  rw [if_neg (by decide), if_neg (by simp [h])]
  exact List.mem_append_left _ (List.mem_append_right _ (List.mem_singleton_self _))

theorem mem_mail_create {parent message title vendor : String} {seed : SeedMode}
    (hspec : s.spec.isSome) (hbranch : s.branchable env.id parent message = none)
    (hevents : (s.handleCommand env
      (.subSession (.create parent seed message title (.own vendor)))).events ≠ []) :
    .subSession (.finishCreate env.fresh (.own vendor) true) ∈ (s.handleCommand env
      (.subSession (.create parent seed message title (.own vendor)))).mail := by
  apply mem_mail
  right
  rw [SessionState.handleCommand_of_told hspec] at hevents ⊢
  change (s.handleSubSession env _).events ≠ [] at hevents
  show ∃ written, _ ∈ (s.handleSubSession env _).sent
  unfold SessionState.handleSubSession at hevents ⊢
  dsimp only at hevents ⊢
  rw [hbranch] at hevents ⊢
  cases hhead : env.logHead parent with
  | none =>
    rw [hhead] at hevents
    exact absurd rfl hevents
  | some sourceSeq => exact ⟨true, List.mem_singleton_self _⟩

theorem mem_mail_told {spec : SessionSpec} {name : Option String}
    {message : Option (String × List ArtifactRef)} (hspec : s.spec = none) :
    .lifecycle (.provision env.id none) ∈
      (s.handleCommand env (.core (.create spec name message))).mail := by
  apply mem_mail
  left
  unfold SessionState.handleCommand
  rw [hspec]
  show _ ∈ (s.handleCore env (.create spec name message)).sent
  unfold SessionState.handleCore
  rw [hspec]
  exact List.mem_append_left _ (List.mem_append_left _ (List.mem_singleton_self _))

/-- Whoever awaits a runtime once a command is handled has asked for it: earlier, or by that. -/
theorem asked_serve (hx : Settled id newV5 x.session)
    (hunused : x.session.Unused newV5 env.fresh)
    (hfatal : (x.serve id newV5 env c).session.fatal = none)
    (hk : (x.serve id newV5 env c).session.forest.choice k = some (some .pending))
    (h : x.session.forest.choice k = some (some .pending) →
      (∃ c' ∈ x.mail, Asks x.session id k c') ∨
        Asks x.session id k c ∧ x.session.strands env c = false) :
    ∃ c' ∈ (x.serve id newV5 env c).mail, Asks (x.serve id newV5 env c).session id k c' := by
  have hold : x.session.fatal = none := SessionState.fatal_applyAll hfatal
  cases hspec : x.session.spec with
  | none =>
    obtain ⟨rfl, spec, name, message, rfl, hruntime, hspec'⟩ :=
      @SessionState.pending_of_untold x.session (env.serving id newV5) c k hx.rooted hspec hk
    refine ⟨_, List.mem_append_right _ (mem_mail_told hspec), .inr (.inl ⟨rfl, rfl, ?_⟩)⟩
    show ((x.session.applyAll _).spec.bind _).isSome = true
    rw [hspec']
    exact hruntime
  | some spec =>
    have htold : x.session.spec.isSome := hspec ▸ rfl
    have hsame : (x.serve id newV5 env c).session.spec = x.session.spec :=
      SessionState.spec_handleCommand htold
    rcases @SessionState.pending_of_handled x.session (env.serving id newV5) c k htold hk with
      hbefore | ⟨rfl, parent, seed, message, title, vendor, rfl, hbranch⟩
    · rcases h hbefore with ⟨c', hmem, hasks⟩ | ⟨hasks, hstrands⟩
      · refine ⟨c', List.mem_append_left _ hmem, ?_⟩
        unfold Asks
        rw [hsame]
        exact hasks
      · rcases hasks with ⟨vendor, rfl⟩ | ⟨hid, rfl, hruntime⟩ | ⟨vendor, rfl⟩
        · exact absurd hk (@SessionState.not_pending_of_provision x.session
            (env.serving id newV5) id k (some vendor) hx.housed htold hold hbefore (.inl rfl))
        · exact absurd hk (@SessionState.not_pending_of_provision x.session
            (env.serving id newV5) id k none hx.housed htold hold hbefore (.inr ⟨hid, hruntime⟩))
        · have hspawns : env.spawns k = true := by
            by_contra hnot
            unfold SessionState.strands at hstrands
            simp [hnot, hbefore] at hstrands
          exact ⟨_, List.mem_append_right _ (@mem_mail_finishCreate (env.serving id newV5) k _
            vendor htold hspawns), .inl ⟨vendor, rfl⟩⟩
    · refine ⟨_, List.mem_append_right _ (@mem_mail_create (env.serving id newV5) x.session parent
        message title vendor seed htold hbranch fun hnone => ?_), .inr (.inr ⟨vendor, rfl⟩)⟩
      have hafter : (x.session.applyAll (x.session.handleCommand (env.serving id newV5)
          (.subSession (.create parent seed message title (.own vendor)))).events).forest.choice
            env.fresh = some (some .pending) := hk
      rw [hnone] at hafter
      have hno : x.session.forest.choice env.fresh = none := by
        unfold RunForest.choice
        rw [hunused.entry]
        rfl
      exact absurd (hno.symm.trans hafter) (by simp)

/-! ### The steps -/

theorem Covered.mono (h : Covered id patient x r record) (hsession : y.session = x.session)
    (ho : ∀ c ∈ x.outstanding, c ∈ y.outstanding) (hm : ∀ c ∈ x.mail, c ∈ y.mail) :
    Covered id patient y r record := by
  cases h with
  | ready atMs h => exact .ready atMs h
  | outstanding atMs h => exact .outstanding atMs (ho _ h)
  | mailed vendor h => exact .mailed vendor (hm _ h)
  | abandoned h => exact .abandoned (hsession ▸ h)
  | failed hp atMs error h hmain => exact .failed hp atMs error h (hsession ▸ hmain)

theorem Tended.served (hd : Derives newV5 id)
    (hreach : (nesting id newV5).Reachable x.session)
    (hs : (nesting id newV5).Step x.session (env, c) (x.serve id newV5 env c).session)
    (hc : c.isCompletion = false) (hcut : x.session.cuts c = false)
    (hasked : x.session.fatal = none → ∀ k, x.session.forest.choice k = some (some .pending) →
      (∃ c' ∈ x.mail, Asks x.session id k c') ∨
        Asks x.session id k c ∧ x.session.strands env c = false)
    (hcovered : x.session.fatal = none → ∀ r record, x.session.runtimes.lookup r = some record →
      Covered id true ⟨x.session, x.outstanding, c :: x.mail⟩ r record)
    (hlinked : x.session.Linked) : Tended id (x.serve id newV5 env c) := by
  have hx := settled_of_reachable hd hreach
  have hunused := hs.1.1
  constructor
  · intro hfatal k hk
    exact asked_serve hx hunused hfatal hk (hasked (SessionState.fatal_applyAll hfatal) k)
  · intro hfatal r record hr
    exact Covered.serve hx hd hreach hs hc hfatal hr
      (hcovered (SessionState.fatal_applyAll hfatal) r record)
  · exact @SessionState.Linked.handleCommand x.session (env.serving id newV5) c hlinked hx.nested
      hx.hosts hx.rooted hx.housed hcut

theorem Tended.handle (h : Tended id x) (hd : Derives newV5 id)
    (hreach : (nesting id newV5).Reachable x.session)
    (hs : (nesting id newV5).Step x.session (env, c) (x.serve id newV5 env c).session)
    (hc : c.isCompletion = false) (hcut : x.session.cuts c = false) :
    Tended id (x.serve id newV5 env c) := by
  refine Tended.served hd hreach hs hc hcut (fun hfatal k hk => .inl (h.asked hfatal k hk)) ?_
    h.linked
  intro hfatal r record hr
  exact (h.covered hfatal r record hr).mono rfl (fun _ hd => hd) fun _ hm =>
    List.mem_cons_of_mem _ hm

variable {index : ℕ}

theorem Covered.taken (h : Covered id patient x r record)
    (hi : x.mail[index]? = some c) :
    Covered id patient ⟨x.session, x.outstanding, c :: (x.take index).mail⟩ r record :=
  h.mono rfl (fun _ hd => hd) fun _ hm => List.mem_cons.mpr (eq_or_mem_eraseIdx hi hm)

theorem Tended.own (h : Tended id x) (hd : Derives newV5 id)
    (hreach : (nesting id newV5).Reachable x.session) (hi : x.mail[index]? = some c)
    (hs : (nesting id newV5).Step x.session (env, c) (x.serve id newV5 env c).session)
    (hc : c.isCompletion = false) (hcut : x.session.cuts c = false)
    (hstrands : x.session.strands env c = false) :
    Tended id ((x.take index).serve id newV5 env c) := by
  refine @Tended.served id newV5 (x.take index) env c hd hreach hs hc hcut ?_ ?_ h.linked
  · intro hfatal k hk
    obtain ⟨c', hmem, hasks⟩ := h.asked hfatal k hk
    rcases eq_or_mem_eraseIdx hi hmem with rfl | hmem
    · exact .inr ⟨hasks, hstrands⟩
    · exact .inl ⟨c', hmem, hasks⟩
  · exact fun hfatal r record hr => (h.covered hfatal r record hr).taken hi

variable {runtime : String} {error : Option String} {terminal : Bool}

theorem lookup_finishing : (s.applyEvent (.finishing runtime error terminal)).runtimes.lookup r =
      if r = runtime then (s.runtimes.lookup r).map fun x =>
        { x with provisioning := SessionState.settled error x.provisioning }
      else s.runtimes.lookup r := by
  cases error with
  | none => exact Map.lookup_adjust
  | some error =>
    refine Eq.trans ?_ (Map.lookup_adjust (f := fun x : RuntimeRecord =>
      { x with provisioning := SessionState.settled (some error) x.provisioning }))
    cases terminal <;> rfl

theorem lookup_finished (hspec : s.spec.isSome) : (s.applyAll (s.handleCommand env
      (.lifecycle (.finishProvisioning runtime error terminal))).events).runtimes.lookup r =
        if r = runtime then (s.runtimes.lookup r).map fun x =>
          { x with provisioning := SessionState.settled error x.provisioning }
        else s.runtimes.lookup r := by
  rw [SessionState.handleCommand_of_told hspec]
  have hruntimes : (s.applyAll (s.handle env
      (.lifecycle (.finishProvisioning runtime error terminal))).events).runtimes =
        (s.applyEvent (.finishing runtime error terminal)).runtimes :=
    SessionState.runtimes_applyAll_flush [.finishing runtime error terminal]
  rw [hruntimes, lookup_finishing]

theorem told_of_finished (hs : Settled id newV5 s) (hr : (s.applyAll (s.handleCommand env
      (.lifecycle (.finishProvisioning runtime error terminal))).events).runtimes.lookup r =
        some record) : s.spec.isSome := by
  cases hspec : s.spec with
  | some spec => rfl
  | none =>
    have hevents : (s.handleCommand env
        (.lifecycle (.finishProvisioning runtime error terminal))).events = [] := by
      unfold SessionState.handleCommand
      rw [hspec]
      rfl
    rw [hevents] at hr
    have htold : s.spec.isSome := @Settled.told id newV5 ⟨s, [], []⟩ r record hs hr
    rw [hspec] at htold
    cases htold

theorem fatal_finishing {error : String} (hspec : s.spec.isSome) :
    (s.applyAll (s.handleCommand env
      (.lifecycle (.finishProvisioning runtime (some error) true))).events).fatal ≠ none := by
  rw [SessionState.handleCommand_of_told hspec]
  intro hfatal
  have hfirst : ((s.applyEvent (.provisioningFailed runtime error true)).applyAll
      ((s.applyEvent (.provisioningFailed runtime error true)).flushThenDrain env).events).fatal =
        none := hfatal
  exact absurd (SessionState.fatal_applyAll hfirst) (by simp [SessionState.applyEvent])

theorem abandoned_iff (hr : s.runtimes.lookup r = some record) :
    s.abandoned r = true ↔ s.forest.shape record.owner = none := by
  unfold SessionState.abandoned RunForest.shape
  rw [ownerOf_of_lookup hr]
  show (s.forest.entry record.owner).isNone = true ↔ _
  rw [Option.isNone_iff_eq_none, Option.map_eq_none_iff]

/-- A runtime that is covered is covered once a create has ended that succeeded, was the last, or
was of a runtime that may have failed. -/
theorem Covered.complete {incarnation : ℕ} (hd : Derives newV5 id)
    (hreach : (nesting id newV5).Reachable x.session)
    (hi : x.outstanding[index]? = some (runtime, incarnation))
    (hs : (nesting id newV5).Step x.session
      (env, .lifecycle (.finishProvisioning runtime error terminal))
      (x.serve id newV5 env (.lifecycle (.finishProvisioning runtime error terminal))).session)
    (hcare : error = none ∨ terminal = true ∨
      (patient = true ∧ x.session.isOfMain id runtime = true) ∨
        x.session.abandoned runtime = true)
    (hfatal : ((x.ended index).serve id newV5 env
      (.lifecycle (.finishProvisioning runtime error terminal))).session.fatal = none)
    (hr : ((x.ended index).serve id newV5 env
      (.lifecycle (.finishProvisioning runtime error terminal))).session.runtimes.lookup r =
        some record)
    (h : x.session.runtimes.lookup r = some record → Covered id patient x r record) :
    Covered id patient ((x.ended index).serve id newV5 env
      (.lifecycle (.finishProvisioning runtime error terminal))) r record := by
  have hx := settled_of_reachable hd hreach
  have hy := settled_of_reachable hd (hreach.step hs)
  have hunused := hs.1.1
  have htold := @told_of_finished id newV5 (env.serving id newV5) r record x.session runtime error
    terminal hx hr
  have hroot := @SessionState.rootIsWorkflow_handleCommand x.session _
    (env.serving id newV5) (.lifecycle (.finishProvisioning runtime error terminal))
    hx.rooted hx.housed hy.housed htold hunused.entry rfl
  have hlookup := (@lookup_finished (env.serving id newV5) r x.session runtime error terminal
    htold).symm.trans hr
  have hgone {old : RuntimeRecord} (hr' : x.session.runtimes.lookup r = some old)
      (h : x.session.forest.shape old.owner = none) :=
    @SessionState.shape_handleCommand_none x.session (env.serving id newV5)
      (.lifecycle (.finishProvisioning runtime error terminal)) old.owner htold h
      (hunused.owner r old hr')
  have hmain {old : RuntimeRecord} (hr' : x.session.runtimes.lookup r = some old)
      (howner : old.owner = record.owner) (h : x.session.isOfMain id r = true) :
      ((x.ended index).serve id newV5 env
        (.lifecycle (.finishProvisioning runtime error terminal))).session.isOfMain id r =
          true := by
    rw [← h]
    refine isOfMain_congr ?_ hroot
    rw [ownerOf_of_lookup hr', howner]
    exact ownerOf_of_lookup hr
  split_ifs at hlookup with hruntime
  · subst hruntime
    obtain ⟨old, hr', rfl⟩ := Option.map_eq_some_iff.mp hlookup
    cases error with
    | none => exact .ready _ rfl
    | some error =>
      rcases hcare with hcare | rfl | ⟨hpatient, hcare⟩ | hcare
      · cases hcare
      · exact absurd hfatal (fatal_finishing htold)
      · exact .failed hpatient _ error rfl (hmain hr' rfl hcare)
      · exact .abandoned (@hgone old hr' ((abandoned_iff hr').mp hcare))
  · cases h hlookup with
    | ready atMs h => exact .ready atMs h
    | outstanding atMs h =>
      refine .outstanding atMs (List.mem_append_left _ ?_)
      rcases eq_or_mem_eraseIdx hi h with heq | h
      · exact absurd (Prod.mk.inj heq).1 hruntime
      · exact h
    | mailed vendor h => exact .mailed vendor (List.mem_append_left _ h)
    | abandoned h => exact .abandoned (hgone hlookup h)
    | failed hp atMs error h hof => exact .failed hp atMs error h (hmain hlookup rfl hof)

theorem Tended.complete {incarnation : ℕ} (h : Tended id x) (hd : Derives newV5 id)
    (hreach : (nesting id newV5).Reachable x.session)
    (hi : x.outstanding[index]? = some (runtime, incarnation))
    (hs : (nesting id newV5).Step x.session
      (env, .lifecycle (.finishProvisioning runtime error terminal))
      (x.serve id newV5 env (.lifecycle (.finishProvisioning runtime error terminal))).session)
    (hcare : error = none ∨ terminal = true ∨ x.session.isOfMain id runtime = true ∨
      x.session.abandoned runtime = true) :
    Tended id ((x.ended index).serve id newV5 env
      (.lifecycle (.finishProvisioning runtime error terminal))) := by
  have hx := settled_of_reachable hd hreach
  constructor
  · intro hfatal k hk
    exact asked_serve (x := x.ended index) hx hs.1.1 hfatal hk fun hbefore =>
      .inl (h.asked (SessionState.fatal_applyAll hfatal) k hbefore)
  · intro hfatal r record hr
    exact Covered.complete hd hreach hi hs
      (hcare.imp_right fun h => h.imp_right fun h => h.imp_left fun hmain => ⟨rfl, hmain⟩) hfatal hr
      (h.covered (SessionState.fatal_applyAll hfatal) r record)
  · exact @SessionState.Linked.handleCommand x.session (env.serving id newV5) _ h.linked hx.nested
      hx.hosts hx.rooted hx.housed rfl

theorem Tended.load (h : Tended id x) (hx : Settled id newV5 x.session)
    (hcare : x.session.resumable id = true) : Tended id x.load := by
  have hall (hfatal : x.session.fatal = none) :
      (∀ e ∈ x.session.forest.entries.toPairs, e.2.state.decides ≠ some .pending) ∧
        ∀ y ∈ x.session.runtimes.toPairs, y.2.provisioning.isUnfinished = false ∨
          (x.session.runtimes.toPairs.find? (·.2.provisioning.isUnfinished)).any
            (·.1 = y.1) = true ∨
            (y.2.provisioning.isInFlight = false ∧ x.session.isOfMain id y.1 = true) ∨
              x.session.abandoned y.1 = true := by
    unfold SessionState.resumable at hcare
    rw [hfatal] at hcare
    simpa [or_assoc] using hcare
  refine ⟨fun hfatal k hk => ?_, fun hfatal r record hr => ?_, h.linked⟩
  · obtain ⟨e, he, hd⟩ := Option.map_eq_some_iff.mp hk
    exact absurd hd ((hall hfatal).1 (k, e) (Map.mem_toPairs.mpr he))
  · change x.session.fatal = none at hfatal
    change x.session.runtimes.lookup r = some record at hr
    have hmail : x.load.mail = x.session.repairs := if_pos (hx.told hr)
    have hbegun : record.provisioning ≠ .never := by
      intro hnever
      refine absurd ?_ (hx.begun r)
      unfold SessionState.provisioningOf
      rw [hr]
      exact congrArg some hnever
    rcases (hall hfatal).2 (r, record) (Map.mem_toPairs.mpr hr) with hun | hfirst | ⟨hfl, hmain⟩ |
      hab
    · cases hp : record.provisioning with
      | ready atMs => exact .ready atMs hp
      | never => exact absurd hp hbegun
      | inFlight | failed =>
        rw [hp] at hun
        exact absurd hun (by simp [ProvisioningState.isUnfinished])
    · obtain ⟨⟨r', record'⟩, hfind, hr'⟩ := (Option.any_eq_true _ _).mp hfirst
      obtain rfl : r' = r := of_decide_eq_true hr'
      have hsame := Map.mem_toPairs.mp (List.mem_of_find?_eq_some hfind)
      obtain rfl := Option.some.inj (hsame.symm.trans hr)
      refine .mailed none ?_
      rw [hmail]
      have hrepair : x.session.repairLifecycle =
          some (.lifecycle (.provision record'.owner none)) := by
        rw [SessionState.repairLifecycle_eq, hfind, if_neg (by rw [hfatal]; decide)]
        rfl
      unfold SessionState.repairs
      rw [hrepair]
      exact List.mem_append_left _ (List.mem_append_left _ (List.mem_append_left _
        (List.mem_singleton_self _)))
    · cases hp : record.provisioning with
      | ready atMs => exact .ready atMs hp
      | failed atMs error => exact .failed rfl atMs error hp hmain
      | inFlight =>
        rw [hp] at hfl
        exact absurd hfl (by simp [ProvisioningState.isInFlight])
      | never => exact absurd hp hbegun
    · exact .abandoned ((abandoned_iff hr).mp hab)

/-! ### Runs -/

variable {l : BuildEvent}

theorem session_step (h : Step id newV5 x l y) :
    (∃ l', (nesting id newV5).Step x.session l' y.session) ∨ y.session = x.session := by
  cases h with
  | handle hc hs => exact .inl ⟨_, hs⟩
  | own hi hc hs => exact .inl ⟨_, hs⟩
  | complete hi hs => exact .inl ⟨_, hs⟩
  | die => exact .inr rfl

theorem nesting_of_building (h : (building id newV5).Reachable x) :
    (nesting id newV5).Reachable x.session := by
  refine h.invariant (I := fun x => (nesting id newV5).Reachable x.session) ?_ ?_
  · rintro x rfl
    exact .init rfl
  · rintro x l y - hx hstep
    rcases session_step hstep with ⟨l', hs⟩ | hsame
    · exact hx.step hs
    · exact hsame ▸ hx

theorem Tended.step (h : Tended id x) (hd : Derives newV5 id)
    (hreach : (nesting id newV5).Reachable x.session) (hcare : x.careful id l = true)
    (hstep : Step id newV5 x l y) : Tended id y := by
  cases hstep with
  | handle hc hs => exact h.handle hd hreach hs hc ((Bool.not_eq_true' _).mp hcare)
  | own hi hc hs =>
    unfold careful at hcare
    dsimp only at hcare
    rw [hi] at hcare
    obtain ⟨hcut, hstrands⟩ := Bool.and_eq_true_iff.mp hcare
    exact h.own hd hreach hi hs hc ((Bool.not_eq_true' _).mp hcut)
      ((Bool.not_eq_true' _).mp hstrands)
  | complete hi hs =>
    refine h.complete hd hreach hi hs ?_
    unfold careful at hcare
    dsimp only at hcare
    rw [hi] at hcare
    simpa [or_assoc] using hcare
  | die => exact h.load (settled_of_reachable hd hreach) hcare

theorem tended_init : Tended id ⟨.empty, [], []⟩ where
  asked _ k hk := absurd hk (by simp [RunForest.choice, RunForest.entry, SessionState.empty,
    RunForest.empty])
  covered _ r record hr := absurd hr (by simp [SessionState.empty])
  linked k p hk := absurd hk (by simp [RunForest.shape, RunForest.entry, SessionState.empty,
    RunForest.empty])

theorem tended_of_exec (hd : Derives newV5 id) (hx : (building id newV5).Reachable x)
    (hx' : Tended id x) {tr : List (Building × BuildEvent × Building)}
    (h : (building id newV5).Exec x tr y) (hcare : ∀ z ∈ tr, z.1.careful id z.2.1 = true) :
    Tended id y :=
  h.guarded (G := fun x l => x.careful id l = true)
    (fun _ _ _ hx ht hcare hstep => ht.step hd (nesting_of_building hx) hcare hstep) hx hx' hcare

/-! ## A message -/

theorem runtimeOfChoice_on (hr : s.runtimes.lookup r = some record) :
    s.runtimeOfChoice (.on r) = .on r record := by
  simp only [SessionState.runtimeOfChoice, hr]

theorem runtimeFor_of_isOfMain (hx : Settled id newV5 x.session)
    (hr : x.session.runtimes.lookup r = some record) (h : x.session.isOfMain id r = true) :
    x.session.runtimeFor id = .on r record := by
  obtain ⟨howner, hroot⟩ := Bool.and_eq_true_iff.mp h
  have htold := hx.told hr
  obtain ⟨hseat, choice, hchoice⟩ := hx.housed.seated htold
  obtain rfl := hx.housed.owned r id choice (of_decide_eq_true howner) hchoice
  have hmain : x.session.forest.shape id = some (none, .main) := by
    rcases hx.rooted.root id hseat with hmain | hrun
    · exact hmain
    · rw [SessionState.rootIsWorkflow_eq hx.housed htold,
        SessionState.workflow_isSome_iff.mpr ⟨none, hrun⟩] at hroot
      cases hroot
  obtain ⟨e, he, hdecides⟩ := Option.map_eq_some_iff.mp hchoice
  have hnearest : x.session.forest.Nearest id (.on r) := by
    refine ⟨0, id, .refl id, ?_⟩
    unfold RunForest.chosen RunForest.ownerOfAgent
    rw [(hx.rooted.main id none hmain).2, Option.bind_some, he]
    exact congrArg some hdecides
  unfold SessionState.runtimeFor
  rw [RunForest.runtimeOfAgent_of_nearest hx.nested.ends hnearest, runtimeOfChoice_on hr]

variable {agent : String}

/-- A message that is queued has a failed runtime of the main agent created again. -/
theorem mem_mail_of_queues {selector : Option String} {text : String}
    {artifacts : List ArtifactRef} {error : String} {atMs : ℕ}
    (hq : (s.handleCommand env (.turn (.userMessage selector text artifacts))).queues agent = true)
    (hr : s.runtimeFor env.id = .on r record) (hf : record.provisioning = .failed atMs error) :
    .lifecycle (.provision env.id none) ∈
      (s.handleCommand env (.turn (.userMessage selector text artifacts))).mail := by
  cases hspec : s.spec with
  | none =>
    unfold SessionState.handleCommand at hq
    rw [hspec] at hq
    cases hq
  | some spec =>
    rw [SessionState.handleCommand_of_told (hspec ▸ rfl)] at hq ⊢
    change (s.onUserMessage env selector text artifacts).queues agent = true at hq
    show _ ∈ (s.onUserMessage env selector text artifacts).mail
    unfold SessionState.onUserMessage at hq ⊢
    split at hq
    · cases hq
    split_ifs at hq with hworkflow
    · cases hq
    rw [if_neg hworkflow]
    split at hq
    · cases hq
    rename_i key hkey
    split at hq
    · cases hq
    · apply mem_mail
      left
      obtain ⟨vendor, owner, provisioning⟩ := record
      obtain rfl : provisioning = .failed atMs error := hf
      rw [hr]
      exact List.mem_append_left _ (List.mem_append_right _ (List.mem_singleton_self _))

/-- Whether the main agent's runtime has not just failed. -/
def Urged (id : String) (x : Building) : Prop :=
  x.session.fatal = none → ∀ r record, x.session.runtimes.lookup r = some record →
    record.owner = id → Covered id false x r record

/-- After a message that is queued, a runtime of the main agent that failed is created again. -/
theorem urged_of_queues (hd : Derives newV5 id) (hreach : (nesting id newV5).Reachable x.session)
    (ht : Tended id x) {selector : Option String} {text : String}
    {artifacts : List ArtifactRef}
    (hs : (nesting id newV5).Step x.session (env, .turn (.userMessage selector text artifacts))
      (x.serve id newV5 env (.turn (.userMessage selector text artifacts))).session)
    (hq : (x.session.handleCommand (env.serving id newV5)
      (.turn (.userMessage selector text artifacts))).queues agent = true) :
    Urged id (x.serve id newV5 env (.turn (.userMessage selector text artifacts))) := by
  intro hfatal r record hr howner
  have hx := settled_of_reachable hd hreach
  have hold : x.session.fatal = none := SessionState.fatal_applyAll hfatal
  have hr' : x.session.runtimes.lookup r = some record := by
    rcases @SessionState.runtimes_handleCommand x.session (env.serving id newV5)
      (.turn (.userMessage selector text artifacts)) with ⟨hsame, -⟩ | ⟨_, _, _, _, _, hc, -⟩ |
      ⟨_, _, _, hc, -⟩
    · rw [← hsame]
      exact hr
    · cases hc
    · cases hc
  cases ht.covered hold r record hr' with
  | failed hp atMs error hf hmain =>
    refine .mailed none (List.mem_append_right _ ?_)
    rw [howner]
    exact @mem_mail_of_queues (env.serving id newV5) r record x.session agent selector text
      artifacts error atMs hq (runtimeFor_of_isOfMain hx hr' hmain) hf
  | ready atMs h => exact .ready atMs h
  | outstanding atMs h => exact .outstanding atMs (List.mem_append_left _ h)
  | mailed vendor h => exact .mailed vendor (List.mem_append_left _ h)
  | abandoned h =>
    exact .abandoned (@SessionState.shape_handleCommand_none x.session (env.serving id newV5)
      (.turn (.userMessage selector text artifacts)) record.owner (hx.told hr') h
      (hs.1.1.owner r record hr'))

/-- Nothing but a setback undoes that. -/
theorem Urged.step (h : Urged id x) (hd : Derives newV5 id)
    (hreach : (nesting id newV5).Reachable x.session) (hl : l.isSetback = false)
    (hstep : Step id newV5 x l y) : Urged id y := by
  cases hstep with
  | handle hc hs =>
    intro hfatal r record hr howner
    refine Covered.serve (settled_of_reachable hd hreach) hd hreach hs hc hfatal hr fun hr' => ?_
    exact (h (SessionState.fatal_applyAll hfatal) r record hr' howner).mono rfl (fun _ hd => hd)
      fun _ hm => List.mem_cons_of_mem _ hm
  | @own env index c hi hc hs =>
    intro hfatal r record hr howner
    refine @Covered.serve id newV5 (x.take index) env c r record false
      (settled_of_reachable hd hreach) hd hreach hs hc hfatal hr fun hr' => ?_
    exact (h (SessionState.fatal_applyAll hfatal) r record hr' howner).taken hi
  | @complete env index incarnation runtime error terminal hi hs =>
    intro hfatal r record hr howner
    refine Covered.complete hd hreach hi hs ?_ hfatal hr fun hr' =>
      h (SessionState.fatal_applyAll hfatal) r record hr' howner
    cases error with
    | none => exact .inl rfl
    | some error => exact .inr (.inl ((Bool.not_eq_false' _).mp hl))
  | die => cases hl

theorem known_of_climbs {a b : String} {n : ℕ} (hn : s.Nested newV5)
    (hl : s.Linked) (hc : Climbs s.forest.inheritsFrom n a b)
    (ha : s.forest.isKnownAgent a = true) : s.forest.isKnownAgent b = true := by
  induction hc with
  | refl a => exact ha
  | @step m a p b hlink hrest ih =>
    apply ih
    obtain ⟨k, e, howner, hnone, hp⟩ := RunForest.inheritsFrom_eq_some.mp hlink
    obtain ⟨-, he⟩ := RunForest.ownerOfAgent_eq_some.mp howner
    have hshape : s.forest.shape k = some (some p, e.state.kind) := by
      rw [RunForest.shape, he, Option.map_some, hp]
    by_cases hkind : e.state.kind = .subSession
    · rw [hkind] at hshape
      have hchoice : s.forest.choice k = some none := by
        rw [RunForest.choice, he, Option.map_some, hnone]
      have hthere := hl k p hshape hchoice
      obtain ⟨-, ⟨-, hgone⟩ | ⟨q, kind, hq, hsession⟩⟩ := hn.branched k p hshape
      · exact absurd hgone hthere
      · have hwork : kind ≠ .workflow := by
          rcases hsession with rfl | rfl <;> exact RunKind.noConfusion
        show (s.forest.agents.lookup p).isSome = true
        rw [hn.own p q kind hq hwork]
        rfl
    · exact hn.delegated k p e.state.kind hshape hkind

/-- An agent that is there has its runtime from whoever decided, next to it or above. -/
theorem nearest_of_known (hs : Settled id newV5 s)
    (hl : s.Linked) (h : s.forest.isKnownAgent agent = true) : ∃ c k,
      s.forest.runtimeOfAgent agent = c ∧ s.forest.choice k = some (some c) := by
  rcases hs.nested.nearest_or_adrift hs.rooted hs.housed agent with ⟨c, hc⟩ | ⟨n, b, hclimb, hb⟩
  · refine ⟨c, ?_⟩
    have hresolves := RunForest.runtimeOfAgent_of_nearest hs.nested.ends hc
    obtain ⟨n, b, -, hb⟩ := hc
    obtain ⟨⟨k, e⟩, howner, hdecides⟩ := Option.map_eq_some_iff.mp hb
    obtain ⟨-, he⟩ := RunForest.ownerOfAgent_eq_some.mp howner
    refine ⟨k, hresolves, ?_⟩
    rw [RunForest.choice, he]
    exact congrArg some hdecides
  · exfalso
    have hknown := known_of_climbs hs.nested hl hclimb h
    obtain ⟨k, hk⟩ := Option.isSome_iff_exists.mp hknown
    obtain ⟨e, he, -⟩ := hs.nested.hosted b k hk
    have howner := Option.map_eq_none_iff.mp hb
    unfold RunForest.ownerOfAgent at howner
    rw [hk, Option.bind_some, he] at howner
    cases howner

/-- Once a session has handled what it told itself, every agent that is there is attended to. -/
theorem attended (hs : Settled id newV5 x.session) (h : Tended id x) (hu : Urged id x)
    (hmail : x.mail = []) (hfatal : x.session.fatal = none)
    (hknown : x.session.forest.isKnownAgent agent = true) : x.Attended agent := by
  have hempty (c : SessionCommand) : c ∉ x.mail := by
    rw [hmail]
    exact List.not_mem_nil
  obtain ⟨c, k, hc, hk⟩ := nearest_of_known hs h.linked hknown
  unfold Attended SessionState.runtimeFor
  rw [hc]
  cases c with
  | without => exact .inl rfl
  | inherit => exact absurd hk SessionState.choice_ne_inherit
  | pending =>
    obtain ⟨c, hmem, -⟩ := h.asked hfatal k hk
    exact absurd hmem (hempty c)
  | on r =>
    right
    obtain ⟨record, hr, rfl⟩ := Option.map_eq_some_iff.mp (hs.housed.chosen k r hk)
    have hthere : x.session.forest.shape record.owner ≠ none := by
      obtain ⟨e, he, -⟩ := Option.map_eq_some_iff.mp hk
      rw [RunForest.shape, he]
      simp
    refine ⟨r, record, runtimeOfChoice_on hr, ?_⟩
    cases h.covered hfatal r record hr with
    | ready atMs h => exact .inl ⟨atMs, h⟩
    | outstanding atMs h => exact .inr ⟨atMs, h⟩
    | mailed vendor h => exact absurd h (hempty _)
    | abandoned h => exact absurd h hthere
    | failed hp atMs error hf hmain =>
      have howner := of_decide_eq_true (Bool.and_eq_true_iff.mp hmain).1
      rw [ownerOf_of_lookup hr] at howner
      cases hu hfatal r record hr (Option.some.inj howner) with
      | ready atMs h => exact .inl ⟨atMs, h⟩
      | outstanding atMs h => exact .inr ⟨atMs, h⟩
      | mailed vendor h => exact absurd h (hempty _)
      | abandoned h => exact absurd h hthere
      | failed hp => cases hp

/-- In every run whose steps take care, once a message was queued for an agent and the session has
handled what it told itself, with nothing more gone wrong since, that agent runs on a runtime that
is ready or being built, or on none by choice. -/
theorem message_attended (id : String) (newV5 : String → String → String) (hd : Derives newV5 id)
    {tr tr' : List (Building × BuildEvent × Building)} {z : Building} {selector : Option String}
    {text agent : String} {artifacts : List ArtifactRef}
    (h : (building id newV5).Exec ⟨.empty, [], []⟩ tr x)
    (hcare : ∀ w ∈ tr, w.1.careful id w.2.1 = true)
    (hmessage : Step id newV5 x (.handle env (.turn (.userMessage selector text artifacts))) y)
    (hq : (x.session.handleCommand (env.serving id newV5)
      (.turn (.userMessage selector text artifacts))).queues agent = true)
    (h' : (building id newV5).Exec y tr' z)
    (hcare' : ∀ w ∈ tr', w.1.careful id w.2.1 = true ∧ w.2.1.isSetback = false)
    (hmail : z.mail = []) (hfatal : z.session.fatal = none)
    (hknown : z.session.forest.isKnownAgent agent = true) : z.Attended agent := by
  have hx : (building id newV5).Reachable x := h.reachable (.init rfl)
  have htended : Tended id x := tended_of_exec hd (.init rfl) tended_init h hcare
  have hy : (building id newV5).Reachable y := hx.step hmessage
  have hafter : Tended id y := htended.step hd (nesting_of_building hx) rfl hmessage
  have hurged : Urged id y := by
    cases hmessage with
    | handle hc hs => exact urged_of_queues hd (nesting_of_building hx) htended hs hq
  have hend : Tended id z := tended_of_exec hd hy hafter h' fun w hw => (hcare' w hw).1
  have hurged' : Urged id z :=
    h'.guarded (G := fun _ l => l.isSetback = false)
      (fun _ _ _ hu hw hl hstep => hw.step hd (nesting_of_building hu) hl hstep) hy hurged
      fun w hw => (hcare' w hw).2
  have hs := settled_of_reachable hd (nesting_of_building (h'.reachable hy))
  exact attended hs hend hurged' hmail hfatal hknown

/-! ### Runs that can be followed -/

/-- The step of the session `s` whose ids are derived by joining, as a function. -/
def step? (x : Building) : BuildEvent → Option Building
  | .handle env c =>
    if c.isCompletion then none
    else (nest? x.session (env, c)).map fun _ => x.serve "s" joined env c
  | .own env index =>
    x.mail[index]?.bind fun c =>
      if c.isCompletion then none
      else (nest? x.session (env, c)).map fun _ => (x.take index).serve "s" joined env c
  | .complete env index error terminal =>
    x.outstanding[index]?.bind fun create =>
      (nest? x.session (env, .lifecycle (.finishProvisioning create.1 error terminal))).map
        fun _ => (x.ended index).serve "s" joined env
          (.lifecycle (.finishProvisioning create.1 error terminal))
  | .die => some x.load

theorem step_serve (h : nest? x.session (env, c) = some s) :
    (nesting "s" joined).Step x.session (env, c) (x.serve "s" joined env c).session := by
  have hs := step_of_nest? h
  obtain rfl := hs.1.2
  exact hs

theorem step_of_step? (h : x.step? l = some y) : Step "s" joined x l y := by
  cases l with
  | handle env c =>
    obtain ⟨hc, h⟩ := Option.ite_none_left_eq_some.mp h
    obtain ⟨s, hs, rfl⟩ := Option.map_eq_some_iff.mp h
    exact .handle (Bool.eq_false_iff.mpr hc) (step_serve hs)
  | own env index =>
    obtain ⟨c, hi, h⟩ := Option.bind_eq_some_iff.mp h
    obtain ⟨hc, h⟩ := Option.ite_none_left_eq_some.mp h
    obtain ⟨s, hs, rfl⟩ := Option.map_eq_some_iff.mp h
    exact .own hi (Bool.eq_false_iff.mpr hc) (step_serve hs)
  | complete env index error terminal =>
    obtain ⟨⟨runtime, incarnation⟩, hi, h⟩ := Option.bind_eq_some_iff.mp h
    obtain ⟨s, hs, rfl⟩ := Option.map_eq_some_iff.mp h
    exact .complete hi (step_serve hs)
  | die =>
    cases h
    exact .die

/-- The first create of the main agent's runtime fails, and a message has it attempted once more. -/
theorem message_attended_retried : ∃ z : Building,
    (building "s" joined).Reachable z ∧ z.Attended "s" ∧ z.outstanding = [("1", 2)] := by
  let ls : List BuildEvent :=
    [.handle (.plain "1") (.core (.create ⟨.agent, some "fly"⟩ none none)),
      .own { Env.plain "1" with now := 1 } 0,
      .complete (.plain "2") 0 (some "offline") false]
  let x := (System.steps? (System.guarded? (fun x l => x.careful "s" l = true) step?)
    ⟨.empty, [], []⟩ ls).get (by decide +kernel)
  let y := (x.step? (.handle (.plain "2") (.turn (.userMessage none "hi" [])))).get
    (by decide +kernel)
  let z := (y.step? (.own { Env.plain "2" with now := 2 } 0)).get (by decide +kernel)
  obtain ⟨tr, htr, -, hcare⟩ := System.exec_of_guarded? (M := building "s" joined)
    (G := fun x l => x.careful "s" l = true) (fun _ _ _ _ => step_of_step?) (t := x)
    (Option.some_get _).symm
  have hmessage := @step_of_step? x y _ (Option.some_get _).symm
  have hown : (building "s" joined).Exec y _ z :=
    .single (step_of_step? (Option.some_get _).symm)
  have hcare' : ∀ w ∈ [(y, BuildEvent.own { Env.plain "2" with now := 2 } 0, z)],
      w.1.careful "s" w.2.1 = true ∧ w.2.1.isSetback = false := by
    intro w hw
    obtain rfl := List.mem_singleton.mp hw
    decide +kernel
  refine ⟨z, hown.reachable (.step (htr.reachable (.init rfl)) hmessage), ?_, by decide +kernel⟩
  exact message_attended "s" joined (derives_joined rfl) htr hcare hmessage (by decide +kernel) hown
    hcare' (by decide +kernel) (by decide +kernel) (by decide +kernel)

/-- A message to a sub session on a runtime of its own, whose create failed: the session asks for
its main agent's runtime only, and nobody builds the one the message waits for. -/
theorem message_unattended : ¬ ∀ (tr tr' : List (Building × BuildEvent × Building))
    (x y z : Building) (env : Env) (selector : Option String) (text agent : String)
    (artifacts : List ArtifactRef), (building "s" joined).Exec ⟨.empty, [], []⟩ tr x →
      Step "s" joined x (.handle env (.turn (.userMessage selector text artifacts))) y →
      (x.session.handleCommand (env.serving "s" joined)
        (.turn (.userMessage selector text artifacts))).queues agent = true →
      (building "s" joined).Exec y tr' z → (∀ w ∈ tr', w.2.1.isSetback = false) →
      z.mail = [] → z.session.fatal = none → z.session.forest.isKnownAgent agent = true →
      z.Attended agent := by
  let ls : List BuildEvent :=
    [.handle (.plain "1") (.core (.create ⟨.agent, none⟩ none none)),
      .own (.plain "2") 0,
      .handle (.plain "1") (.subSession (.create "s" .fresh "look" "Look" (.own "fly"))),
      .own (.plain "2") 0,
      .own { Env.plain "2" with now := 1 } 0,
      .complete (.plain "3") 0 (some "offline") false]
  let x := (System.steps? step? ⟨.empty, [], []⟩ ls).get (by decide +kernel)
  let y := (x.step? (.handle (.plain "3") (.turn (.userMessage (some "1") "hi" [])))).get
    (by decide +kernel)
  obtain ⟨tr, htr, -⟩ := System.exec_of_steps? (M := building "s" joined)
    (fun _ _ _ => step_of_step?) (t := x) (Option.some_get _).symm
  intro hall
  have hattended := hall tr [] x y y (.plain "3") (some "1") "hi" "1" [] htr
    (step_of_step? (Option.some_get _).symm) (by decide +kernel) .nil
    (fun w hw => absurd hw List.not_mem_nil) (by decide +kernel) (by decide +kernel)
    (by decide +kernel)
  have hruntime : y.session.runtimeFor "1" = .on "2" ⟨"fly", "1", .failed 1 "offline"⟩ := by
    decide +kernel
  have hout : y.outstanding = [] := by decide +kernel
  unfold Attended at hattended
  rw [hruntime, hout] at hattended
  rcases hattended with h | ⟨r, record, h, ⟨atMs, hready⟩ | ⟨atMs, hmem⟩⟩
  · exact AgentRuntime.noConfusion h
  · cases h
    exact ProvisioningState.noConfusion hready
  · cases hmem

end Building

end Horsie.Session
