import Mathlib.Data.List.Nodup
import Horsie.RuntimeHost.Correlation

/-!
# What is tracked is what is under way

A client's map lists the calls whose caller waits, and the runtime's map the calls it executes. Both
are kept by hand: the client removes an entry after its wait, which a caller that is gone never
reaches, and the runtime enters a task after spawning it, which a task that is quick has ended
by then. Otherwise the lists are exact, as long as no id is used twice (`tracking_exact`).
-/

namespace Horsie.RuntimeHost

open Horsie.Lib

/-- The caller waits. -/
def Stage.open : Stage → Bool
  | .finished _ => false
  | .tracked | .registered | .awaiting | .resolved _ => true

/-- The request is not sent. -/
def Stage.unsent : Stage → Bool
  | .tracked | .registered => true
  | .awaiting | .resolved _ | .finished _ => false

theorem Stage.open_of_unsent {stage : Stage} (h : stage.unsent = true) : stage.open = true := by
  cases stage <;> first | rfl | cases h

theorem Relay.open_eq (relay : Relay) : relay.open = relay.stage.open := by
  obtain ⟨agent, callId, stage, reply⟩ := relay
  cases stage <;> rfl

/-- The call a message asks for, and its relay. -/
def Inbound.request? : Inbound → Option (String × ℕ)
  | .request relay callId => some (callId, relay)
  | .cancel _ => none

namespace World

/-! ## The property -/

def Waits (w : World) (callId : String) : Prop :=
  ∃ relay ∈ w.relays, relay.callId = callId ∧ relay.open = true

def Executes (w : World) (callId : String) : Prop := ∃ task ∈ w.tasks, task.callId = callId

/-- The ids `InFlight` reports are those of the calls whose caller waits. -/
def ClientExact (w : World) : Prop :=
  ∀ callId, (w.inFlight callId).isSome = true ↔ w.Waits callId

/-- The ids a pong lists are those of the calls the runtime executes. -/
def RuntimeExact (w : World) : Prop :=
  ∀ callId, (w.handles callId).isSome = true ↔ w.Executes callId

/-! ## The condition -/

/-- A call under this id is waited for, on its way to the runtime, or executed. -/
def busy (w : World) (callId : String) : Bool :=
  w.relays.any (fun relay => decide (relay.callId = callId) && relay.open) ||
    w.inbound.any (fun message =>
      message.request?.any fun request => decide (request.1 = callId)) ||
    w.tasks.any fun task => decide (task.callId = callId)

/-- A request is made under an id no call has, no caller goes away while it waits, and no task ends
before it is registered. -/
def keepsTrack (w : World) : Label → Bool
  | .request _ callId => !w.busy callId
  | .drop _ => false
  | .finish k => !(w.tasks[k]?).any fun task => decide (w.spawned = some (task.callId, task.relay))
  | _ => true

/-! ## The invariant -/

def callers (w : World) : List (String × Stage) := w.relays.map fun r => (r.callId, r.stage)

def requests (w : World) : List (String × ℕ) := w.inbound.filterMap Inbound.request?

def running (w : World) : List (String × ℕ) := w.tasks.map fun task => (task.callId, task.relay)

/-- Each id is under way once, under the id of its relay, and the runtime's map has every task but
the one being registered. -/
structure Tracked (w : World) : Prop where
  client : ∀ callId, (w.inFlight callId).isSome = true ↔
    ∃ (i : ℕ) (stage : Stage), w.callers[i]? = some (callId, stage) ∧ stage.open = true
  one : ∀ (i j : ℕ) (callId : String) (stage stage' : Stage),
    w.callers[i]? = some (callId, stage) → w.callers[j]? = some (callId, stage') →
      stage.open = true → stage'.open = true → i = j
  unsent : ∀ (i : ℕ) (callId : String) (stage : Stage), w.callers[i]? = some (callId, stage) →
    stage.unsent = true → callId ∉ (w.requests ++ w.running).map Prod.fst
  once : ((w.requests ++ w.running).map Prod.fst).Nodup
  sender : ∀ x ∈ w.requests ++ w.running, ∃ stage, w.callers[x.2]? = some (x.1, stage)
  spawned : ∀ x, w.spawned = some x → x ∈ w.running
  listed : ∀ (callId : String) (i : ℕ), w.handles callId = some i ↔
    (callId, i) ∈ w.running ∧ w.spawned ≠ some (callId, i)

variable {w w' : World}

variable {callId : String} {i : ℕ} {stage : Stage}

theorem mem_callers :
    w.callers[i]? = some (callId, stage) ↔
      ∃ relay, w.relays[i]? = some relay ∧ relay.callId = callId ∧ relay.stage = stage := by
  unfold callers
  rw [List.getElem?_map, Option.map_eq_some_iff]
  simp only [Prod.mk.injEq]

theorem waits_iff : w.Waits callId ↔
    ∃ (i : ℕ) (stage : Stage), w.callers[i]? = some (callId, stage) ∧ stage.open = true := by
  simp only [mem_callers, Waits, List.mem_iff_getElem?]
  refine ⟨?_, ?_⟩
  · rintro ⟨relay, ⟨i, hi⟩, hid, hopen⟩
    exact ⟨i, relay.stage, ⟨relay, hi, hid, rfl⟩, Relay.open_eq relay ▸ hopen⟩
  · rintro ⟨i, _, ⟨relay, hi, hid, rfl⟩, hopen⟩
    exact ⟨relay, ⟨i, hi⟩, hid, (Relay.open_eq relay).trans hopen⟩

theorem executes_iff :
    w.Executes callId ↔ callId ∈ w.running.map Prod.fst := by
  unfold Executes running
  simp only [List.map_map, List.mem_map, Function.comp_apply]

theorem Tracked.clientExact (h : w.Tracked) : w.ClientExact := fun callId =>
  (h.client callId).trans waits_iff.symm

theorem Tracked.runtimeExact (h : w.Tracked) (hs : w.spawned = none) : w.RuntimeExact := by
  intro callId
  rw [executes_iff, Option.isSome_iff_exists]
  refine ⟨?_, ?_⟩
  · rintro ⟨i, hi⟩
    exact List.mem_map_of_mem ((h.listed callId i).mp hi).1
  · intro hmem
    obtain ⟨⟨_, i⟩, hx, rfl⟩ := List.mem_map.mp hmem
    refine ⟨i, (h.listed _ i).mpr ⟨hx, ?_⟩⟩
    rw [hs]
    exact (Option.some_ne_none _).symm

theorem Tracked.nodup_running (h : w.Tracked) : (w.running.map Prod.fst).Nodup := by
  have hnodup := h.once
  rw [List.map_append] at hnodup
  exact (List.nodup_append.mp hnodup).2.1

theorem Tracked.nodup_tasks (h : w.Tracked) : (w.tasks.map Task.callId).Nodup := by
  have hnodup := h.nodup_running
  unfold running at hnodup
  rwa [List.map_map] at hnodup

theorem Tracked.running_inj (h : w.Tracked) {x y : String × ℕ} (hx : x ∈ w.running)
    (hy : y ∈ w.running) (hxy : x.1 = y.1) : x = y :=
  List.inj_on_of_nodup_map h.nodup_running hx hy hxy

theorem Tracked.executes (h : w.Tracked) (callId : String)
    (hc : (w.handles callId).isSome = true) : w.Executes callId := by
  obtain ⟨i, hi⟩ := Option.isSome_iff_exists.mp hc
  exact executes_iff.mpr (List.mem_map_of_mem ((h.listed callId i).mp hi).1)

/-! ## Steps -/

/-- What a step leaves alone that moves no call. -/
structure Still (w w' : World) : Prop where
  callers : w'.callers = w.callers
  inFlight : w'.inFlight = w.inFlight
  requests : w'.requests.Sublist w.requests
  running : w'.running = w.running
  spawned : w'.spawned = w.spawned
  handles : w'.handles = w.handles

theorem Tracked.still (h : w.Tracked) (hs : Still w w') : w'.Tracked := by
  have hsub : (w'.requests ++ w'.running).Sublist (w.requests ++ w.running) := by
    rw [hs.running]
    exact hs.requests.append (.refl _)
  refine ⟨?_, ?_, ?_, h.once.sublist (hsub.map _), ?_, ?_, ?_⟩
  · rw [hs.inFlight, hs.callers]
    exact h.client
  · rw [hs.callers]
    exact h.one
  · rw [hs.callers]
    exact fun i callId stage hi hu hmem =>
      h.unsent i callId stage hi hu ((hsub.map Prod.fst).subset hmem)
  · rw [hs.callers]
    exact fun x hx => h.sender x (hsub.subset hx)
  · rw [hs.spawned, hs.running]
    exact h.spawned
  · rw [hs.handles, hs.running, hs.spawned]
    exact h.listed

theorem map_fill (relays : List Relay) (p : ℕ → Relay → Prop) [∀ i relay, Decidable (p i relay)]
    (r : Resolution) :
    (relays.mapIdx fun i relay => if p i relay then Relay.fill r relay else relay).map
      (fun r => (r.callId, r.stage)) = relays.map fun r => (r.callId, r.stage) := by
  refine List.ext_getElem? fun i => ?_
  simp only [List.getElem?_map, List.getElem?_mapIdx, Option.map_map]
  congr 1
  funext relay
  simp only [Function.comp_apply]
  split <;> rfl

theorem callers_fill (holder : Option ℕ) (r : Resolution) :
    (w.fill holder r).callers = w.callers := map_fill w.relays (fun i _ => holder = some i) r

theorem callers_setPending (callId : String) (waiter : Option ℕ) :
    (w.setPending callId waiter).callers = w.callers := callers_fill _ _

theorem mem_callers_setStage {j : ℕ} {callId' : String} {stage' stage'' : Stage}
    (hi : w.callers[i]? = some (callId, stage)) :
    (w.setStage i stage').callers[j]? = some (callId', stage'') ↔
      j = i ∧ callId' = callId ∧ stage'' = stage' ∨
        j ≠ i ∧ w.callers[j]? = some (callId', stage'') := by
  obtain ⟨relay, hrelay, rfl, rfl⟩ := mem_callers.mp hi
  simp only [mem_callers, setStage, List.getElem?_modify]
  by_cases hj : i = j
  · subst hj
    simp [hrelay, eq_comm]
  · simp [hj, Ne.symm hj]

theorem Tracked.advance (h : w.Tracked) {stage' : Stage}
    (hi : w.callers[i]? = some (callId, stage)) (hopen : stage.open = true)
    (hopen' : stage'.open = true) (hunsent : stage'.unsent = true → stage.unsent = true) :
    (w.setStage i stage').Tracked := by
  have hc : ∀ {j : ℕ} {c : String} {s : Stage}, (w.setStage i stage').callers[j]? = some (c, s) ↔
      j = i ∧ c = callId ∧ s = stage' ∨ j ≠ i ∧ w.callers[j]? = some (c, s) :=
    mem_callers_setStage hi
  refine ⟨fun c => ?_, ?_, ?_, h.once, ?_, h.spawned, h.listed⟩
  · refine (h.client c).trans ⟨?_, ?_⟩
    · rintro ⟨j, s, hj, hs⟩
      by_cases hji : j = i
      · subst hji
        cases hi.symm.trans hj
        exact ⟨j, stage', hc.mpr (.inl ⟨rfl, rfl, rfl⟩), hopen'⟩
      · exact ⟨j, s, hc.mpr (.inr ⟨hji, hj⟩), hs⟩
    · rintro ⟨j, s, hj, hs⟩
      rcases hc.mp hj with ⟨rfl, rfl, rfl⟩ | ⟨-, hj⟩
      · exact ⟨j, stage, hi, hopen⟩
      · exact ⟨j, s, hj, hs⟩
  · intro j k c s s' hj hk hs hs'
    rcases hc.mp hj with ⟨rfl, rfl, -⟩ | ⟨-, hold⟩ <;>
      rcases hc.mp hk with ⟨rfl, hcc, -⟩ | ⟨-, hold'⟩
    · rfl
    · exact h.one _ _ _ _ _ hi hold' hopen hs'
    · exact h.one _ _ _ _ _ hold (hcc ▸ hi) hs hopen
    · exact h.one _ _ _ _ _ hold hold' hs hs'
  · intro j c s hj hu
    rcases hc.mp hj with ⟨rfl, rfl, rfl⟩ | ⟨-, hj⟩
    · exact h.unsent j c stage hi (hunsent hu)
    · exact h.unsent j c s hj hu
  · intro x hx
    obtain ⟨s, hs⟩ := h.sender x hx
    by_cases hxi : x.2 = i
    · obtain ⟨hid, -⟩ := Prod.mk.inj (Option.some.inj (hi.symm.trans (hxi ▸ hs)))
      exact ⟨stage', hc.mpr (.inl ⟨hxi, hid.symm, rfl⟩)⟩
    · exact ⟨s, hc.mpr (.inr ⟨hxi, hs⟩)⟩

theorem Tracked.send (h : w.Tracked)
    (hi : w.callers[i]? = some (callId, stage)) (hunsent : stage.unsent = true) :
    Tracked
      { w.setStage i .awaiting with inbound := w.inbound ++ [Inbound.request i callId] } := by
  have hadv : (w.setStage i .awaiting).Tracked := h.advance hi (Stage.open_of_unsent hunsent) rfl
    (fun hu => absurd hu Bool.false_ne_true)
  have hfree := h.unsent i callId stage hi hunsent
  have hreq : ({ w.setStage i .awaiting with
      inbound := w.inbound ++ [.request i callId] } : World).requests =
      w.requests ++ [(callId, i)] := by
    unfold requests
    rw [List.filterMap_append]
    rfl
  have hperm : ((w.requests ++ [(callId, i)]) ++ w.running).Perm
      ((callId, i) :: (w.requests ++ w.running)) := by
    rw [List.append_assoc]
    exact List.perm_middle
  refine ⟨hadv.client, hadv.one, ?_, ?_, ?_, h.spawned, h.listed⟩
  · intro j c s hj hu
    rw [hreq]
    intro hmem
    rcases List.mem_cons.mp (((hperm.map Prod.fst).mem_iff).mp hmem) with rfl | hmem
    · have hj' := (mem_callers_setStage hi).mp hj
      rcases hj' with ⟨rfl, -, rfl⟩ | ⟨hne, hj'⟩
      · cases hu
      · exact hne (h.one _ _ _ _ _ hj' hi (Stage.open_of_unsent hu) (Stage.open_of_unsent hunsent))
    · exact hadv.unsent j c s hj hu hmem
  · rw [hreq]
    exact ((hperm.map Prod.fst).nodup_iff).mpr (List.nodup_cons.mpr ⟨hfree, h.once⟩)
  · rw [hreq]
    intro x hx
    rcases List.mem_cons.mp (hperm.mem_iff.mp hx) with rfl | hx
    · exact ⟨.awaiting, (mem_callers_setStage hi).mpr (.inl ⟨rfl, rfl, rfl⟩)⟩
    · exact hadv.sender x hx

/-- The call of a caller is no longer tracked, and the caller no longer waits. -/
theorem Tracked.untrack (h : w.Tracked) {r r' : Resolution}
    (hi : w.callers[i]? = some (callId, .resolved r)) :
    Tracked
      { w.setStage i (.finished r') with
        inFlight := Function.update w.inFlight callId none } := by
  have hc : ∀ {j : ℕ} {c : String} {s : Stage},
      (w.setStage i (.finished r')).callers[j]? = some (c, s) ↔
      j = i ∧ c = callId ∧ s = .finished r' ∨ j ≠ i ∧ w.callers[j]? = some (c, s) :=
    mem_callers_setStage hi
  refine ⟨fun c => ?_, ?_, ?_, h.once, ?_, h.spawned, h.listed⟩
  · by_cases hcc : c = callId
    · subst hcc
      simp only [Function.update_self, Option.isSome_none, Bool.false_eq_true, false_iff]
      rintro ⟨j, s, hj, hs⟩
      rcases hc.mp hj with ⟨-, -, rfl⟩ | ⟨hne, hj⟩
      · cases hs
      · exact hne (h.one _ _ _ _ _ hj hi hs rfl)
    · simp only [Function.update_of_ne hcc]
      refine (h.client c).trans ⟨?_, ?_⟩
      · rintro ⟨j, s, hj, hs⟩
        have hji : j ≠ i := by
          rintro rfl
          exact hcc (Prod.mk.inj (Option.some.inj (hj.symm.trans hi))).1
        exact ⟨j, s, hc.mpr (.inr ⟨hji, hj⟩), hs⟩
      · rintro ⟨j, s, hj, hs⟩
        rcases hc.mp hj with ⟨-, hid, -⟩ | ⟨-, hj⟩
        · exact absurd hid hcc
        · exact ⟨j, s, hj, hs⟩
  · intro j k c s s' hj hk hs hs'
    rcases hc.mp hj with ⟨-, -, rfl⟩ | ⟨-, hj⟩
    · cases hs
    · rcases hc.mp hk with ⟨-, -, rfl⟩ | ⟨-, hk⟩
      · cases hs'
      · exact h.one _ _ _ _ _ hj hk hs hs'
  · intro j c s hj hu
    rcases hc.mp hj with ⟨-, -, rfl⟩ | ⟨-, hj⟩
    · cases hu
    · exact h.unsent j c s hj hu
  · intro x hx
    obtain ⟨s, hs⟩ := h.sender x hx
    by_cases hxi : x.2 = i
    · obtain ⟨hid, -⟩ := Prod.mk.inj (Option.some.inj (hi.symm.trans (hxi ▸ hs)))
      exact ⟨.finished r', hc.mpr (.inl ⟨hxi, hid.symm, rfl⟩)⟩
    · exact ⟨s, hc.mpr (.inr ⟨hxi, hs⟩)⟩

theorem busy_eq_false (h : w.busy callId = false) :
    ¬ w.Waits callId ∧ callId ∉ (w.requests ++ w.running).map Prod.fst := by
  unfold busy at h
  simp only [Bool.or_eq_false_iff, List.any_eq_false, Bool.and_eq_true, decide_eq_true_eq] at h
  obtain ⟨⟨hrelays, hinbound⟩, htasks⟩ := h
  refine ⟨fun ⟨relay, hmem, hid, hopen⟩ => hrelays relay hmem ⟨hid, hopen⟩, fun hmem => ?_⟩
  obtain ⟨x, hx, rfl⟩ := List.mem_map.mp hmem
  rcases List.mem_append.mp hx with hx | hx
  · obtain ⟨message, hm, hreq⟩ := List.mem_filterMap.mp hx
    refine hinbound message hm ?_
    rw [hreq]
    exact decide_eq_true rfl
  · obtain ⟨task, ht, rfl⟩ := List.mem_map.mp hx
    exact htasks task ht rfl

theorem Tracked.request (h : w.Tracked) {agent : String} (hfree : w.busy callId = false) :
    Tracked
      { w with
        relays := w.relays ++ [⟨agent, callId, .tracked, none⟩]
        inFlight := Function.update w.inFlight callId (some agent) } := by
  obtain ⟨hwaits, hcarried⟩ := busy_eq_false hfree
  rw [waits_iff] at hwaits
  have hc : ∀ {j : ℕ} {c : String} {s : Stage},
      ({ w with
          relays := w.relays ++ [⟨agent, callId, .tracked, none⟩]
          inFlight := Function.update w.inFlight callId (some agent) } : World).callers[j]? =
          some (c, s) ↔
        w.callers[j]? = some (c, s) ∨ j = w.callers.length ∧ c = callId ∧ s = .tracked := by
    intro j c s
    simp only [callers, List.map_append, List.map_cons, List.map_nil]
    grind
  refine ⟨fun c => ?_, ?_, ?_, h.once, ?_, h.spawned, h.listed⟩
  · by_cases hcc : c = callId
    · subst hcc
      simp only [Function.update_self, Option.isSome_some, true_iff]
      exact ⟨_, .tracked, hc.mpr (.inr ⟨rfl, rfl, rfl⟩), rfl⟩
    · simp only [Function.update_of_ne hcc]
      refine (h.client c).trans ⟨?_, ?_⟩
      · rintro ⟨j, s, hj, hs⟩
        exact ⟨j, s, hc.mpr (.inl hj), hs⟩
      · rintro ⟨j, s, hj, hs⟩
        rcases hc.mp hj with hold | ⟨-, hid, -⟩
        · exact ⟨j, s, hold, hs⟩
        · exact absurd hid hcc
  · intro j k c s s' hj hk hs hs'
    rcases hc.mp hj with hold | ⟨rfl, rfl, -⟩ <;> rcases hc.mp hk with hold' | ⟨rfl, hid, -⟩
    · exact h.one _ _ _ _ _ hold hold' hs hs'
    · exact absurd ⟨j, s, hid ▸ hold, hs⟩ hwaits
    · exact absurd ⟨k, s', hold', hs'⟩ hwaits
    · rfl
  · intro j c s hj hu
    rcases hc.mp hj with hold | ⟨-, rfl, -⟩
    · exact h.unsent j c s hold hu
    · exact hcarried
  · intro x hx
    obtain ⟨s, hs⟩ := h.sender x hx
    exact ⟨s, hc.mpr (.inl hs)⟩

theorem Tracked.spawn (h : w.Tracked) {k : ℕ}
    (hk : w.inbound[k]? = some (.request i callId)) (hs : w.spawned = none) :
    Tracked
      { w with
        inbound := w.inbound.eraseIdx k
        tasks := w.tasks ++ [⟨i, callId, false⟩]
        spawned := some (callId, i) } := by
  have hperm : (w.requests ++ w.running).Perm
      ((w.inbound.eraseIdx k).filterMap Inbound.request? ++ (w.running ++ [(callId, i)])) := by
    have hreq : w.requests.Perm
        ((callId, i) :: (w.inbound.eraseIdx k).filterMap Inbound.request?) :=
      filterMap_perm_eraseIdx hk rfl
    rw [← List.append_assoc]
    exact (hreq.append_right _).trans (List.perm_append_singleton (callId, i) _).symm
  have hrun : ({ w with
      inbound := w.inbound.eraseIdx k
      tasks := w.tasks ++ [⟨i, callId, false⟩]
      spawned := some (callId, i) } : World).running = w.running ++ [(callId, i)] := by
    unfold running
    rw [List.map_append]
    rfl
  have hnew : callId ∉ w.running.map Prod.fst := by
    have hnodup := ((hperm.map Prod.fst).nodup_iff).mp h.once
    simp only [List.map_append, List.map_cons, List.map_nil] at hnodup
    have hlast := (List.nodup_append.mp (List.nodup_append.mp hnodup).2.1).2.2
    exact fun hmem => hlast callId hmem callId (List.mem_singleton_self _) rfl
  refine ⟨h.client, h.one, ?_, ?_, ?_, ?_, fun c j => ?_⟩
  · intro j c s hj hu
    rw [hrun]
    exact fun hmem => h.unsent j c s hj hu (((hperm.map Prod.fst).mem_iff).mpr hmem)
  · rw [hrun]
    exact ((hperm.map Prod.fst).nodup_iff).mp h.once
  · rw [hrun]
    exact fun x hx => h.sender x (hperm.mem_iff.mpr hx)
  · rw [hrun]
    rintro x hx
    cases hx
    exact List.mem_append_right _ (List.mem_singleton_self _)
  · rw [hrun]
    refine (h.listed c j).trans ?_
    rw [hs]
    constructor
    · rintro ⟨hmem, -⟩
      refine ⟨List.mem_append_left _ hmem, fun he => hnew ?_⟩
      cases he
      exact List.mem_map_of_mem hmem
    · rintro ⟨hmem, hne⟩
      rcases List.mem_append.mp hmem with hmem | hmem
      · exact ⟨hmem, (Option.some_ne_none _).symm⟩
      · exact absurd (congrArg some (List.mem_singleton.mp hmem).symm) hne

theorem Tracked.remove (h : w.Tracked) {inbound : List Inbound}
    {tasks : List Task} {outbound : List Outbound}
    (hsub : (inbound.filterMap Inbound.request?).Sublist w.requests)
    (htasks : tasks.Sublist w.tasks)
    (hkept : ∀ x ∈ w.running, x.1 ≠ callId → x ∈ tasks.map fun task => (task.callId, task.relay))
    (hgone : ∀ i, w.handles callId = some i → (callId, i) ∉
      tasks.map fun task => (task.callId, task.relay))
    (hs : ∀ x, w.spawned = some x → x.1 ≠ callId) :
    Tracked
      { w with
        inbound := inbound
        tasks := tasks
        outbound := outbound
        handles := Function.update w.handles callId none } := by
  have hrun : (tasks.map fun task => (task.callId, task.relay)).Sublist w.running := htasks.map _
  have hcar := hsub.append hrun
  refine ⟨h.client, h.one, ?_, h.once.sublist (hcar.map _), ?_, ?_, fun c j => ?_⟩
  · exact fun j c s hj hu hmem => h.unsent j c s hj hu ((hcar.map Prod.fst).subset hmem)
  · exact fun x hx => h.sender x (hcar.subset hx)
  · exact fun x hx => hkept x (h.spawned x hx) (hs x hx)
  · by_cases hcc : c = callId
    · subst hcc
      simp only [Function.update_self, reduceCtorEq, false_iff, not_and, not_not]
      intro hmem
      have hlisted := (h.listed c j).not.mp fun hj => hgone j hj hmem
      simp only [not_and, not_not] at hlisted
      exact hlisted (hrun.subset hmem)
    · simp only [Function.update_of_ne hcc]
      refine (h.listed c j).trans (and_congr_left' ⟨fun hmem => hkept _ hmem hcc, ?_⟩)
      exact fun hmem => hrun.subset hmem

theorem Tracked.init : init.Tracked where
  client callId := by simp [World.init, callers]
  one i j callId stage stage' hi := by simp [World.init, callers] at hi
  unsent i callId stage hi := by simp [World.init, callers] at hi
  once := List.nodup_nil
  sender x hx := absurd hx List.not_mem_nil
  spawned x hx := by cases hx
  listed callId i := by simp [World.init, running]

theorem Tracked.setPending (h : w.Tracked) (callId : String) (waiter : Option ℕ) :
    (w.setPending callId waiter).Tracked :=
  h.still ⟨callers_setPending _ _, rfl, .refl _, rfl, rfl, rfl⟩

theorem Tracked.step (h : w.Tracked) {l : Label} (hl : w.keepsTrack l = true)
    (hs : w.step? l = some w') : w'.Tracked := by
  unfold step? at hs
  cases l with
  | request agent callId =>
    cases hs
    exact h.request ((Bool.not_eq_true' _).mp hl)
  | register i =>
    dsimp only at hs
    split at hs
    · rename_i hi
      cases hs
      have hcaller := mem_callers.mpr ⟨_, hi, rfl, rfl⟩
      rw [← callers_setPending _ (some i)] at hcaller
      exact (h.setPending _ _).advance hcaller rfl rfl fun _ => rfl
    · cases hs
  | publish i sent =>
    dsimp only at hs
    split at hs
    · rename_i hi
      have hcaller := mem_callers.mpr ⟨_, hi, rfl, rfl⟩
      split_ifs at hs
      · cases hs
        exact h.send hcaller rfl
      · cases hs
        rw [← callers_setPending _ none] at hcaller
        have hadv : ((w.setPending _ none).setStage i (.resolved .sendFailed)).Tracked :=
          (h.setPending _ none).advance hcaller rfl rfl fun hu => absurd hu Bool.false_ne_true
        exact hadv.still ⟨rfl, rfl, .refl _, rfl, rfl, rfl⟩
    · cases hs
  | wake i =>
    dsimp only at hs
    split at hs
    · rename_i hi
      cases hs
      exact h.advance (mem_callers.mpr ⟨_, hi, rfl, rfl⟩) rfl rfl
        (fun hu => absurd hu Bool.false_ne_true)
    · cases hs
  | untrack i =>
    dsimp only at hs
    split at hs
    · rename_i hi
      cases hs
      exact h.untrack (mem_callers.mpr ⟨_, hi, rfl, rfl⟩)
    · cases hs
  | drop i => cases hl
  | cancelOwn agent callId =>
    obtain ⟨-, hs⟩ := Option.ite_none_right_eq_some.mp hs
    cases hs
    exact h.still ⟨rfl, rfl, .refl _, rfl, rfl, rfl⟩
  | cancelOrphan callId =>
    obtain ⟨-, hs⟩ := Option.ite_none_right_eq_some.mp hs
    cases hs
    exact h.still ⟨rfl, rfl, .refl _, rfl, rfl, rfl⟩
  | sendCancel callId =>
    obtain ⟨-, hs⟩ := Option.ite_none_right_eq_some.mp hs
    cases hs
    refine h.still ⟨rfl, rfl, ?_, rfl, rfl, rfl⟩
    simp [requests, Inbound.request?]
  | receive k refuse =>
    dsimp only at hs
    split at hs
    · rename_i message hk
      split_ifs at hs with hspawned
      cases hs
      have hsub : ((w.inbound.eraseIdx k).filterMap Inbound.request?).Sublist w.requests :=
        (List.eraseIdx_sublist _ _).filterMap _
      cases message with
      | request i callId =>
        cases refuse with
        | true => exact h.still ⟨rfl, rfl, hsub, rfl, rfl, rfl⟩
        | false => exact h.spawn hk hspawned
      | cancel callId =>
        refine h.remove hsub List.filter_sublist ?_ ?_ fun x hx => by simp [hspawned] at hx
        · -- a task under another id has another relay, and stays
          rintro x hx hne
          obtain ⟨task, ht, rfl⟩ := List.mem_map.mp hx
          refine List.mem_map.mpr ⟨task, List.mem_filter.mpr ⟨ht, decide_eq_true ?_⟩, rfl⟩
          intro hhandle
          obtain ⟨s, hs⟩ := h.sender _ (List.mem_append_right _ hx)
          obtain ⟨s', hs'⟩ := h.sender _ (List.mem_append_right _ ((h.listed _ _).mp hhandle).1)
          exact hne (Prod.mk.inj (Option.some.inj (hs.symm.trans hs'))).1
        · rintro i hhandle hmem
          obtain ⟨task, ht, hx⟩ := List.mem_map.mp hmem
          cases hx
          exact of_decide_eq_true (List.mem_filter.mp ht).2 hhandle
    · cases hs
  | insertHandle =>
    dsimp only at hs
    split at hs
    · rename_i callId i hspawned
      cases hs
      have hnew := h.spawned _ hspawned
      refine ⟨h.client, h.one, h.unsent, h.once, h.sender, fun x hx => (by cases hx), fun c j => ?_⟩
      have hone : ∀ j, (callId, j) ∈ w.running → j = i := fun j hj =>
        (Prod.mk.inj (h.running_inj hj hnew rfl)).2
      have hlisted := h.listed c j
      show Function.update w.handles callId (some i) c = some j ↔
        (c, j) ∈ w.running ∧ none ≠ some (c, j)
      simp only [Function.update_apply]
      grind
    · cases hs
  | reply k =>
    dsimp only at hs
    split at hs
    · rename_i hk
      cases hs
      refine h.still ⟨rfl, rfl, .refl _, ?_, rfl, rfl⟩
      obtain ⟨hlt, hget⟩ := List.getElem?_eq_some_iff.mp hk
      refine List.ext_getElem? fun n => ?_
      simp only [running, List.getElem?_map, List.getElem?_set]
      split_ifs with hkn
      · rw [← hkn, hk]
        rfl
      · rfl
    · cases hs
  | finish k =>
    dsimp only at hs
    split at hs
    · rename_i i callId hk
      cases hs
      have hmem : (callId, i) ∈ w.running :=
        List.mem_map.mpr ⟨_, List.mem_of_getElem? hk, rfl⟩
      have hspawned : w.spawned ≠ some (callId, i) := by
        simpa [keepsTrack, hk] using hl
      refine h.remove (.refl _) (List.eraseIdx_sublist _ _) ?_ ?_ ?_
      · rintro x hx hne
        obtain ⟨task, ht, rfl⟩ := List.mem_map.mp hx
        refine List.mem_map_of_mem ?_
        rcases eq_or_mem_eraseIdx hk ht with rfl | ht
        · exact absurd rfl hne
        · exact ht
      · rintro j hhandle hmem'
        obtain ⟨hlt, hget⟩ := List.getElem?_eq_some_iff.mp hk
        have hperm := (List.getElem_cons_eraseIdx_perm hlt).map Task.callId
        have hnodup := (hperm.nodup_iff).mpr h.nodup_tasks
        rw [hget, List.map_cons, List.nodup_cons] at hnodup
        obtain ⟨task, ht, hx⟩ := List.mem_map.mp hmem'
        obtain ⟨hid, -⟩ := Prod.mk.inj hx
        exact hnodup.1 (List.mem_map.mpr ⟨task, ht, hid⟩)
      · rintro x hx rfl
        exact hspawned (hx.trans (congrArg some (h.running_inj (h.spawned x hx) hmem rfl)))
    · cases hs
  | deliver k =>
    dsimp only at hs
    split at hs
    · cases hs
      exact h.still ⟨callers_fill _ _, rfl, .refl _, rfl, rfl, rfl⟩
    · cases hs
  | loseInbound k =>
    dsimp only at hs
    split at hs
    · cases hs
      exact h.still ⟨rfl, rfl, (List.eraseIdx_sublist _ _).filterMap _, rfl, rfl, rfl⟩
    · cases hs
  | loseOutbound k =>
    dsimp only at hs
    split at hs
    · cases hs
      exact h.still ⟨rfl, rfl, .refl _, rfl, rfl, rfl⟩
    · cases hs
  | report callId =>
    obtain ⟨-, hs⟩ := Option.ite_none_right_eq_some.mp hs
    cases hs
    exact h.still ⟨rfl, rfl, .refl _, rfl, rfl, rfl⟩
  | watch callId =>
    obtain ⟨-, hs⟩ := Option.ite_none_right_eq_some.mp hs
    cases hs
    exact h.still ⟨rfl, rfl, .refl _, rfl, rfl, rfl⟩
  | abandon callId =>
    dsimp only at hs
    split at hs
    · cases hs
      exact (h.setPending callId none).still ⟨rfl, rfl, .refl _, rfl, rfl, rfl⟩
    · cases hs
  | forget callId =>
    cases hs
    exact h.still ⟨rfl, rfl, .refl _, rfl, rfl, rfl⟩
  | disconnect =>
    cases hs
    exact h.still ⟨map_fill w.relays _ _, rfl, .refl _, rfl, rfl, rfl⟩

end World

/-- A caller that goes away leaves its entry in `InFlight`, and a task that ends before it is
registered leaves its handle. -/
theorem tracking_stays_behind :
    (∃ w, connection.Reachable w ∧ ¬ w.ClientExact) ∧
      ∃ w, connection.Reachable w ∧ w.spawned = none ∧ ¬ w.RuntimeExact := by
  refine ⟨?_, ?_⟩
  · have hrun : ((System.steps? World.step? .init
        [.request "a" "call_0", .register 0, .publish 0 true, .drop 0]).map
          fun w => (w.inFlight "call_0", w.relays.map Relay.open)) = some (some "a", [false]) := by
      decide +kernel
    obtain ⟨w, hw, hx⟩ := Option.map_eq_some_iff.mp hrun
    obtain ⟨tr, htr, -⟩ := System.exec_steps? World.init hw
    obtain ⟨hin, hopen⟩ := Prod.mk.inj hx
    refine ⟨w, htr.reachable (.init rfl), fun h => ?_⟩
    obtain ⟨relay, hmem, -, hr⟩ := (h "call_0").mp (by rw [hin]; rfl)
    have hfalse := List.mem_map_of_mem (f := Relay.open) hmem
    rw [hopen, hr] at hfalse
    exact absurd (List.mem_singleton.mp hfalse) Bool.noConfusion
  · have hrun : ((System.steps? World.step? .init
        [.request "a" "call_0", .register 0, .publish 0 true, .receive 0 false, .reply 0, .finish 0,
          .insertHandle]).map fun w => (w.handles "call_0", w.spawned, w.tasks)) =
          some (some 0, none, []) := by
      decide +kernel
    obtain ⟨w, hw, hx⟩ := Option.map_eq_some_iff.mp hrun
    obtain ⟨tr, htr, -⟩ := System.exec_steps? World.init hw
    simp only [Prod.mk.injEq] at hx
    obtain ⟨hhandle, hspawned, htasks⟩ := hx
    refine ⟨w, htr.reachable (.init rfl), hspawned, fun h => ?_⟩
    obtain ⟨task, hmem, -⟩ := (h "call_0").mp (by rw [hhandle]; rfl)
    rw [htasks] at hmem
    cases hmem

/-- In a run that uses no id twice, in which no caller goes away and no task ends before it is
registered, `InFlight` lists the calls whose caller waits, the runtime's map lists no call that is
over, and a pong that is answered while no task is being registered lists the calls in execution. -/
theorem tracking_exact {tr : List (World × World.Label × World)} {w : World}
    (h : connection.Exec World.init tr w) (hg : ∀ x ∈ tr, x.1.keepsTrack x.2.1 = true) :
    w.ClientExact ∧ (∀ callId, (w.handles callId).isSome = true → w.Executes callId) ∧
      (w.spawned = none → w.RuntimeExact) := by
  have hinv : w.Tracked := h.guarded (G := fun w l => w.keepsTrack l = true) (I := World.Tracked)
    (fun _ _ _ _ hw hl hs => hw.step hl hs) (.init rfl) World.Tracked.init hg
  exact ⟨hinv.clientExact, hinv.executes, hinv.runtimeExact⟩

/-- Two agents' calls, one of them cancelled while it is executed. -/
theorem tracking_exact_cancelled : ∃ tr w, connection.Exec World.init tr w ∧
    w.relays.map (·.stage) = [.finished .cancelled, .awaiting] ∧
      w.ClientExact ∧ (∀ callId, (w.handles callId).isSome = true → w.Executes callId) ∧
        (w.spawned = none → w.RuntimeExact) := by
  have hrun : ((System.steps? (System.guarded? (fun w l => World.keepsTrack w l = true) World.step?)
      .init
      [.request "a" "call_0", .register 0, .publish 0 true,
        .request "b" "call_1", .register 1, .publish 1 true,
        .receive 0 false, .insertHandle, .receive 0 false, .insertHandle,
        .cancelOwn "a" "call_0", .sendCancel "call_0", .receive 0 false, .deliver 0, .wake 0,
        .untrack 0]).map (·.relays.map (·.stage)))
      = some [.finished .cancelled, .awaiting] := by
    decide +kernel
  obtain ⟨w, hw, hstages⟩ := Option.map_eq_some_iff.mp hrun
  obtain ⟨tr, htr, -, hall⟩ := System.exec_guarded? World.init hw
  exact ⟨tr, w, htr, hstages, tracking_exact htr hall⟩

end Horsie.RuntimeHost
