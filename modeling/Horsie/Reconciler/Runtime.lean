import Horsie.Reconciler.Calls

/-!
# Calls of a runtime

The runtime executes a call once, for a request that was published once, and its handles are those
of the tasks it has registered.
-/

namespace Horsie.Reconciler

open Horsie.Lib

/-- The call a message asks for. -/
def Inbound.request? : Inbound → Option (String × ℕ)
  | .request callId call => some (callId, call)
  | .cancel _ => none

namespace World

def requests (w : World) : List (String × ℕ) := w.inbound.filterMap Inbound.request?

def running (w : World) : List (String × ℕ) := w.tasks.map fun task => (task.callId, task.call)

/-- Each call is under way once, and the handles are those of every task but the one that is being
registered. -/
structure Runtime (w : World) : Prop where
  sender : ∀ x ∈ w.requests ++ w.running, ∃ c, w.calls[x.2]? = some c ∧ c.callId = x.1
  once : ((w.requests ++ w.running).map Prod.snd).Nodup
  unsent : ∀ (i : ℕ) (c : Call), w.calls[i]? = some c → c.unsent = true →
    i ∉ (w.requests ++ w.running).map Prod.snd
  spawned : ∀ x, w.spawned = some x → x ∈ w.running
  listed : ∀ x, x ∈ w.handles ↔ x ∈ w.running ∧ w.spawned ≠ some x

variable {w w' : World}

variable {i : ℕ}

theorem executes_iff : w.executes i = true ↔ ∃ callId, (callId, i) ∈ w.running := by
  unfold executes running
  simp only [List.any_eq_true, decide_eq_true_eq, List.mem_map, Prod.mk.injEq]
  refine ⟨?_, ?_⟩
  · rintro ⟨task, ht, rfl⟩
    exact ⟨task.callId, task, ht, rfl, rfl⟩
  · rintro ⟨_, task, ht, -, rfl⟩
    exact ⟨task, ht, rfl⟩

theorem Runtime.running_inj (h : w.Runtime) (hc : w.Client) {x y : String × ℕ}
    (hx : x ∈ w.running) (hy : y ∈ w.running) (hxy : x.1 = y.1) : x = y := by
  obtain ⟨c, hi, hid⟩ := h.sender x (List.mem_append_right _ hx)
  obtain ⟨d, hj, hid'⟩ := h.sender y (List.mem_append_right _ hy)
  exact Prod.ext hxy (hc.call_inj hi hj (hid.trans (hxy.trans hid'.symm)))

/-- What a step leaves alone that moves no call. -/
structure RuntimeStill (w w' : World) : Prop where
  calls : Later w.calls w'.calls
  requests : w'.requests.Sublist w.requests
  running : w'.running = w.running
  spawned : w'.spawned = w.spawned
  handles : w'.handles = w.handles

theorem Runtime.still (h : w.Runtime) (hs : RuntimeStill w w') : w'.Runtime := by
  have hsub : (w'.requests ++ w'.running).Sublist (w.requests ++ w.running) := by
    rw [hs.running]
    exact hs.requests.append (.refl _)
  refine ⟨fun x hx => ?_, h.once.sublist (hsub.map _), fun i c' hi hu hmem => ?_, ?_, ?_⟩
  · obtain ⟨c, hc, hid⟩ := h.sender x (hsub.subset hx)
    obtain ⟨c', hc', -, hid'⟩ := hs.calls.back hc
    exact ⟨c', hc', hid'.trans hid⟩
  · obtain ⟨c, hc, -, -, -, -, hunsent⟩ := hs.calls.call i c' hi
    exact h.unsent i c hc (hunsent hu) ((hsub.map Prod.snd).subset hmem)
  · rw [hs.spawned, hs.running]
    exact h.spawned
  · rw [hs.handles, hs.running, hs.spawned]
    exact h.listed

theorem Runtime.request (h : w.Runtime) (c : Call) {slots : ℕ → Slot} :
    Runtime { w with calls := w.calls ++ [c], slots := slots } := by
  have hold : ∀ {i d}, w.calls[i]? = some d → (w.calls ++ [c])[i]? = some d :=
    getElem?_snoc_of_some
  refine ⟨fun x hx => ?_, h.once, fun i d hi hu hmem => ?_, h.spawned, h.listed⟩
  · obtain ⟨d, hd, hid⟩ := h.sender x hx
    exact ⟨d, hold hd, hid⟩
  · obtain ⟨x, hx, rfl⟩ := List.mem_map.mp hmem
    obtain ⟨d', hd', -⟩ := h.sender x hx
    obtain rfl := Option.some.inj ((hold hd').symm.trans hi)
    exact h.unsent x.2 d' hd' hu hmem

variable {callId : String} {resolved : Bool}

theorem Runtime.publish (h : w.Runtime) {s : ℕ}
    (hi : w.calls[i]? = some ⟨s, callId, .registered, resolved⟩) :
    Runtime { w.setStage i .published with inbound := w.inbound ++ [.request callId i] } := by
  have hlater : Later w.calls (w.calls.modify i ({ · with stage := .published })) :=
    Later.setStage w.calls hi rfl fun _ => rfl
  have hfree := h.unsent i _ hi rfl
  have hreq : ({ w.setStage i .published with
      inbound := w.inbound ++ [.request callId i] } : World).requests =
      w.requests ++ [(callId, i)] := by
    unfold requests
    rw [List.filterMap_append]
    rfl
  have hperm : ((w.requests ++ [(callId, i)]) ++ w.running).Perm
      ((callId, i) :: (w.requests ++ w.running)) := by
    rw [List.append_assoc]
    exact List.perm_middle
  refine ⟨fun x hx => ?_, ?_, fun j c' hj hu hmem => ?_, h.spawned, h.listed⟩
  · rw [hreq] at hx
    rcases List.mem_cons.mp (hperm.mem_iff.mp hx) with rfl | hx
    · obtain ⟨c', hc', -, hid⟩ := hlater.back hi
      exact ⟨c', hc', hid⟩
    · obtain ⟨c, hc, hid⟩ := h.sender x hx
      obtain ⟨c', hc', -, hid'⟩ := hlater.back hc
      exact ⟨c', hc', hid'.trans hid⟩
  · rw [hreq]
    exact ((hperm.map Prod.snd).nodup_iff).mpr (List.nodup_cons.mpr ⟨hfree, h.once⟩)
  · rw [hreq] at hmem
    obtain ⟨c, hc, -, -, -, -, hunsent⟩ := hlater.call j c' hj
    rcases List.mem_cons.mp ((hperm.map Prod.snd).mem_iff.mp hmem) with rfl | hmem
    · obtain ⟨d, -, rfl⟩ := getElem?_modify_eq_some.mp hj
      rw [if_pos rfl] at hu
      simp [Call.unsent] at hu
    · exact h.unsent j c hc (hunsent hu) hmem

theorem Runtime.spawn (h : w.Runtime) {k : ℕ}
    (hk : w.inbound[k]? = some (.request callId i)) (hs : w.spawned = none) :
    Runtime
      { w with
        inbound := w.inbound.eraseIdx k
        tasks := w.tasks ++ [⟨callId, i, false⟩]
        spawned := some (callId, i)
        rounds := Function.update w.rounds i 0 } := by
  have hrun : ({ w with
      inbound := w.inbound.eraseIdx k
      tasks := w.tasks ++ [⟨callId, i, false⟩]
      spawned := some (callId, i)
      rounds := Function.update w.rounds i 0 } : World).running = w.running ++ [(callId, i)] := by
    unfold running
    rw [List.map_append]
    rfl
  have hperm : (w.requests ++ w.running).Perm
      ((w.inbound.eraseIdx k).filterMap Inbound.request? ++ (w.running ++ [(callId, i)])) := by
    have hreq : w.requests.Perm
        ((callId, i) :: (w.inbound.eraseIdx k).filterMap Inbound.request?) :=
      filterMap_perm_eraseIdx hk rfl
    rw [← List.append_assoc]
    exact (hreq.append_right _).trans (List.perm_append_singleton (callId, i) _).symm
  have hnew : i ∉ w.running.map Prod.snd := by
    have hnodup := ((hperm.map Prod.snd).nodup_iff).mp h.once
    simp only [List.map_append, List.map_cons, List.map_nil] at hnodup
    have hlast := (List.nodup_append.mp (List.nodup_append.mp hnodup).2.1).2.2
    exact fun hmem => hlast i hmem i (List.mem_singleton_self _) rfl
  refine ⟨?_, ?_, ?_, ?_, fun x => ?_⟩
  · rw [hrun]
    exact fun x hx => h.sender x (hperm.mem_iff.mpr hx)
  · rw [hrun]
    exact ((hperm.map Prod.snd).nodup_iff).mp h.once
  · rw [hrun]
    exact fun j c hj hu hmem => h.unsent j c hj hu (((hperm.map Prod.snd).mem_iff).mpr hmem)
  · rw [hrun]
    intro x hx
    cases hx
    exact List.mem_append_right _ (List.mem_singleton_self _)
  · rw [hrun]
    refine (h.listed x).trans ?_
    rw [hs]
    constructor
    · rintro ⟨hmem, -⟩
      refine ⟨List.mem_append_left _ hmem, fun he => hnew ?_⟩
      cases he
      exact List.mem_map_of_mem hmem
    · rintro ⟨hmem, hne⟩
      rcases List.mem_append.mp hmem with hmem | hmem
      · exact ⟨hmem, (Option.some_ne_none _).symm⟩
      · exact absurd (congrArg some (List.mem_singleton.mp hmem).symm) hne

theorem Runtime.remove (h : w.Runtime)
    (hsub : w'.requests.Sublist w.requests) (hcalls : w'.calls = w.calls)
    (hrun : w'.running.Sublist w.running) (hspawned : w'.spawned = w.spawned)
    (hhandles : w'.handles = w.handles.filter fun x => decide (x.1 ≠ callId))
    (hkept : ∀ x ∈ w.running, x.1 ≠ callId ∨ w.spawned = some x → x ∈ w'.running)
    (hgone : ∀ x ∈ w'.running, x.1 = callId → w.spawned = some x) : w'.Runtime := by
  have hcar := hsub.append hrun
  refine ⟨fun x hx => ?_, h.once.sublist (hcar.map _), ?_, fun x hx => ?_, fun x => ?_⟩
  · rw [hcalls]
    exact h.sender x (hcar.subset hx)
  · rw [hcalls]
    exact fun j c hj hu hmem => h.unsent j c hj hu ((hcar.map Prod.snd).subset hmem)
  · rw [hspawned] at hx
    exact hkept x (h.spawned x hx) (.inr hx)
  · rw [hhandles, hspawned, List.mem_filter, h.listed x, decide_eq_true_eq]
    constructor
    · rintro ⟨⟨hmem, hne⟩, hid⟩
      exact ⟨hkept x hmem (.inl hid), hne⟩
    · rintro ⟨hmem, hne⟩
      exact ⟨⟨hrun.subset hmem, hne⟩, fun hid => hne (hgone x hmem hid)⟩

theorem Runtime.init : init.Runtime where
  sender x hx := absurd hx List.not_mem_nil
  once := List.nodup_nil
  unsent i c hi := by simp [World.init] at hi
  spawned x hx := by cases hx
  listed x := by simp [World.init, running]

theorem later_judgeOne (s : ℕ) (pong : Pong) (now : ℕ) (callId : String) :
    Later w.calls (w.judgeOne s pong now callId).calls := by
  unfold World.judgeOne
  split_ifs
  · exact .refl _
  · split
    · exact .refl _
    · split_ifs
      · exact later_resolve s callId
      · exact .refl _

theorem later_register {s : ℕ}
    (hi : w.calls[i]? = some ⟨s, callId, .tracked, resolved⟩) :
    Later w.calls ((w.resolve s callId).setStage i .registered).calls := by
  obtain ⟨c, hci, hstage⟩ : ∃ c, (w.resolve s callId).calls[i]? = some c ∧
      c.stage = .tracked := by
    refine ⟨_, getElem?_resolve.mpr ⟨_, hi, rfl⟩, ?_⟩
    split_ifs <;> rfl
  exact (later_resolve s callId).trans (Later.setStage _ hci (by simp [Call.open, hstage])
    fun _ => by simp [Call.unsent, hstage])

theorem later_publish_failed {s : ℕ}
    (hi : w.calls[i]? = some ⟨s, callId, .registered, resolved⟩) :
    Later w.calls
      (((w.resolve s callId).setStage i .published).calls.modify i Call.resolve) := by
  obtain ⟨c, hci, hstage⟩ : ∃ c, (w.resolve s callId).calls[i]? = some c ∧
      c.stage = .registered := by
    refine ⟨_, getElem?_resolve.mpr ⟨_, hi, rfl⟩, ?_⟩
    split_ifs <;> rfl
  have hset : Later w.calls ((w.resolve s callId).setStage i .published).calls :=
    (later_resolve s callId).trans (Later.setStage _ hci (by simp [Call.open, hstage])
      fun _ => by simp [Call.unsent, hstage])
  exact hset.trans (Later.resolve _ i)

theorem judgeOne_runtime (s : ℕ) (pong : Pong) (now : ℕ) (callId : String) :
    RuntimeStill w (w.judgeOne s pong now callId) := by
  refine ⟨later_judgeOne s pong now callId, ?_, ?_, ?_, ?_⟩ <;>
  · unfold World.judgeOne
    split_ifs
    · rfl
    · split
      · rfl
      · split_ifs <;> rfl

theorem rounds_judgeOne (s : ℕ) (pong : Pong) (now : ℕ) (callId : String) :
    (w.judgeOne s pong now callId).rounds = w.rounds := by
  unfold World.judgeOne
  split_ifs
  · rfl
  · split
    · rfl
    · split_ifs <;> rfl

/-- `CancelCall`: the tasks that go are the registered ones under the id. -/
theorem Runtime.abort (h : w.Runtime) {k : ℕ} (hnone : w.spawned = none) :
    (World.abort { w with inbound := w.inbound.eraseIdx k } callId).Runtime := by
  have hmem : ∀ x, x ∈ List.map (fun task => (task.callId, task.call))
      (w.tasks.filter fun task => decide ((callId, task.call) ∉ w.handles)) ↔
        x ∈ w.running ∧ (callId, x.2) ∉ w.handles := by
    intro x
    simp only [running, List.mem_map, List.mem_filter, decide_eq_true_eq]
    refine ⟨?_, ?_⟩
    · rintro ⟨task, ⟨ht, hno⟩, rfl⟩
      exact ⟨⟨task, ht, rfl⟩, hno⟩
    · rintro ⟨⟨task, ht, rfl⟩, hno⟩
      exact ⟨task, ⟨ht, hno⟩, rfl⟩
  refine h.remove ((List.eraseIdx_sublist _ _).filterMap _) rfl (List.filter_sublist.map _) rfl
    rfl ?_ ?_
  · rintro x hx (hne | hx')
    · -- a task under another id has another call, and stays
      refine (hmem x).mpr ⟨hx, fun hhandle => hne ?_⟩
      obtain ⟨hrun, -⟩ := (h.listed _).mp hhandle
      obtain ⟨c, hci, hid⟩ := h.sender x (List.mem_append_right _ hx)
      obtain ⟨d, hdi, hid'⟩ := h.sender _ (List.mem_append_right _ hrun)
      cases hci.symm.trans hdi
      exact hid.symm.trans hid'
    · rw [hnone] at hx'
      cases hx'
  · intro x hx hid
    obtain ⟨hrun, hno⟩ := (hmem x).mp hx
    refine absurd ((h.listed _).mpr ⟨?_, ?_⟩) hno
    · rwa [← hid]
    · rw [hnone]
      exact (Option.some_ne_none _).symm

theorem Runtime.insertHandle (h : w.Runtime) (hc : w.Client)
    (hspawned : w.spawned = some (callId, i)) :
    Runtime
      { w with
        spawned := none
        handles := (w.handles.filter fun x => decide (x.1 ≠ callId)) ++ [(callId, i)]
        arrivals := w.arrivals ++ [callId] } := by
  have hnew := h.spawned _ hspawned
  refine ⟨h.sender, h.once, h.unsent, fun x hx => (by cases hx), fun x => ?_⟩
  have hone : x ∈ w.running → x.1 = callId → x = (callId, i) := fun hx hid =>
    h.running_inj hc hx hnew hid
  have hlisted := h.listed x
  simp only [List.mem_append, List.mem_filter, List.mem_singleton, decide_eq_true_eq]
  grind [World.running]

theorem Runtime.finish (h : w.Runtime) (hc : w.Client) {k : ℕ}
    (hk : w.tasks[k]? = some ⟨callId, i, true⟩) (hspawned : w.spawned ≠ some (callId, i)) :
    Runtime
      { w with
        tasks := w.tasks.eraseIdx k
        handles := w.handles.filter fun x => decide (x.1 ≠ callId) } := by
  have hmem : (callId, i) ∈ w.running := List.mem_map.mpr ⟨_, List.mem_of_getElem? hk, rfl⟩
  have hperm : w.running.Perm
      ((callId, i) :: (w.tasks.eraseIdx k).map fun task => (task.callId, task.call)) :=
    (perm_cons_eraseIdx hk).map _
  refine h.remove (.refl _) rfl ((List.eraseIdx_sublist _ _).map _) rfl rfl ?_ ?_
  · rintro x hx hcase
    rcases List.mem_cons.mp (hperm.mem_iff.mp hx) with rfl | hx
    · rcases hcase with hne | hx'
      · exact absurd rfl hne
      · exact absurd hx' hspawned
    · exact hx
  · intro x hx hid
    -- its task is the only one under the id
    have hnodup := h.once
    rw [List.map_append] at hnodup
    have hrunning := ((hperm.map Prod.snd).nodup_iff).mp (List.nodup_append.mp hnodup).2.1
    rw [List.map_cons, List.nodup_cons] at hrunning
    obtain rfl := h.running_inj hc (hperm.mem_iff.mpr (List.mem_cons_of_mem _ hx)) hmem hid
    exact absurd (List.mem_map_of_mem hx) hrunning.1

theorem Stepped.later {l : Label} (hs : w.Stepped l w') : (∃ s callId, l = .request s callId) ∨
    Later w.calls w'.calls := by
  cases hs with
  | request s callId => exact .inl ⟨s, callId, rfl⟩
  | register hi => exact .inr (later_register hi)
  | publish hi => exact .inr (Later.setStage w.calls hi rfl fun _ => rfl)
  | publishFailed hi => exact .inr (later_publish_failed hi)
  | untrack hi =>
    exact .inr (Later.setStage w.calls hi rfl fun hu => by simp [Call.unsent] at hu)
  | drop hopen =>
    obtain ⟨c, hi, ho⟩ := (Option.any_eq_true _ _).mp hopen
    exact .inr (Later.setStage w.calls hi ho fun hu => by simp [Call.unsent] at hu)
  | deliver s k callId => exact .inr (later_resolve s callId)
  | judge => exact .inr (later_judgeOne _ _ _ _)
  | giveUp => exact .inr (later_resolve _ _)
  | _ => exact .inr (.refl _)

theorem Runtime.step (h : w.Runtime) (hc : w.Client) {l : Label} (hg : w.careful l = true)
    (hs : w.step? l = some w') : w'.Runtime := by
  have hstep := Stepped.of_step? hs
  rcases hstep.later with ⟨s, callId, rfl⟩ | hlater
  · cases hstep with
    | request => exact h.request _
  cases hstep with
  | request => exact h.request _
  | publish hi => exact h.publish hi
  | spawn hk hnone => exact h.spawn hk hnone
  | abort _ hnone => exact h.abort hnone
  | insertHandle hspawned => exact h.insertHandle hc hspawned
  | finish hk => exact h.finish hc hk (by simpa [careful, hk] using hg)
  | refuse | loseInbound =>
    exact h.still ⟨hlater, (List.eraseIdx_sublist _ _).filterMap _, rfl, rfl, rfl⟩
  | @reply k callId i hk =>
    refine h.still ⟨hlater, .refl _, ?_, rfl, rfl⟩
    obtain ⟨hlt, hget⟩ := List.getElem?_eq_some_iff.mp hk
    refine List.ext_getElem? fun n => ?_
    simp only [running, List.getElem?_map, List.getElem?_set]
    split_ifs with hkn
    · rw [← hkn, hk]
      rfl
    · rfl
  | cancel =>
    refine h.still ⟨hlater, ?_, rfl, rfl, rfl⟩
    unfold requests
    split_ifs
    · exact .refl _
    · rw [List.filterMap_append]
      exact (List.append_nil _).symm ▸ .refl _
  | judge => exact (h.still (judgeOne_runtime _ _ _ _)).still ⟨.refl _, .refl _, rfl, rfl, rfl⟩
  | _ => exact h.still ⟨hlater, .refl _, rfl, rfl, rfl⟩

end World

end Horsie.Reconciler
