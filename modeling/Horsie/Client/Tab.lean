import Horsie.Client.Members
import Horsie.Lib.Take

/-!
# A tab beside the agents it draws

In every run of a session the client's fold of each agent's complete log agrees with the agent
exactly if every seed an agent takes brings a settled log; and every echo whose send was
acknowledged is retired if no message typed into the tab is the built-in `/compact`
(`folds_agree`). A copied log may hold a message that no turn in it took, and the copy's inbox does
not hold it; and a `/compact` is accepted under an id that no entry names (`folds_apart`).
-/

namespace Horsie.Client

open Agent Lib

/-- An echo is retired once it is not drawn any more. -/
def Room.Retired (r : Room) : Prop :=
  ∀ m, r.members[r.tab.agent]? = some m →
    ∀ o ∈ liveEchoes (fold m.world.state.log).accepted r.tab.optimistic, o.serverId = none

/-- On every agent the client's fold of the complete log agrees with the server's state. -/
def Room.Agreed (r : Room) : Prop := ∀ m ∈ r.members, Client.Agreed m.world.state

/-- Whether a seed that this step takes, if any, brings a settled log. -/
def Room.settles (r : Room) : Happening → Bool
  | .agent i l => r.members[i]?.all (·.settles l)
  | .spawn _ | .view _ | .send _ _ _ | .answer _ | .fail _ => true

/-- Whether a message typed into the tab is not the built-in `/compact`. -/
def Happening.speaks : Happening → Bool
  | .send text _ _ => decide (Session.invoked (trim text) ≠ some "compact")
  | .spawn _ | .agent _ _ | .view _ | .answer _ | .fail _ => true

/-! ## The agents -/

/-- What holds of a session after every step: its agents are sound, and the snapshots it was
answered bring nothing in flight. -/
structure Room.Sound (r : Room) : Prop where
  members : ∀ m ∈ r.members, m.Sound
  snapshots : ∀ st ∈ r.snapshots, st.inbox = [] ∧ st.asks = []

variable {r r' : Room} {l : Happening}

theorem Room.Sound.tame (h : r.Sound) {c : AgentCommand} (hc : r.MayTell c) : Tame c := by
  cases c with
  | log c => cases c <;> exact hc
  | seed c =>
    cases c with
    | snapshot => trivial
    | seedFrom st seed message =>
      rcases hc with rfl | hc
      · exact ⟨rfl, rfl⟩
      · exact h.snapshots st hc
  | queue | run | timer | taskList | read | shutdown => trivial

theorem Member.snapshots_bare (m : Member) (l : Label) :
    ∀ st ∈ m.snapshots l, st.inbox = [] ∧ st.asks = [] := by
  intro st hst
  unfold Member.snapshots at hst
  split at hst
  · obtain rfl := List.mem_singleton.mp hst
    exact ⟨rfl, rfl⟩
  · obtain rfl := List.mem_singleton.mp hst
    exact ⟨rfl, rfl⟩
  · cases hst

variable {i : ℕ} {m : Member} {w : World}

theorem Room.Sound.put (h : r.Sound)
    (hw : Member.Sound { m with world := w }) : (r.put i m w).Sound := by
  refine ⟨fun m' hm' => ?_, h.snapshots⟩
  rcases List.mem_or_eq_of_mem_set hm' with hm' | rfl
  · exact h.members m' hm'
  · exact hw

/-- The message that is queued for an agent is a step of the agent. -/
theorem tell_step (hs : m.world.stopped = false) (item : Incoming) :
    World.Step m.kind.params m.world (.send (.queue (.enqueue item true)))
      (m.world.tell ⟨.client, .queue (.enqueue item true)⟩) := .send hs rfl

theorem Room.Sound.step (h : r.Sound) (hs : Room.Step r l r') : r'.Sound := by
  cases hs with
  | @spawn kind =>
    refine ⟨List.forall_mem_append.mpr ⟨h.members, fun m hm => ?_⟩, h.snapshots⟩
    rw [List.mem_singleton.mp hm]
    exact sound_boot kind
  | @agent i m l w hm hc hs =>
    have hput : (r.put i m w).Sound :=
      h.put ((h.members m (List.mem_of_getElem? hm)).step (fun c hmem => h.tame (hc c hmem)) hs)
    exact ⟨hput.members, List.forall_mem_append.mpr ⟨h.snapshots, m.snapshots_bare l⟩⟩
  | @send m text artifacts id hm hs hid =>
    have hecho : ∀ item, (r.echo text artifacts item).Sound := fun item =>
      ⟨h.members, h.snapshots⟩
    unfold Room.post
    split
    · exact hecho none
    · rename_i item _
      refine (hecho (some item)).put
        ((h.members m (List.mem_of_getElem? hm)).step (fun c hmem => ?_) (tell_step hs item))
      rw [List.mem_singleton.mp hmem]
      trivial
  | view | answer | fail => exact ⟨h.members, h.snapshots⟩

theorem sound (hr : roomSystem.Reachable r) : r.Sound := by
  refine hr.invariant (fun s hs => ?_) fun s l t _ h hs => h.step hs
  rw [show s = Room.start from hs]
  exact ⟨fun m hm => absurd hm List.not_mem_nil, fun st hst => absurd hst List.not_mem_nil⟩

/-! ## The agreement -/

theorem agreed_put (h : r.Agreed)
    (hm : r.members[i]? = some m) : (r.put i m w).Agreed ↔ Agreed w.state := by
  constructor
  · intro hput
    obtain ⟨hlt, -⟩ := List.getElem?_eq_some_iff.mp hm
    exact hput { m with world := w } (List.mem_set hlt _)
  · intro hw m' hm'
    rcases List.mem_or_eq_of_mem_set hm' with hm' | rfl
    · exact h m' hm'
    · exact hw

theorem agreed_room (hr : roomSystem.Reachable r) (h : r.Agreed) (hs : Room.Step r l r') :
    r'.Agreed ↔ r.settles l = true := by
  cases hs with
  | @spawn kind =>
    refine iff_of_true (List.forall_mem_append.mpr ⟨h, fun m hm => ?_⟩) rfl
    rw [List.mem_singleton.mp hm]
    exact agreed_initial
  | @agent i m l w hm hc hs =>
    have hmem := List.mem_of_getElem? hm
    have hsettles : r.settles (.agent i l) = m.settles l := by simp [Room.settles, hm]
    rw [hsettles]
    exact (agreed_put h hm).trans (agreed_step ((sound hr).members m hmem) (h m hmem) hs)
  | @send m text artifacts id hm hs hid =>
    refine iff_of_true ?_ rfl
    unfold Room.post
    split
    · exact h
    · rename_i item _
      have hecho : (r.echo text artifacts (some item)).Agreed := h
      exact (agreed_put hecho hm).mpr (h m (List.mem_of_getElem? hm))
  | view | answer | fail => exact iff_of_true h rfl

/-! ## The echoes -/

/-- What holds of the echoes while no `/compact` is typed. -/
structure Room.Drawn (r : Room) : Prop where
  echoes : ∀ o ∈ r.tab.optimistic, o.id < r.optimisticSeq
  sent : ∀ q ∈ r.requests, q.echo < r.optimisticSeq
  agent : ∀ q ∈ r.requests, ∀ o ∈ r.tab.optimistic, o.id = q.echo → q.agent = r.tab.agent
  spoken : ∀ q ∈ r.requests, ∀ item, q.item = some item →
    ∃ id text artifacts, item = .user id text artifacts ∧ id ≠ ""
  acked : ∀ o ∈ r.tab.optimistic, ∀ id, o.serverId = some id →
    id ≠ "" ∧ ∃ m, r.members[r.tab.agent]? = some m ∧ id ∈ (fold m.world.state.log).accepted

theorem Room.Drawn.retired (h : r.Drawn) : r.Retired := by
  intro m hm o ho
  obtain ⟨hmem, hlive⟩ := List.mem_filter.mp ho
  cases hid : o.serverId with
  | none => rfl
  | some id =>
    obtain ⟨hne, m', hm', hacc⟩ := h.acked o hmem id hid
    cases hm.symm.trans hm'
    simp [hid, hne, hacc] at hlive

theorem Room.Drawn.put (h : r.Drawn)
    (hm : r.members[i]? = some m)
    (hsub : (fold m.world.state.log).accepted ⊆ (fold w.state.log).accepted) :
    (r.put i m w).Drawn := by
  refine ⟨h.echoes, h.sent, h.agent, h.spoken, fun o ho id hid => ?_⟩
  obtain ⟨hne, m', hm', hacc⟩ := h.acked o ho id hid
  refine ⟨hne, ?_⟩
  show ∃ m'', (r.members.set i { m with world := w })[r.tab.agent]? = some m'' ∧ _
  by_cases hi : r.tab.agent = i
  · rw [hi, hm] at hm'
    cases hm'
    exact ⟨{ m with world := w },
      by rw [hi, List.getElem?_set_self (List.getElem?_eq_some_iff.mp hm).1], hsub hacc⟩
  · exact ⟨m', by rw [List.getElem?_set_ne (Ne.symm hi), hm'], hacc⟩

/-- A message that is no `/compact` is queued as what a person said, or makes a branch. -/
theorem incoming_spoken {id text : String} {artifacts : List ArtifactRef} {item : Incoming}
    (hspeaks : Session.invoked (trim text) ≠ some "compact")
    (h : Room.incoming id text artifacts = some item) : item = .user id text artifacts := by
  unfold Room.incoming at h
  split at h
  · cases h
  · rw [Session.SessionState.queuedMessage, if_neg hspeaks] at h
    exact (Option.some.inj h).symm

theorem mem_reducer_remove {os : List Echo} {k : ℕ} {o : Echo}
    (h : o ∈ reducer os (.removeOptimistic k)) : o ∈ os := List.mem_of_mem_filter h

theorem mem_reducer_ack {os : List Echo} {k : ℕ} {serverId : String} {o : Echo}
    (h : o ∈ reducer os (.ackOptimistic k serverId)) :
    ∃ o' ∈ os, o.id = o'.id ∧
      (o.serverId = o'.serverId ∨ o'.id = k ∧ o.serverId = some serverId) := by
  obtain ⟨o', ho', heq⟩ := List.mem_map.mp h
  refine ⟨o', ho', ?_⟩
  split_ifs at heq with hk
  · obtain rfl := heq
    exact ⟨rfl, .inr ⟨hk, rfl⟩⟩
  · obtain rfl := heq
    exact ⟨rfl, .inl rfl⟩

theorem Room.Drawn.step (hr : roomSystem.Reachable r) (h : r.Drawn) (hspeaks : l.speaks = true)
    (hs : Room.Step r l r') : r'.Drawn := by
  have hsound := sound hr
  cases hs with
  | spawn =>
    refine ⟨h.echoes, h.sent, h.agent, h.spoken, fun o ho id hid => ?_⟩
    obtain ⟨hne, m, hm, hacc⟩ := h.acked o ho id hid
    exact ⟨hne, m, getElem?_snoc_of_some hm, hacc⟩
  | @agent i m l w hm hc hs =>
    have hput := h.put hm ((hsound.members m (List.mem_of_getElem? hm)).accepted_step hs)
    exact ⟨hput.echoes, hput.sent, hput.agent, hput.spoken, hput.acked⟩
  | view =>
    exact ⟨fun o ho => absurd ho List.not_mem_nil, h.sent,
      fun q _ o ho => absurd ho List.not_mem_nil, h.spoken, fun o ho => absurd ho List.not_mem_nil⟩
  | @send m text artifacts id hm hs hid =>
    have hspeaks : Session.invoked (trim text) ≠ some "compact" := by
      simpa [Happening.speaks] using hspeaks
    have hsent : (r.echo text artifacts (Room.incoming id text artifacts)).Drawn := by
      refine ⟨?_, ?_, ?_, ?_, ?_⟩
      · refine List.forall_mem_append.mpr ⟨fun o ho => ?_, fun o ho => ?_⟩
        · exact (h.echoes o ho).trans (Nat.lt_succ_self _)
        · rw [List.mem_singleton.mp ho]
          exact Nat.lt_succ_self _
      · refine List.forall_mem_append.mpr ⟨fun q hq => ?_, fun q hq => ?_⟩
        · exact (h.sent q hq).trans (Nat.lt_succ_self _)
        · rw [List.mem_singleton.mp hq]
          exact Nat.lt_succ_self _
      · refine List.forall_mem_append.mpr ⟨fun q hq => ?_, fun q hq => ?_⟩
        · refine List.forall_mem_append.mpr ⟨h.agent q hq, fun o ho heq => ?_⟩
          rw [List.mem_singleton.mp ho] at heq
          have hlt := h.sent q hq
          rw [← heq] at hlt
          exact absurd hlt (Nat.lt_irrefl _)
        · rw [List.mem_singleton.mp hq]
          exact fun o _ _ => rfl
      · refine List.forall_mem_append.mpr ⟨h.spoken, fun q hq item hitem => ?_⟩
        rw [List.mem_singleton.mp hq] at hitem
        exact ⟨id, text, artifacts, incoming_spoken hspeaks hitem, hid⟩
      · refine List.forall_mem_append.mpr ⟨h.acked, fun o ho id' hid' => ?_⟩
        rw [List.mem_singleton.mp ho] at hid'
        cases hid'
    unfold Room.post
    split
    · rename_i hitem
      rwa [hitem] at hsent
    · rename_i item hitem
      rw [hitem] at hsent
      exact hsent.put hm (List.Subset.refl _)
  | @answer k q hk hq =>
    have hmem := List.mem_of_getElem? hk
    have hrest : ∀ q' ∈ r.requests.eraseIdx k, q' ∈ r.requests := fun q' hq' =>
      List.mem_of_mem_eraseIdx hq'
    unfold Room.settle
    cases hitem : q.item with
    | none =>
      exact ⟨fun o ho => h.echoes o (mem_reducer_remove ho), fun q' hq' => h.sent q' (hrest q' hq'),
        fun q' hq' o ho => h.agent q' (hrest q' hq') o (mem_reducer_remove ho),
        fun q' hq' => h.spoken q' (hrest q' hq'), fun o ho => h.acked o (mem_reducer_remove ho)⟩
    | some item =>
      refine ⟨fun o ho => ?_, fun q' hq' => h.sent q' (hrest q' hq'), fun q' hq' o ho heq => ?_,
        fun q' hq' => h.spoken q' (hrest q' hq'), fun o ho id hid => ?_⟩
      · obtain ⟨o', ho', hid, -⟩ := mem_reducer_ack ho
        rw [hid]
        exact h.echoes o' ho'
      · obtain ⟨o', ho', hid, -⟩ := mem_reducer_ack ho
        exact h.agent q' (hrest q' hq') o' ho' (hid.symm.trans heq)
      · obtain ⟨o', ho', -, hserver | ⟨hecho, hserver⟩⟩ := mem_reducer_ack ho
        · exact h.acked o' ho' id (hserver ▸ hid)
        · -- The echo this answer is for: its agent has the message in its journal.
          obtain ⟨mid, text, artifacts, rfl, hne⟩ := h.spoken q hmem item hitem
          obtain rfl : mid = id := Option.some.inj (hserver.symm.trans hid)
          have hagent := h.agent q hmem o' ho' hecho
          simp only [Room.answered, hitem, Option.any_eq_true] at hq
          obtain ⟨m, hm, hreceived⟩ := hq
          obtain ⟨t, ht⟩ := m.received_of_hasReceived hreceived
          exact ⟨hne, m, hagent ▸ hm,
            (hsound.members m (List.mem_of_getElem? hm)).accepted _ _ _ _ ht⟩
  | @fail k q hk =>
    have hrest : ∀ q' ∈ r.requests.eraseIdx k, q' ∈ r.requests := fun q' hq' =>
      List.mem_of_mem_eraseIdx hq'
    exact ⟨fun o ho => h.echoes o (mem_reducer_remove ho), fun q' hq' => h.sent q' (hrest q' hq'),
      fun q' hq' o ho => h.agent q' (hrest q' hq') o (mem_reducer_remove ho),
      fun q' hq' => h.spoken q' (hrest q' hq'), fun o ho => h.acked o (mem_reducer_remove ho)⟩

/-! ## Both -/

/-- In every run of a session the client's fold of each agent's complete log shows the agent's
queue, questions and task list exactly if each seed an agent takes brings a settled log; and every
acknowledged echo is retired if no message typed into the tab is the built-in `/compact`. -/
theorem folds_agree {tr : List (Room × Happening × Room)}
    (h : roomSystem.Exec Room.start tr r) :
    ((∀ x ∈ tr, x.2.2.Agreed) ↔ ∀ x ∈ tr, x.1.settles x.2.1 = true) ∧
      ((∀ x ∈ tr, x.2.1.speaks = true) → ∀ x ∈ tr, x.2.2.Retired) := by
  have hstart : roomSystem.Reachable Room.start := .init rfl
  refine ⟨?_, fun hspeaks x hx => ?_⟩
  · exact h.forall_iff (G := fun r l => r.settles l = true)
      (fun _ _ _ hr hagreed hs => agreed_room hr hagreed hs) hstart
      fun m hm => absurd hm List.not_mem_nil
  · have hdrawn : Room.start.Drawn :=
      ⟨fun o ho => absurd ho List.not_mem_nil, fun q hq => absurd hq List.not_mem_nil,
        fun q hq => absurd hq List.not_mem_nil, fun q hq => absurd hq List.not_mem_nil,
        fun o ho => absurd ho List.not_mem_nil⟩
    have hstep : ∀ s l t, roomSystem.Reachable s → s.Drawn → Happening.speaks l = true →
        Room.Step s l t → t.Drawn := fun s l t hr hd hl hs => hd.step hr hl hs
    have hbefore := h.guarded_mem (G := fun _ l => Happening.speaks l = true) hstep hstart hdrawn
      hspeaks hx
    exact (hstep _ _ _ (h.step_mem hstart x hx).1 hbefore.1 (hspeaks x hx) hbefore.2).retired

/-! ## Runs -/

/-- What a handler reads at `now`, with ids of that moment. -/
def envAt (now : ℕ) : Env where
  now := now
  messageId := "message-" ++ toString now
  abortedId := "aborted"
  timerId := "timer"
  hasStartHooks := false

/-- A session whose main agent answers "hi". -/
def greeted : List Happening :=
  [.spawn .main, .agent 0 (.load (envAt 0) true []), .send "hi" [] "m0",
    .agent 0 (.handle (envAt 1)), .answer 0, .agent 0 (.handle (envAt 2))]

def greetedLog : List AgentLogEntry :=
  [⟨0, 1, .lifecycle (.messageQueued "m0" "hi")⟩,
    ⟨1, 2, .lifecycle (.turnBegan ["m0"] [])⟩,
    ⟨2, 2, .llm ((AgentInput.userMessage ⟨"message-2", "hi", [], []⟩).toMessage 2)⟩]

def branched (log : List AgentLogEntry) : List Happening :=
  [.agent 0 (.send (.seed (.snapshot log.length))), .agent 0 (.handle (envAt 4)),
    .spawn .subSession, .agent 1 (.load (envAt 5) true []),
    .agent 1 (.send (.seed (.seedFrom
      { AgentState.initial with log := log, nextSeq := log.length } none
      (.user "sub_session-message:s" "go" [])))),
    .agent 1 (.handle (envAt 6))]

def branchRun : List Happening := greeted ++ branched greetedLog

theorem folds_agree_branch :
    ∃ tr r, roomSystem.Exec Room.start tr r ∧ tr.map (·.2.1) = branchRun ∧
      (∀ x ∈ tr, x.2.2.Agreed) ∧ ∀ x ∈ tr, x.2.2.Retired := by
  let r := (System.steps? (System.guarded?
    (fun r l => r.settles l = true ∧ Happening.speaks l = true) Room.step?) Room.start
    branchRun).get (by decide +kernel)
  obtain ⟨tr, htr, hls, hg⟩ := System.exec_of_guarded? (M := roomSystem)
    (G := fun r l => r.settles l = true ∧ Happening.speaks l = true)
    (fun r l r' _ h => Room.step?_sound r l r' h) (Option.some_get _).symm
  obtain ⟨hagree, hretire⟩ := folds_agree htr
  exact ⟨tr, r, htr, hls, hagree.mpr fun x hx => (hg x hx).1, hretire fun x hx => (hg x hx).2⟩

/-- Branched off with a message in the queue that the turn in flight did not take: a second message
is queued, the snapshot holds it and the copy's inbox does not. -/
def copyRun : List Happening :=
  greeted ++
    [Happening.send "and this" [] "m1", .agent 0 (.handle (envAt 3)),
      .agent 0 (.handle (envAt 3))] ++
    branched (greetedLog ++ [⟨3, 3, .lifecycle (.messageQueued "m1" "and this")⟩])

/-- A `/compact` that the agent has taken and the session accepted. -/
def compactRun : List Happening :=
  [.spawn .main, .agent 0 (.load (envAt 0) true []), .send "/compact" [] "m0",
    .agent 0 (.handle (envAt 1)), .answer 0]

/-- The copy shows a message as queued that its agent does not hold, and the echo of a `/compact`
stays though it was accepted and journaled. -/
theorem folds_apart :
    (∃ tr r, roomSystem.Exec Room.start tr r ∧ tr.map (·.2.1) = copyRun ∧ ¬ r.Agreed) ∧
      ∃ tr r, roomSystem.Exec Room.start tr r ∧ tr.map (·.2.1) = compactRun ∧ ¬ r.Retired := by
  constructor
  · have hrun : ((System.steps? Room.step? Room.start copyRun).map fun r =>
        r.members.map fun m => decide (Agreed m.world.state)) = some [true, false] := by
      decide +kernel
    obtain ⟨r, hr, hvals⟩ := Option.map_eq_some_iff.mp hrun
    obtain ⟨tr, htr, hls⟩ := System.exec_of_steps? (M := roomSystem) Room.step?_sound hr
    refine ⟨tr, r, htr, hls, fun h => ?_⟩
    have hall : ∀ b ∈ r.members.map fun m => decide (Agreed m.world.state), b = true := by
      intro b hb
      obtain ⟨m, hm, rfl⟩ := List.mem_map.mp hb
      exact decide_eq_true (h m hm)
    rw [hvals] at hall
    exact absurd (hall false (by simp)) (by decide)
  · have hrun : ((System.steps? Room.step? Room.start compactRun).map fun r =>
        r.members.map fun m =>
          (liveEchoes (fold m.world.state.log).accepted r.tab.optimistic, r.tab.agent)) =
        some [([⟨0, "/compact", [], some "m0"⟩], 0)] := by
      decide +kernel
    obtain ⟨r, hr, hvals⟩ := Option.map_eq_some_iff.mp hrun
    obtain ⟨tr, htr, hls⟩ := System.exec_of_steps? (M := roomSystem) Room.step?_sound hr
    refine ⟨tr, r, htr, hls, fun h => ?_⟩
    obtain ⟨m, hm, hdrawn⟩ := List.map_eq_singleton_iff.mp hvals
    obtain ⟨hlive, hagent⟩ := Prod.mk.inj hdrawn
    have hnone := h m (by rw [hm, hagent]; rfl) ⟨0, "/compact", [], some "m0"⟩
      (hlive ▸ List.mem_singleton_self _)
    cases hnone

end Horsie.Client
