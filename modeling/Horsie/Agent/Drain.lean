import Horsie.Agent.RunEnd

/-!
# The queue is attended to

A queue is attended to while the agent is busy or not ready, while it starts no turn, or while the
agent has told itself to drain. Every handler leaves it so except the few that end a turn and do
not look at the queue again (`Skipping`), and loading a ready agent over a queue that starts a
turn does not either, unless the agent re-drives itself.
-/

namespace Horsie.Agent

def AgentCommand.isDrain : AgentCommand → Bool
  | .queue .drain => true
  | .queue (.enqueue _ _) | .queue (.answer _) | .queue (.startPrepared _) | .run _ | .timer _
  | .taskList _ | .read | .log _ | .seed _ | .shutdown => false

/-- What a run or a reload sends as progress leaves the queue alone. -/
def Mail.Plain (m : Mail) : Prop :=
  ∀ es, m.cmd = .run (.persistProgress es) → ∀ e ∈ es, e.queues = false

namespace AgentActor

variable {a b : AgentActor} {params : AgentParams} {env : Env} {state s : AgentState}

theorem settled_congr (hb : b.busy = a.busy) (hr : b.ready = a.ready) (hi : s.inbox = state.inbox)
    (ha : s.asks = state.asks) : b.Settled s ↔ a.Settled state := by
  unfold Settled
  rw [hb, hr, hi, ha]

/-- An effect that leaves the turn, the readiness and the queue of the actor as they were. -/
structure Still (a : AgentActor) (e : Effect) : Prop where
  busy : e.actor.busy = a.busy
  ready : e.actor.ready = a.ready
  events : ∀ x ∈ e.events, x.queues = false

variable {e : Effect}

theorem Still.settled (h : Still a e) :
    e.actor.Settled (state.applyAll e.events) ↔ a.Settled state :=
  have hq := state.applyAll_of_not_queues h.events
  settled_congr h.busy h.ready hq.1 hq.2

theorem hookEvents_not_queues (state : AgentState) (records : List HookRecord) (now : ℕ) :
    ∀ e ∈ hookEvents state records now, e.queues = false := by
  intro e he
  obtain ⟨i, hi, rfl⟩ := List.mem_mapIdx.mp he
  rfl

/-! ## The end of a run -/

/-- The ends of a run that do not look at the queue again: a failure, reported or not, and a
contradiction that finds the nudges spent. -/
def Skips (state : AgentState) : RunOutcome → Prop
  | .failed _ _ | .alreadyReported => True
  | .stopped calls => Contradictory calls ∧ maxResultNudges ≤ state.nudges
  | .completed _ | .cancelled => False

variable {outcome : RunOutcome}

theorem skips_still (h : Skips state outcome) :
    Still a (a.concludeRun params env state outcome) := by
  cases outcome with
  | failed | alreadyReported => exact ⟨rfl, rfl, fun x hx => absurd hx List.not_mem_nil⟩
  | completed | cancelled => exact absurd h id
  | stopped calls =>
    have hspent := (satAdd_nudges state.nudges).mpr h.2
    rw [concludeRun, stopped, interpret_contradiction h.1]
    simp only [correctContradiction]
    rw [contradictionEvents_nudges, if_pos hspent]
    exact ⟨rfl, rfl, contradictionEvents_queues calls env.now⟩

theorem settled_of_tryDrain (h : (a.tryDrain env state).events.isEmpty = true) :
    a.Settled state := by
  have := a.tryDrain_settled env state
  rwa [(a.tryDrain_events_isEmpty env state).mp h] at this

theorem park_settled (h : (a.tryDrain env state).events.isEmpty = true) :
    (a.park env).actor.Settled (state.applyAll (a.park env).events) :=
  have hstill : Still a (a.park env) :=
    ⟨rfl, rfl, fun _ hx => List.mem_singleton.mp hx ▸ rfl⟩
  hstill.settled.mpr (settled_of_tryDrain h)

theorem persistMaybeSnapshot_settled :
    (persistMaybeSnapshot e).actor.Settled s ↔ e.actor.Settled s := by
  unfold persistMaybeSnapshot
  split_ifs <;> exact Iff.rfl

theorem endedWithoutResult_settled (a : AgentActor) (env : Env) (state : AgentState) :
    (a.endedWithoutResult env state).actor.Settled
      (state.applyAll (a.endedWithoutResult env state).events) := by
  unfold endedWithoutResult
  dsimp only
  split_ifs with hdrained
  · rw [persistMaybeSnapshot_events, persistMaybeSnapshot_settled]
    exact a.tryDrain_settled env state
  · exact park_settled (by simpa using hdrained)
  · exact settled_of_tryDrain (by simpa using hdrained)
  · exact thenDrain_settled _ env state _ _
  · exact a.thenDrain_settled env state _ _

theorem completed_settled (a : AgentActor) (params : AgentParams) (env : Env) (state : AgentState)
    (text : String) :
    (a.completed params env state text).actor.Settled
      (state.applyAll (a.completed params env state text).events) := by
  unfold completed
  dsimp only
  split_ifs with _ hdrained hpark
  · exact a.endedWithoutResult_settled env state
  · rw [persistMaybeSnapshot_events, persistMaybeSnapshot_settled]
    exact a.tryDrain_settled env state
  · rw [Bool.and_eq_true] at hpark
    exact park_settled (by simpa [hpark.1] using hdrained)
  · rw [persistMaybeSnapshot_events, persistMaybeSnapshot_settled]
    exact a.tryDrain_settled env state

theorem stopped_settled {calls : List StoppedCall} (h : ¬ Skips state (.stopped calls)) :
    (a.stopped env state calls).actor.Settled
      (state.applyAll (a.stopped env state calls).events) := by
  unfold stopped
  by_cases hc : Contradictory calls
  · have hleft : ¬ satAdd 32 state.nudges 1 > maxResultNudges := fun hspent =>
      h ⟨hc, (satAdd_nudges _).mp hspent⟩
    simp only [interpret_contradiction hc, correctContradiction, contradictionEvents_nudges,
      if_neg hleft]
    exact a.thenDrain_settled env state _ _
  · rcases interpret_of_not hc with ⟨v, hv⟩ | ⟨asks, hasks⟩
    · simp only [hv]
      rw [persistMaybeSnapshot_events, persistMaybeSnapshot_settled]
      exact a.thenDrain_settled env state _ _
    · simp only [hasks]
      exact a.thenDrain_settled env state _ _

theorem concludeRun_settled (h : ¬ Skips state outcome) :
    (a.concludeRun params env state outcome).actor.Settled
      (state.applyAll (a.concludeRun params env state outcome).events) := by
  cases outcome with
  | completed text => exact a.completed_settled params env state text
  | stopped calls => exact stopped_settled h
  | cancelled => exact a.thenDrain_settled env state _ _
  | failed | alreadyReported => exact absurd trivial h

/-! ## Every handler -/

/-- The commands whose handler ends a turn and does not look at the queue again. -/
def Skipping (a : AgentActor) (state : AgentState) : AgentCommand → Prop
  | .run (.runFinished report) => a.runId = some report.runId ∧ Skips state report.outcome
  | .queue (.startPrepared prepared) => prepared.abandon.isSome = true
  | .queue (.enqueue _ _) | .queue (.answer _) | .queue .drain | .run (.cancel _)
  | .run (.persistProgress _) | .timer _ | .taskList _ | .read | .log _ | .seed _ | .shutdown =>
    False

/-- What a handler that is not `Skipping` does about the queue: it settles it, tells the actor to
drain, or touches nothing the queue's turn depends on. -/
theorem handleCommand_attends {cmd : AgentCommand}
    (hplain : ∀ es, cmd = .run (.persistProgress es) → ∀ e ∈ es, e.queues = false)
    (hskip : ¬ a.Skipping state cmd) :
    let e := a.handleCommand params env state cmd
    e.actor.Settled (state.applyAll e.events) ∨ .queue .drain ∈ e.tells ∨
      cmd.isDrain = false ∧ Still a e := by
  have hstill : ∀ {e : Effect}, e.actor = a → e.events = [] → Still a e := fun h he =>
    ⟨by rw [h], by rw [h], by simp [he]⟩
  cases cmd with
  | queue c =>
    cases c with
    | enqueue item ack => exact .inr (.inl (List.mem_singleton_self _))
    | drain => exact .inl (a.tryDrain_settled env state)
    | answer answers =>
      simp only [handleCommand, handleQueue]
      split_ifs
      · exact .inr (.inr ⟨rfl, hstill rfl rfl⟩)
      · split
        · exact .inl (.inl (a.beginTurn_busy env state _))
        · exact .inr (.inr ⟨rfl, hstill rfl rfl⟩)
    | startPrepared prepared =>
      have hnone : prepared.abandon = none := by simpa [Skipping] using hskip
      refine .inl (.inl ?_)
      simp only [handleCommand, handleQueue, startPrepared, hnone]
      rfl
  | run c =>
    cases c with
    | cancel ack =>
      refine .inr (.inr ⟨rfl, ?_⟩)
      simp only [handleCommand, handleRun]
      cases hrun : a.running with
      | none => exact hstill rfl rfl
      | some run => exact ⟨by simp [busy, hrun], rfl, fun x hx => absurd hx List.not_mem_nil⟩
    | persistProgress events => exact .inr (.inr ⟨rfl, rfl, rfl, hplain events rfl⟩)
    | runFinished report =>
      simp only [handleCommand, handleRun, handleFinished]
      split_ifs with hrun
      · exact .inl (concludeRun_settled fun h => hskip ⟨hrun, h⟩)
      · exact .inr (.inr ⟨rfl, hstill rfl rfl⟩)
  | timer c =>
    cases c with
    | armTimer label message kind secs =>
      exact .inr (.inr ⟨rfl, rfl, rfl, fun x hx => List.mem_singleton.mp hx ▸ rfl⟩)
    | listTimers => exact .inr (.inr ⟨rfl, hstill rfl rfl⟩)
    | cancelTimer selector =>
      refine .inr (.inr ⟨rfl, rfl, rfl, fun x hx => ?_⟩)
      simp only [handleCommand, handleTimer] at hx
      split_ifs at hx
      · cases hx
      · exact List.mem_singleton.mp hx ▸ rfl
    | timerFired id =>
      simp only [handleCommand, handleTimer, handleTimerFired]
      split
      · exact .inr (.inr ⟨rfl, hstill rfl rfl⟩)
      · exact .inl (a.thenDrain_settled env state _ [])
  | taskList action =>
    refine .inr (.inr ⟨rfl, ?_⟩)
    simp only [handleCommand, handleTaskList]
    split
    · exact ⟨rfl, rfl, fun x hx => List.mem_singleton.mp hx ▸ rfl⟩
    · exact hstill rfl rfl
  | read => exact .inr (.inr ⟨rfl, hstill rfl rfl⟩)
  | log c =>
    cases c with
    | recordLifecycle event atMs =>
      simp only [handleCommand, handleLog]
      split_ifs with hmoved
      · cases hm : a.moved event with
        | none =>
          exact .inr (.inr ⟨rfl, rfl, rfl, fun x hx => List.mem_singleton.mp hx ▸ rfl⟩)
        | some ready =>
          -- the runtime went away, and a queue waits for it to come back
          have hfalse : ready = false := by
            rw [hm] at hmoved
            simpa using hmoved
          exact .inl (.inr (.inl hfalse))
      · exact .inl (thenDrain_settled _ env state _ _)
    | recordDelta text => exact .inr (.inr ⟨rfl, rfl, rfl, fun x hx => absurd hx List.not_mem_nil⟩)
    | hooksRan records => exact .inr (.inr ⟨rfl, rfl, rfl, hookEvents_not_queues _ _ _⟩)
  | seed c =>
    cases c with
    | snapshot atSeq => exact .inr (.inr ⟨rfl, hstill rfl rfl⟩)
    | seedFrom seeded seed message =>
      simp only [handleCommand, handleSeed]
      split_ifs
      all_goals exact .inr (.inl (List.mem_singleton_self _))
  | shutdown => exact .inr (.inr ⟨rfl, hstill rfl rfl⟩)

/-- What a `Skipping` handler leaves: an actor with no turn in flight, as ready as before, over
the queue it found. -/
structure Skipped (a : AgentActor) (state : AgentState) (e : Effect) : Prop where
  tells : e.tells = []
  busy : e.actor.busy = false
  ready : e.actor.ready = a.ready
  inbox : (state.applyAll e.events).inbox = state.inbox
  asks : (state.applyAll e.events).asks = state.asks

theorem Still.skipped (h : Still b e) (ht : e.tells = []) (hb : b.busy = false)
    (hr : b.ready = a.ready) : Skipped a state e :=
  have hq := state.applyAll_of_not_queues h.events
  ⟨ht, h.busy.trans hb, h.ready.trans hr, hq.1, hq.2⟩

theorem skips_tells (h : Skips state outcome) :
    (a.concludeRun params env state outcome).tells = [] := by
  cases outcome with
  | failed | alreadyReported => rfl
  | completed | cancelled => exact absurd h id
  | stopped calls =>
    have hspent := (satAdd_nudges state.nudges).mpr h.2
    rw [concludeRun, stopped, interpret_contradiction h.1]
    simp only [correctContradiction]
    rw [contradictionEvents_nudges, if_pos hspent]
    rfl

theorem startPrepared_skips {prepared : PreparedStart} (hab : prepared.abandon.isSome = true)
    (hrun : a.runId = none) :
    Skipped a state (a.handleQueue env state (.startPrepared prepared)) := by
  obtain ⟨abandon, habandon⟩ := Option.isSome_iff_exists.mp hab
  have hstill : Still { a with preparing := false }
      (startPrepared { a with preparing := false } env state prepared) := by
    simp only [startPrepared, habandon]
    exact ⟨rfl, rfl, hookEvents_not_queues state prepared.records env.now⟩
  refine hstill.skipped ?_ (busy_eq_false.mpr ⟨hrun, rfl⟩) rfl
  simp only [startPrepared, habandon]

theorem handleFinished_skips {report : RunReport} (hid : a.runId = some report.runId)
    (hprep : a.preparing = false) (hskips : Skips state report.outcome) :
    Skipped a state (a.handleFinished params env state report) := by
  have hb : ({ a with running := none, cancelAcks := 0 } : AgentActor).busy = false := by
    simp [busy, hprep]
  have hskipped : Skipped a state (concludeRun { a with running := none, cancelAcks := 0 } params
      env state report.outcome) := (skips_still hskips).skipped (skips_tells hskips) hb rfl
  unfold handleFinished
  rw [if_pos hid]
  exact ⟨hskipped.tells, hskipped.busy, hskipped.ready, hskipped.inbox, hskipped.asks⟩

theorem handleCommand_skips {cmd : AgentCommand} (hskip : a.Skipping state cmd)
    (hprep : ∀ p, cmd = .queue (.startPrepared p) → a.runId = none)
    (hrun : a.runId.isSome = true → a.preparing = false) :
    Skipped a state (a.handleCommand params env state cmd) := by
  cases cmd with
  | queue c =>
    cases c with
    | startPrepared prepared => exact startPrepared_skips hskip (hprep prepared rfl)
    | enqueue | drain | answer => exact absurd hskip id
  | run c =>
    cases c with
    | runFinished report =>
      exact handleFinished_skips hskip.1 (hrun (by rw [hskip.1]; rfl)) hskip.2
    | cancel | persistProgress => exact absurd hskip id
  | timer | taskList | read | log | seed | shutdown => exact absurd hskip id

end AgentActor

/-! ## Every reachable world -/

namespace World

/-- The agent is busy, not ready or has a queue that starts no turn, or it has told itself to
drain. -/
def Attended (w : World) : Prop :=
  w.actor.Settled w.state ∨ ∃ m ∈ w.mailbox, m.cmd.isDrain = true

/-- The steps that leave the queue attended: no handler ends a turn without looking at a queue
that could start the next one, unless a drain is already behind it, and no ready agent is loaded
over such a queue, unless it re-drives itself. -/
def Redrains (params : AgentParams) (w : World) : Label → Prop
  | .handle _ => ∀ mail rest, w.mailbox = mail :: rest → w.actor.Skipping w.state mail.cmd →
    w.actor.ready = true → (queuedTurn w.state.inbox w.state.asks).isSome →
      ∃ m ∈ rest, m.cmd.isDrain = true
  | .load _ ready _ => ready = true → (queuedTurn w.state.inbox w.state.asks).isSome →
    AgentActor.selfContinues params w.state = true
  | .send _ | .emit _ _ | .finish _ | .prepared _ | .die _ => True

end World

variable {params : AgentParams} {w w' : World}

theorem emits_not_queues {pending pending' : List String} {e : AgentDomainEvent}
    (h : emits pending e = some pending') : e.queues = false := by
  cases e <;> first | rfl | simp [emits] at h

theorem external_plain {c : AgentCommand} (hc : c.external = true) (s : Sender) :
    (Mail.mk s c).Plain := by
  rintro es rfl
  simp [AgentCommand.external] at hc

theorem external_not_drain {c : AgentCommand} (hc : c.external = true) : c.isDrain = false := by
  match c, hc with
  | .queue (.enqueue _ _), _ | .queue (.answer _), _ | .run (.cancel _), _ | .timer _, _
  | .taskList _, _ | .read, _ | .log _, _ | .seed _, _ | .shutdown, _ => rfl

/-- In every reachable world, what was sent as progress leaves the queue alone. -/
theorem plain_mailbox (hw : (agentSystem params).Reachable w) : ∀ m ∈ w.mailbox, m.Plain := by
  intro m hm es hes e he
  cases mailed hw m hm with
  | client hc => exact external_plain hc .client es hes e he
  | drain | report | prepared => cases hes
  | repair s now =>
    cases hes
    obtain ⟨_, -, rfl⟩ := List.mem_map.mp he
    rfl
  | progress hemit =>
    cases hes
    rw [List.mem_singleton.mp he]
    exact emits_not_queues hemit

/-- Handling a command from an attended world leads to an attended one exactly when it is not one
that skips the queue. -/
theorem attended_perform (hw : (agentSystem params).Reachable w) (h : w.Attended) {env : Env}
    {mail : Mail} {rest : List Mail} (hm : w.mailbox = mail :: rest) :
    (w.perform mail rest (w.effect params env mail)).Attended ↔
      w.Redrains params (.handle env) := by
  have hfence := fence hw
  have hplain := plain_mailbox hw mail (hm ▸ List.mem_cons_self)
  by_cases hskip : w.actor.Skipping w.state mail.cmd
  · have hskipped : AgentActor.Skipped w.actor w.state (w.effect params env mail) :=
      AgentActor.handleCommand_skips hskip (hfence.preparing_head hm) fun hrun => by
        obtain ⟨k, hk⟩ := Option.isSome_iff_exists.mp hrun
        exact hfence.preparing hk
    have hdone : (w.perform mail rest (w.effect params env mail)).actor.Settled
        (w.perform mail rest (w.effect params env mail)).state ↔
          w.actor.ready = false ∨ queuedTurn w.state.inbox w.state.asks = none := by
      rw [← hskipped.inbox, ← hskipped.asks, ← hskipped.ready]
      exact or_iff_right fun hb => absurd hb (Bool.eq_false_iff.mp hskipped.busy)
    have hbox : (w.perform mail rest (w.effect params env mail)).mailbox = rest := by
      simp only [World.perform, hskipped.tells, List.map_nil, List.append_nil]
    rw [World.Attended, hdone, hbox]
    constructor
    · rintro h mail' rest' hm' - hr hq
      obtain ⟨rfl, rfl⟩ := List.cons_eq_cons.mp (hm'.symm.trans hm)
      rcases h with (h | h) | h
      · simp [h] at hr
      · simp [h] at hq
      · exact h
    · intro hg
      by_cases hr : w.actor.ready = true
      · cases hq : queuedTurn w.state.inbox w.state.asks with
        | none => exact .inl (.inr rfl)
        | some turn => exact .inr (hg mail rest hm hskip hr (by rw [hq]; rfl))
      · exact .inl (.inl (Bool.eq_false_iff.mpr hr))
  · refine iff_of_true ?_ fun mail' rest' hm' hskip' => ?_
    · rcases AgentActor.handleCommand_attends hplain hskip with
        hs | hs | ⟨hdrain, hs⟩
      · exact .inl hs
      · exact .inr ⟨⟨.self, .queue .drain⟩,
          List.mem_append_right _ (List.mem_map.mpr ⟨_, hs, rfl⟩), rfl⟩
      · rcases h with h | ⟨m, hmem, hd⟩
        · exact .inl (hs.settled.mpr h)
        · rw [hm] at hmem
          rcases List.mem_cons.mp hmem with rfl | hmem
          · simp [hd] at hdrain
          · exact .inr ⟨m, List.mem_append_left _ hmem, hd⟩
    · obtain ⟨rfl, -⟩ := List.cons_eq_cons.mp (hm'.symm.trans hm)
      exact absurd hskip' hskip

theorem attended_load (w : World) (params : AgentParams) (env : Env) (ready : Bool)
    {queued : List AgentCommand} (hq : ∀ c ∈ queued, c.external = true) :
    (w.load params env ready queued).Attended ↔ w.Redrains params (.load env ready queued) := by
  have hbox : ¬ ∃ m ∈ (w.load params env ready queued).mailbox, m.cmd.isDrain = true := by
    rintro ⟨m, hm, hd⟩
    rcases List.mem_append.mp hm with hm | hm
    · obtain ⟨c, hc, rfl⟩ := List.mem_map.mp hm
      simp [external_not_drain (hq c hc)] at hd
    · obtain ⟨c, hc, rfl⟩ := List.mem_map.mp hm
      simp [AgentActor.onRecoveryComplete_tells _ _ _ _ c hc, AgentCommand.isDrain] at hd
  have hactor : (w.load params env ready queued).actor.busy =
      AgentActor.selfContinues params w.state ∧
      (w.load params env ready queued).actor.ready = ready := by
    simp only [World.load]
    rcases (AgentActor.new ready).onRecoveryComplete_cases params env w.state with
      ⟨hself, ha, -⟩ | ⟨hself, ha, -⟩
    · rw [ha, hself]
      exact ⟨rfl, rfl⟩
    · rw [ha, hself]
      exact ⟨rfl, rfl⟩
  rw [World.Attended, or_iff_left hbox, AgentActor.Settled, hactor.1, hactor.2, World.Redrains]
  rw [show (w.load params env ready queued).state = w.state from rfl]
  cases AgentActor.selfContinues params w.state <;> cases ready <;>
    cases queuedTurn w.state.inbox w.state.asks <;> simp

theorem attended_step (hw : (agentSystem params).Reachable w) (h : w.Attended) {l : Label}
    (hs : World.Step params w l w') : w'.Attended ↔ w.Redrains params l := by
  have hmore : ∀ (w' : World) (m : Mail), w'.actor = w.actor → w'.state = w.state →
      w'.mailbox = w.mailbox → (w'.tell m).Attended := by
    rintro w' m ha hst hmb
    rcases h with h | ⟨x, hx, hd⟩
    · exact .inl (by rw [World.tell, ha, hst]; exact h)
    · exact .inr ⟨x, by rw [World.tell, hmb]; exact List.mem_append_left _ hx, hd⟩
  cases hs with
  | load hq => exact attended_load w params _ _ hq
  | send | emit | finish | prepared => exact iff_of_true (hmore _ _ rfl rfl rfl) trivial
  | handle _ hm => exact attended_perform hw h hm
  | die => exact iff_of_true (.inl (.inr (.inl rfl))) trivial

/-- Along every execution, the queue is attended to after every step exactly if every step
redrains. -/
theorem no_stranded_queue (params : AgentParams) {tr : List (World × Label × World)} {w : World}
    (h : (agentSystem params).Exec World.boot tr w) :
    (∀ x ∈ tr, x.2.2.Attended) ↔ ∀ x ∈ tr, x.1.Redrains params x.2.1 :=
  h.forall_iff (fun _ _ _ hw ha hs => attended_step hw ha hs) reachable_boot
    (.inl (.inr (.inl rfl)))

/-! ## A queue nobody attends to -/

/-- A message that arrives while a run is in flight, and the run fails. -/
def strandedLabels : List Label :=
  let env : Env := ⟨0, "m", "a", "t", false⟩
  [.load env true [.queue (.enqueue (.user "u0" "hello" []) false)], .handle env, .handle env,
    .send (.queue (.enqueue (.user "u1" "are you there?" []) false)), .handle env, .handle env,
    .finish ⟨0, .failed "the provider timed out" true, none⟩, .handle env]

def strandedWorld : World :=
  (World.boot.steps? ⟨false, true, false⟩ strandedLabels).get (by decide)

theorem no_stranded_queue_failed :
    ∃ tr, (agentSystem ⟨false, true, false⟩).Exec World.boot tr strandedWorld ∧
      tr.map (·.2.1) = strandedLabels ∧
      ((∀ x ∈ tr, x.2.2.Attended) ↔ ∀ x ∈ tr, x.1.Redrains ⟨false, true, false⟩ x.2.1) := by
  obtain ⟨tr, hexec, hmap⟩ := exec_steps? (Option.some_get _).symm
  exact ⟨tr, hexec, hmap, no_stranded_queue _ hexec⟩

/-- The failure is reported, and the second message waits in a ready, idle agent with an empty
mailbox. -/
theorem stranded_queue :
    (agentSystem ⟨false, true, false⟩).Reachable strandedWorld ∧ ¬ strandedWorld.Attended := by
  refine ⟨reachable_steps? _, ?_⟩
  have hmail : strandedWorld.mailbox = [] := rfl
  have hbusy : strandedWorld.actor.busy = false := by decide
  have hready : strandedWorld.actor.ready = true := by decide
  have hqueue : (queuedTurn strandedWorld.state.inbox strandedWorld.state.asks).isSome := by decide
  rintro ((h | h | h) | ⟨m, hm, -⟩)
  · simp [h] at hbusy
  · simp [h] at hready
  · simp [h] at hqueue
  · simp [hmail] at hm

end Horsie.Agent
