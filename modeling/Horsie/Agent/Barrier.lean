import Horsie.Agent.Drain
import Horsie.Agent.Starts

/-!
# Cancel as a barrier

Once a cancellation is acknowledged, the turns begun by then are over: none of them starts a run,
and nothing their runs and preparations send is journaled (`Barrier`). This holds of every run in
which no cancellation is handled while a turn is with its start hooks, and no reload re-drives the
agent. A cancellation that finds a turn being prepared is acknowledged at once, and the turn starts
when its preparation comes back (`prepared_after_cancel`).
-/

namespace Horsie.Agent

open Lib

def AgentDomainEvent.isTurnBegan : AgentDomainEvent → Bool
  | .turnBegan _ _ _ => true
  | .seeded _ _ | .inputMessage _ | .messageComplete _ | .messageAborted _ | .toolComplete _
  | .hookRan _ _ _ | .runComplete _ _ _ _ | .runAborted _ _ _ | .runCancelled _ | .timerArmed _ _
  | .timerCancelled _ _ | .timerFired _ _ _ | .parked _ | .nudged _ | .taskListChanged _ _
  | .lifecycleRecorded _ _ | .compacted _ | .received _ _ | .askRecorded _ _ => false

def AgentCommand.awaitsCancel : AgentCommand → Bool
  | .run (.cancel ack) => ack
  | .run (.persistProgress _) | .run (.runFinished _) | .queue _ | .timer _ | .taskList _ | .read
  | .log _ | .seed _ | .shutdown => false

/-- Whether a command was sent by the run or the preparation of a turn. -/
def Mail.ofTurn (m : Mail) : Bool :=
  match m.sender with
  | .run _ => true
  | .client | .self | .prepare => m.isPrepared

namespace World

def turns (w : World) : ℕ := w.journal.countP AgentDomainEvent.isTurnBegan

def starts (params : AgentParams) (w : World) : Label → List RunTask
  | .load env ready _ => ((AgentActor.new ready).onRecoveryComplete params env w.state).runs
  | .handle env => w.mailbox.head?.toList.flatMap fun m => (w.effect params env m).runs
  | .send _ | .emit _ _ | .finish _ | .prepared _ | .die _ => []

/-- What a step journals of what the turn in flight sent. -/
def wrote (params : AgentParams) (w : World) : Label → List AgentDomainEvent
  | .handle env =>
    (w.mailbox.head?.toList.filter Mail.ofTurn).flatMap fun m => (w.effect params env m).events
  | .load _ _ _ | .send _ | .emit _ _ | .finish _ | .prepared _ | .die _ => []

/-- Whether a step answers a cancellation. -/
def Acknowledges (params : AgentParams) (w : World) : Label → Prop
  | .handle env | .die env => ∃ m ∈ w.mailbox.head?, .cancelled ∈ (w.effect params env m).replies
  | .load _ _ _ | .send _ | .emit _ _ | .finish _ | .prepared _ => False

/-- No cancellation that will be answered is handled while a turn is with its start hooks, and no
reload re-drives the agent. -/
def Heeds (params : AgentParams) (w : World) : Label → Prop
  | .handle _ => ∀ m ∈ w.mailbox.head?, m.cmd.awaitsCancel = true → w.actor.preparing = false
  | .load _ _ _ => AgentActor.selfContinues params w.state = false
  | .send _ | .emit _ _ | .finish _ | .prepared _ | .die _ => True

instance (params : AgentParams) (w : World) : DecidablePred (w.Heeds params)
  | .handle _ => inferInstanceAs (Decidable (∀ m ∈ w.mailbox.head?,
      m.cmd.awaitsCancel = true → w.actor.preparing = false))
  | .load _ _ _ => inferInstanceAs (Decidable (AgentActor.selfContinues params w.state = false))
  | .send _ | .emit _ _ | .finish _ | .prepared _ | .die _ => inferInstanceAs (Decidable True)

end World

/-- After a step that acknowledges a cancellation, no turn begun before it starts a run, and
nothing such a turn sends is journaled. -/
def Barrier (params : AgentParams) (tr : List (World × Label × World)) : Prop :=
  ∀ pre y post, tr = pre ++ y :: post → World.Acknowledges params y.1 y.2.1 →
    ∀ z ∈ post, (z.2.2.turns ≤ y.1.turns → z.1.starts params z.2.1 = []) ∧
      (z.1.turns ≤ y.1.turns → z.1.wrote params z.2.1 = [])

/-! ## Who answers a cancellation -/

namespace AgentActor

variable {a : AgentActor} {params : AgentParams} {env : Env} {s : AgentState}

theorem beginTurn_replies (a : AgentActor) (env : Env) (s : AgentState) (turn : Turn) :
    (a.beginTurn env s turn).replies = [] := by
  unfold beginTurn startPrepared
  split_ifs <;> rfl

theorem tryDrain_replies (a : AgentActor) (env : Env) (s : AgentState) :
    (a.tryDrain env s).replies = [] := by
  rcases a.tryDrain_cases env s with ⟨h, -⟩ | ⟨turn, -, -, -, h⟩
  · rw [h]
  · rw [h, beginTurn_replies]

theorem startPrepared_replies (a : AgentActor) (env : Env) (s : AgentState)
    (prepared : PreparedStart) : (a.startPrepared env s prepared).replies = [] := by
  unfold startPrepared
  split <;> rfl

theorem handleTimerFired_replies (a : AgentActor) (env : Env) (s : AgentState) (id : String) :
    (a.handleTimerFired env s id).replies = [] := by
  unfold handleTimerFired
  split
  · rfl
  · exact tryDrain_replies _ env _

/-- A cancellation is answered at once when no run is in flight, and with the report of the run
otherwise. -/
theorem handleCommand_cancelled {cmd : AgentCommand}
    (h : .cancelled ∈ (a.handleCommand params env s cmd).replies) :
    cmd = .run (.cancel true) ∧ a.runId = none ∨
      ∃ report, cmd = .run (.runFinished report) ∧ a.runId = some report.runId := by
  cases cmd with
  | queue c =>
    cases c with
    | enqueue | drain | startPrepared =>
      simp [handleCommand, handleQueue, tryDrain_replies, startPrepared_replies] at h
    | answer answers =>
      simp only [handleCommand, handleQueue] at h
      split_ifs at h
      · simp at h
      · split at h <;> simp at h
  | run c =>
    cases c with
    | cancel ack =>
      simp only [handleCommand, handleRun] at h
      cases hr : a.running with
      | some run => simp [hr] at h
      | none =>
        cases ack with
        | true => exact .inl ⟨rfl, by rw [runId, hr]; rfl⟩
        | false => simp [hr] at h
    | persistProgress es => simp [handleCommand, handleRun] at h
    | runFinished report =>
      by_cases hid : a.runId = some report.runId
      · exact .inr ⟨report, rfl, hid⟩
      · simp [handleCommand, handleRun, handleFinished, hid] at h
  | timer c =>
    cases c with
    | timerFired id => simp [handleCommand, handleTimer, handleTimerFired_replies] at h
    | armTimer | listTimers | cancelTimer => simp [handleCommand, handleTimer] at h
  | taskList action =>
    simp only [handleCommand, handleTaskList] at h
    split at h <;> simp at h
  | read => simp [handleCommand] at h
  | log c =>
    cases c with
    | recordLifecycle event atMs =>
      simp only [handleCommand, handleLog] at h
      split_ifs at h
      · simp at h
      · simp [thenDrain, Effect.after, tryDrain_replies] at h
    | recordDelta | hooksRan => simp [handleCommand, handleLog] at h
  | seed c =>
    cases c with
    | snapshot => simp [handleCommand, handleSeed] at h
    | seedFrom seeded seed message =>
      simp only [handleCommand, handleSeed] at h
      split_ifs at h <;> simp at h
  | shutdown => simp [handleCommand] at h

theorem Launch.idle_or {e : Effect} (h : Launch a e) (hb : a.busy = false) :
    e.actor.busy = false ∨ e.runs ≠ [] ∨ e.prepares ≠ [] := by
  cases h with
  | quiet _ _ _ hrun hprep _ =>
    rw [busy_eq_false] at hb ⊢
    exact .inl ⟨hrun.trans hb.1, hprep.trans hb.2⟩
  | ran _ _ hr => exact .inr (.inl (by simp [hr]))
  | prepared _ _ _ hp => exact .inr (.inr (by simp [hp]))

end AgentActor

/-! ## The turns that are over -/

variable {params : AgentParams} {w w' : World}

/-- Nothing of the first `n` turns is in flight. -/
structure World.Spent (n : ℕ) (w : World) : Prop where
  begun : n ≤ w.turns
  idle : w.turns = n → w.actor.busy = false

theorem turns_perform (w : World) (mail : Mail) (rest : List Mail) (e : Effect) :
    (w.perform mail rest e).turns = w.turns + e.events.countP AgentDomainEvent.isTurnBegan :=
  List.countP_append

variable {l : Label}

theorem turns_step (hs : World.Step params w l w') : w.turns ≤ w'.turns := by
  cases hs with
  | handle => exact (turns_perform _ _ _ _).symm ▸ Nat.le_add_right _ _
  | load | send | emit | finish | prepared | die => exact le_rfl

theorem Effect.Begins.count {e : Effect} (h : e.Begins) :
    0 < e.events.countP AgentDomainEvent.isTurnBegan := by
  obtain ⟨c, an, when, hmem⟩ := h
  exact List.countP_pos_iff.mpr ⟨_, hmem, rfl⟩

variable {mail : Mail} {rest : List Mail}

/-- What handling the head of the mailbox begins, if it is no preparation that came back. -/
theorem effect_starting (hw : (agentSystem params).Reachable w) (env : Env)
    (hm : w.mailbox = mail :: rest) (hp : mail.isPrepared = false) :
    AgentActor.Starting env w.state (w.effect params env mail) := by
  refine AgentActor.handleCommand_starting _ _ _ _ (fun p hcmd => ?_)
    (plain_mailbox hw mail (hm ▸ List.mem_cons_self))
  simp [Mail.isPrepared, hcmd] at hp

/-- Handling a command that leaves no turn on the actor begins one or leaves it idle. -/
theorem effect_idle_or (hw : (agentSystem params).Reachable w) (env : Env)
    (hm : w.mailbox = mail :: rest) (hp : mail.isPrepared = false)
    (hb : (w.actor.cleared mail.cmd).busy = false) :
    (w.effect params env mail).actor.busy = false ∨ (w.effect params env mail).Begins := by
  rcases ((fence hw).launch params env hm).idle_or hb with h | h
  · exact .inl h
  · exact .inr ((effect_starting hw env hm hp).begins h)

theorem FenceAt.idle_head {a : AgentActor} {runs : List LiveRun} {prepares : List Turn}
    (h : FenceAt a runs prepares (mail :: rest))
    (hb : a.busy = false) :
    mail.isPrepared = false ∧ mail.ofTurn = false ∧ a.cleared mail.cmd = a := by
  obtain ⟨-, -, hrep, hpre, hsend⟩ := h.idle hb
  have hr := hrep mail List.mem_cons_self
  have hp := hpre mail List.mem_cons_self
  refine ⟨hp, ?_, ?_⟩
  · unfold Mail.ofTurn
    split
    · rename_i k hk
      exact absurd hk (hsend mail List.mem_cons_self k)
    all_goals exact hp
  · unfold AgentActor.cleared
    split
    · rename_i hcmd
      simp [Mail.report?, hcmd] at hr
    · rename_i hcmd
      simp [Mail.isPrepared, hcmd] at hp
    all_goals rfl

/-- A step of a world in which the first `n` turns are over leaves them over, starts no run of
them and journals nothing of theirs. -/
theorem spent_step (hw : (agentSystem params).Reachable w) {n : ℕ} (h : w.Spent n)
    (hg : w.Heeds params l) (hs : World.Step params w l w') :
    w'.Spent n ∧ (w'.turns ≤ n → w.starts params l = []) ∧
      (w.turns ≤ n → w.wrote params l = []) := by
  cases hs with
  | @load env ready queued hq =>
    rcases (AgentActor.new ready).onRecoveryComplete_cases params env w.state with
      ⟨-, ha, hr⟩ | ⟨hself, -⟩
    · exact ⟨⟨h.begun, fun _ => by rw [World.load, ha]; rfl⟩, fun _ => hr, fun _ => rfl⟩
    · rw [show AgentActor.selfContinues params w.state = false from hg] at hself
      cases hself
  | send | emit | finish | prepared => exact ⟨⟨h.begun, h.idle⟩, fun _ => rfl, fun _ => rfl⟩
  | die => exact ⟨⟨h.begun, fun _ => rfl⟩, fun _ => rfl, fun _ => rfl⟩
  | @handle env mail rest _ hm =>
    have hturns := turns_perform w mail rest (w.effect params env mail)
    have hbegun := h.begun
    by_cases hn : w.turns = n
    · have hb := h.idle hn
      obtain ⟨hp, hof, hcl⟩ := FenceAt.idle_head
        (show FenceAt w.actor w.runs w.prepares (mail :: rest) from hm ▸ fence hw) hb
      refine ⟨⟨by omega, fun hn' => ?_⟩, fun hn' => ?_, fun _ => ?_⟩
      · rcases effect_idle_or hw env hm hp (by rwa [hcl]) with hidle | hbegan
        · exact hidle
        · have := hbegan.count
          omega
      · by_contra hruns
        have hne : (w.effect params env mail).runs ≠ [] := by
          simpa [World.starts, hm] using hruns
        have := ((effect_starting hw env hm hp).begins (.inl hne)).count
        omega
      · simp [World.wrote, hm, hof]
    · exact ⟨⟨by omega, fun hn' => by omega⟩, fun hn' => by omega, fun hn' => by omega⟩

/-- A step that acknowledges a cancellation leaves every turn begun before it over. -/
theorem spent_acknowledged (hw : (agentSystem params).Reachable w)
    (hack : w.Acknowledges params l) (hg : w.Heeds params l) (hs : World.Step params w l w') :
    w'.Spent w.turns := by
  refine ⟨turns_step hs, fun hn => ?_⟩
  cases hs with
  | load | send | emit | finish | prepared => exact absurd hack id
  | die => rfl
  | @handle env mail rest _ hm =>
    obtain ⟨m, hhead, hreply⟩ := hack
    obtain rfl : mail = m := by simpa [hm] using hhead
    have hcl : (w.actor.cleared mail.cmd).busy = false ∧ mail.isPrepared = false := by
      rcases AgentActor.handleCommand_cancelled hreply with ⟨hcmd, hrun⟩ | ⟨report, hcmd, hrun⟩
      · have hprep : w.actor.preparing = false := hg mail hhead (by rw [hcmd]; rfl)
        rw [Mail.isPrepared, hcmd]
        exact ⟨AgentActor.busy_eq_false.mpr ⟨hrun, hprep⟩, rfl⟩
      · rw [Mail.isPrepared, hcmd, AgentActor.cleared, if_pos hrun]
        exact ⟨AgentActor.busy_eq_false.mpr ⟨rfl, (fence hw).preparing hrun⟩, rfl⟩
    rcases effect_idle_or hw env hm hcl.2 hcl.1 with hidle | hbegan
    · exact hidle
    · have := hbegan.count
      rw [turns_perform] at hn
      omega

/-- Turns that are over stay over, to the end of the run. -/
theorem spent_run {n : ℕ} {tr : List (World × Label × World)}
    (h : (agentSystem params).Exec w tr w') (hw : (agentSystem params).Reachable w)
    (h0 : w.Spent n) (hg : ∀ x ∈ tr, x.1.Heeds params x.2.1) :
    w'.Spent n ∧ ∀ z ∈ tr, (z.2.2.turns ≤ n → z.1.starts params z.2.1 = []) ∧
      (z.1.turns ≤ n → z.1.wrote params z.2.1 = []) := by
  induction h with
  | nil => exact ⟨h0, by simp⟩
  | @snoc tr t l u hexec hstep ih =>
    simp only [List.forall_mem_append, List.forall_mem_singleton] at hg ⊢
    obtain ⟨hspent, hall⟩ := ih hg.1
    have hnext := spent_step (hexec.reachable hw) hspent hg.2 hstep
    exact ⟨hnext.1, hall, hnext.2⟩

/-- A cancellation is a barrier in every run that handles none while a turn is with its start
hooks, and in which no reload re-drives the agent. -/
theorem cancel_barrier {params : AgentParams} {tr : List (World × Label × World)} {w : World}
    (h : (agentSystem params).Exec .boot tr w) (hg : ∀ x ∈ tr, x.1.Heeds params x.2.1) :
    Barrier params tr := by
  rintro pre y post rfl hack z hz
  obtain ⟨hpre, hy, hpost⟩ := h.split
  have hreach := hpre.reachable reachable_boot
  have hspent := spent_acknowledged hreach hack (hg y (by simp)) hy
  exact (spent_run hpost (hreach.step hy) hspent fun x hx => hg x (by simp [hx])).2 z hz

/-! ## A cancellation during the start hooks -/

/-- A user message is drained, its run is cancelled, and the run reports back. -/
def cancelledLabels : List Label :=
  let env : Env := ⟨0, "m", "a", "t", false⟩
  [.load env true [.queue (.enqueue (.user "u0" "hello" []) false)], .handle env, .handle env,
    .send (.run (.cancel true)), .handle env, .finish ⟨0, .cancelled, none⟩, .handle env,
    .load env true []]

theorem cancel_barrier_cancelled :
    ∃ tr w, (agentSystem ⟨false, true, false⟩).Exec .boot tr w ∧
      tr.map (·.2.1) = cancelledLabels ∧ Barrier ⟨false, true, false⟩ tr := by
  have hsome : (World.boot.stepsIf? ⟨false, true, false⟩
    (fun w l => decide (w.Heeds ⟨false, true, false⟩ l)) cancelledLabels).isSome := by decide
  obtain ⟨tr, hexec, hmap, hok⟩ := exec_stepsIf? (Option.some_get hsome).symm
  exact ⟨tr, _, hexec, hmap, cancel_barrier hexec fun x hx => of_decide_eq_true (hok x hx)⟩

/-- A user message whose turn is with its start hooks, and a cancellation behind it. -/
def preparingLabels : List Label :=
  let env : Env := ⟨0, "m", "a", "t", true⟩
  [.load env true [.queue (.enqueue (.user "u0" "hello" []) false)], .handle env, .handle env,
    .send (.run (.cancel true))]

def preparingWorld : World :=
  (World.boot.steps? ⟨false, true, false⟩ preparingLabels).get (by decide)

/-- The cancellation is handled, and the start hooks come back. -/
def preparedWorlds : World × World :=
  let env : Env := ⟨1, "m1", "a1", "t1", true⟩
  ((preparingWorld.steps? ⟨false, true, false⟩ [.handle env]).get (by decide),
    (preparingWorld.steps? ⟨false, true, false⟩ [.handle env, .prepared (.ran [] none)]).get
      (by decide))

/-- The cancellation is acknowledged, and the turn it was for starts its run. -/
theorem prepared_after_cancel :
    ∃ tr w, (agentSystem ⟨false, true, false⟩).Exec .boot tr w ∧
      ¬ Barrier ⟨false, true, false⟩ tr := by
  let env : Env := ⟨1, "m1", "a1", "t1", true⟩
  obtain ⟨pre, hpre, -⟩ := exec_steps?
    (show World.boot.steps? ⟨false, true, false⟩ preparingLabels = some preparingWorld from
      (Option.some_get _).symm)
  have hcancel : World.Step ⟨false, true, false⟩ preparingWorld (.handle env) preparedWorlds.1 :=
    World.step?_sound rfl
  have hback : World.Step ⟨false, true, false⟩ preparedWorlds.1 (.prepared (.ran [] none))
    preparedWorlds.2 := World.step?_sound rfl
  have hstart : World.Step ⟨false, true, false⟩ preparedWorlds.2 (.handle env)
      ((preparedWorlds.2.step? ⟨false, true, false⟩ (.handle env)).get (by decide)) :=
    World.step?_sound (Option.some_get _).symm
  refine ⟨_, _, hpre.trans ((Lib.System.Exec.single hcancel).trans
    ((Lib.System.Exec.single hback).trans (.single hstart))), fun hbar => ?_⟩
  have hover := hbar pre _ _ rfl ⟨_, rfl, List.mem_singleton_self _⟩ _
    (List.mem_cons_of_mem _ (List.mem_singleton_self _))
  exact absurd (hover.1 (by decide)) (by decide)

end Horsie.Agent
