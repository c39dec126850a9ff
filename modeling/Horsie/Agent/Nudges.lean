import Horsie.Agent.RunEnd
import Horsie.Agent.Writes

/-!
# The budget of nudges

An agent that owes a result may end a few turns without one before its step is failed. The turns are
counted in the journal: one more for every turn that ended with text or with contradictory tools and
nothing to wake the agent, and none again after a park. A turn that submits the result or asks the
user is as proper an end as a park, but the journal keeps its count, so that the turns before it
are held against the agent later. The count is right exactly in the runs in which every such
turn finds it at zero (`nudge_budget_iff`).
-/

namespace Horsie.Agent

/-! ## Which turns count -/

inductive TurnEnd
  | text
  | contradiction
  | submitted
  | asked
  | parked
  /-- The queue starts the next turn, or the agent did not end this one. -/
  | unjudged
deriving DecidableEq

namespace TurnEnd

/-- What the turn leaves of the turns that ended without the result the agent owes. The one the step
is failed for is not one of them. -/
def tallied (n : ℕ) (failed : Bool) : TurnEnd → ℕ
  | .text => if failed then n else n + 1
  | .contradiction => n + 1
  | .submitted | .asked | .parked => 0
  | .unjudged => n

def folded (n : ℕ) (failed : Bool) : TurnEnd → ℕ
  | .text => if failed then n else n + 1
  | .contradiction => satAdd 32 n 1
  | .parked => 0
  | .submitted | .asked | .unjudged => n

theorem folded_eq_iff {n : ℕ} {failed : Bool} {e : TurnEnd} :
    e.folded n failed = e.tallied n failed ↔
      (e = .submitted ∨ e = .asked → n = 0) ∧ (e = .contradiction → n < 2 ^ 32 - 1) := by
  cases e with
  | text | parked | unjudged => simp [folded, tallied]
  | submitted | asked => simp [folded, tallied]
  | contradiction =>
    simp only [folded, tallied, satAdd, reduceCtorEq, or_self, false_implies, true_and,
      forall_const]
    omega

end TurnEnd

def AgentActor.turnEnd (a : AgentActor) (state : AgentState) : RunOutcome → TurnEnd
  | .completed _ =>
    if a.ready = true ∧ (queuedTurn state.inbox state.asks).isSome = true then .unjudged
    else if awaitsWork state = true then .parked
    else .text
  | .stopped calls =>
    match interpret calls with
    | .output _ => .submitted
    | .ask _ => .asked
    | .contradiction _ => .contradiction
  | .cancelled | .failed _ _ | .alreadyReported => .unjudged

def AgentOutcome.isFailed : AgentOutcome → Bool
  | .failed _ _ _ => true
  | .started | .interrupted | .concluded _ | .asked _ | .parked | .usageRecorded _ _ _
  | .seedSummary _ _ => false

def Effect.fails (e : Effect) : Bool := e.outcomes.any AgentOutcome.isFailed

def AgentActor.reported (a : AgentActor) (state : AgentState) : AgentCommand → Option TurnEnd
  | .run (.runFinished report) =>
    if a.runId = some report.runId then some (a.turnEnd state report.outcome) else none
  | .queue _ | .run (.cancel _) | .run (.persistProgress _) | .timer _ | .taskList _ | .read
  | .log _ | .seed _ | .shutdown => none

def AgentState.takes (state : AgentState) : AgentCommand → Bool
  | .seed (.seedFrom _ _ _) => state.log.isEmpty && state.inbox.isEmpty
  | .queue _ | .run _ | .timer _ | .taskList _ | .read | .log _ | .seed (.snapshot _)
  | .shutdown => false

/-- A seed is a snapshot, which has no nudges. -/
def AgentCommand.Fresh : AgentCommand → Prop
  | .seed (.seedFrom state _ _) => state.nudges = 0
  | .queue _ | .run _ | .timer _ | .taskList _ | .read | .log _ | .seed (.snapshot _)
  | .shutdown => True

instance : DecidablePred AgentCommand.Fresh
  | .seed (.seedFrom state _ _) => inferInstanceAs (Decidable (state.nudges = 0))
  | .queue _ | .run _ | .timer _ | .taskList _ | .read | .log _ | .seed (.snapshot _)
  | .shutdown => inferInstanceAs (Decidable True)

namespace World

def turnEnd (w : World) : Label → Option TurnEnd
  | .handle _ => w.mailbox.head?.bind fun mail => w.actor.reported w.state mail.cmd
  | .load _ _ _ | .send _ | .emit _ _ | .finish _ | .prepared _ | .die _ => none

/-- The step hands the agent a seed that it takes. -/
def seeds (w : World) : Label → Bool
  | .handle _ => w.mailbox.head?.any fun mail => w.state.takes mail.cmd
  | .load _ _ _ | .send _ | .emit _ _ | .finish _ | .prepared _ | .die _ => false

def fails (params : AgentParams) (w : World) : Label → Bool
  | .handle env => w.mailbox.head?.any fun mail => (w.effect params env mail).fails
  | .load _ _ _ | .send _ | .emit _ _ | .finish _ | .prepared _ | .die _ => false

/-- The consecutive turns that ended without the result the agent owes, since the last that ended
properly. A seeded agent starts with none. -/
def tally (params : AgentParams) (w : World) (l : Label) (_ : World) (n : ℕ) : ℕ :=
  match w.turnEnd l with
  | some e => e.tallied n (w.fails params l)
  | none => if w.seeds l then 0 else n

def FreshSeeds (w : World) : Label → Prop
  | .handle _ => ∀ mail ∈ w.mailbox.head?, mail.cmd.Fresh
  | .load _ _ _ | .send _ | .emit _ _ | .finish _ | .prepared _ | .die _ => True

instance (w : World) : DecidablePred w.FreshSeeds
  | .handle _ => inferInstanceAs (Decidable (∀ mail ∈ w.mailbox.head?, mail.cmd.Fresh))
  | .load _ _ _ | .send _ | .emit _ _ | .finish _ | .prepared _ | .die _ =>
    inferInstanceAs (Decidable True)

/-- A turn that submits or asks finds the count at zero, and a contradiction finds room in it. -/
def Clean (w : World) (l : Label) : Prop :=
  (w.turnEnd l = some .submitted ∨ w.turnEnd l = some .asked → w.state.nudges = 0) ∧
    (w.turnEnd l = some .contradiction → w.state.nudges < 2 ^ 32 - 1)

instance (w : World) (l : Label) : Decidable (w.Clean l) :=
  inferInstanceAs (Decidable ((_ ∨ _ → _) ∧ (_ → _)))

end World

def tallySystem (params : AgentParams) : Lib.System (World × ℕ) Label :=
  ((agentSystem params).restrict World.FreshSeeds).withHistory (World.tally params) 0

/-- After the step the journal's count is the number of turns, and the agent was failed for a turn
that ended without a result only after as many as there are nudges. -/
structure Budgeted (params : AgentParams) (x : World × ℕ) (l : Label) (y : World × ℕ) : Prop where
  counted : y.1.state.nudges = y.2
  failed : x.1.turnEnd l = some .text → x.1.fails params l = true → maxResultNudges ≤ x.2

/-! ## What changes the count -/

def AgentDomainEvent.counts : AgentDomainEvent → Bool
  | .seeded _ _ | .parked _ | .nudged _ => true
  | .inputMessage _ | .messageComplete _ | .messageAborted _ | .toolComplete _ | .hookRan _ _ _
  | .runComplete _ _ _ _ | .runAborted _ _ _ | .runCancelled _ | .timerArmed _ _
  | .timerCancelled _ _ | .timerFired _ _ _ | .taskListChanged _ _ | .lifecycleRecorded _ _
  | .compacted _ | .received _ _ | .turnBegan _ _ _ | .askRecorded _ _ => false

namespace AgentState

variable {s : AgentState} {e : AgentDomainEvent} {es : List AgentDomainEvent}

theorem recordAsks_nudges (asks : List AskedQuestion) (atMs : ℕ) :
    (s.recordAsks asks atMs).nudges = s.nudges := by
  unfold recordAsks
  show (asks.foldl _ s).nudges = s.nudges
  induction asks generalizing s with
  | nil => rfl
  | cons ask asks ih => exact ih

theorem applyEvent_nudges (h : e.counts = false) : (s.applyEvent e).nudges = s.nudges := by
  cases e with
  | seeded | parked | nudged => cases h
  | timerFired id next => cases next <;> rfl
  | received item => cases item <;> rfl
  | askRecorded asks atMs => exact recordAsks_nudges asks atMs
  | _ => rfl

theorem applyAll_nudges (h : ∀ e ∈ es, e.counts = false) : (s.applyAll es).nudges = s.nudges := by
  induction es generalizing s with
  | nil => rfl
  | cons e es ih =>
    rw [applyAll_cons, ih fun e he => h e (List.mem_cons_of_mem _ he)]
    exact applyEvent_nudges (h e List.mem_cons_self)

end AgentState

namespace AgentActor

def Uncounted (e : Effect) : Prop := ∀ x ∈ e.events, x.counts = false

variable {a : AgentActor} {params : AgentParams} {env : Env} {state : AgentState}

theorem uncounted_of_nil {e : Effect} (h : e.events = []) : Uncounted e := by
  intro x hx
  rw [h] at hx
  cases hx

theorem hookEvents_uncounted (records : List HookRecord) (now : ℕ) :
    ∀ x ∈ hookEvents state records now, x.counts = false := by
  intro x hx
  unfold hookEvents at hx
  obtain ⟨i, hi, rfl⟩ := List.mem_mapIdx.mp hx
  rfl

theorem inputs_uncounted (ms : List Message) :
    ∀ x ∈ ms.map AgentDomainEvent.inputMessage, x.counts = false := by
  intro x hx
  obtain ⟨m, -, rfl⟩ := List.mem_map.mp hx
  rfl

theorem startPrepared_uncounted (prepared : PreparedStart) :
    Uncounted (a.startPrepared env state prepared) := by
  obtain ⟨ms, hms⟩ := a.startPrepared_events env state prepared
  intro x hx
  rw [hms] at hx
  rcases List.mem_append.mp hx with hx | hx
  · exact hookEvents_uncounted _ _ x hx
  · exact inputs_uncounted ms x hx

theorem beginTurn_uncounted (turn : Turn) : Uncounted (a.beginTurn env state turn) := by
  unfold beginTurn
  split_ifs
  · intro x hx
    rcases List.mem_append.mp hx with hx | hx
    · obtain rfl := List.mem_singleton.mp hx
      rfl
    · exact startPrepared_uncounted _ x hx
  · intro x hx
    obtain rfl := List.mem_singleton.mp hx
    rfl

theorem tryDrain_uncounted : Uncounted (a.tryDrain env state) := by
  rcases a.tryDrain_cases env state with ⟨h, -⟩ | ⟨turn, -, -, -, h⟩
  · exact uncounted_of_nil (congrArg Effect.events h)
  · rw [h]
    exact beginTurn_uncounted turn

theorem thenDrain_nudges (es : List AgentDomainEvent) (os : List AgentOutcome) :
    (state.applyAll (a.thenDrain env state es os).events).nudges =
      (state.applyAll es).nudges := by
  unfold thenDrain
  rw [Effect.after_events, AgentState.applyAll_append]
  exact AgentState.applyAll_nudges tryDrain_uncounted

/-! ## Handlers -/

/-- Only the report of a run, progress of one and a seed may change the count. -/
theorem handleCommand_uncounted {cmd : AgentCommand}
    (hprogress : ∀ es, cmd = .run (.persistProgress es) → ∀ e ∈ es, e.counts = false)
    (hreport : ∀ r, cmd ≠ .run (.runFinished r))
    (hseed : ∀ st seed m, cmd ≠ .seed (.seedFrom st seed m)) :
    Uncounted (a.handleCommand params env state cmd) := by
  have hone {e : AgentDomainEvent} (he : e.counts = false) : ∀ x ∈ [e], x.counts = false := by
    intro x hx
    rw [List.mem_singleton.mp hx]
    exact he
  have hnil : Uncounted { actor := a } := uncounted_of_nil rfl
  cases cmd with
  | queue c =>
    cases c with
    | enqueue => exact hone rfl
    | drain => exact tryDrain_uncounted
    | answer answers =>
      simp only [handleCommand, handleQueue]
      split_ifs
      · exact uncounted_of_nil rfl
      · split
        · exact fun x hx => beginTurn_uncounted _ x hx
        · exact uncounted_of_nil rfl
    | startPrepared prepared => exact startPrepared_uncounted prepared
  | run c =>
    cases c with
    | cancel ack =>
      simp only [handleCommand, handleRun]
      split <;> exact uncounted_of_nil rfl
    | persistProgress es => exact hprogress es rfl
    | runFinished report => exact absurd rfl (hreport report)
  | timer c =>
    cases c with
    | armTimer => exact hone rfl
    | listTimers => exact hnil
    | cancelTimer selector =>
      simp only [handleCommand, handleTimer]
      intro x hx
      split_ifs at hx
      · cases hx
      all_goals
        obtain rfl := List.mem_singleton.mp hx
        rfl
    | timerFired id =>
      rcases a.handleTimerFired_cases env state id with h | ⟨next, item, h, -⟩
      · exact uncounted_of_nil (congrArg Effect.events h)
      · intro x hx
        have hx := h ▸ hx
        rcases List.mem_append.mp hx with hx | hx
        · simp only [List.mem_cons, List.not_mem_nil, or_false] at hx
          rcases hx with rfl | rfl <;> rfl
        · exact tryDrain_uncounted x hx
  | taskList action =>
    simp only [handleCommand, handleTaskList]
    split
    · exact hone rfl
    · exact hnil
  | read | shutdown => exact uncounted_of_nil rfl
  | log c =>
    cases c with
    | recordLifecycle event atMs =>
      simp only [handleCommand, handleLog]
      split_ifs
      · exact hone rfl
      · intro x hx
        rcases List.mem_append.mp hx with hx | hx
        · exact hone rfl x hx
        · exact tryDrain_uncounted x hx
    | recordDelta => exact uncounted_of_nil rfl
    | hooksRan records => exact hookEvents_uncounted records env.now
  | seed c =>
    cases c with
    | snapshot => exact hnil
    | seedFrom st seed m => exact absurd rfl (hseed st seed m)

/-- A seed that is taken brings its own count, and one that is not changes nothing. -/
theorem handleSeed_nudges {st : AgentState} {seed : Option Message} {m : Incoming} :
    (state.applyAll (a.handleSeed env state (.seedFrom st seed m)).events).nudges =
      if state.log.isEmpty && state.inbox.isEmpty then st.nudges else state.nudges := by
  have hseeded : (state.applyAll [.seeded st seed, .received m env.now]).nudges = st.nudges := by
    rw [AgentState.applyAll_cons, AgentState.applyAll_cons, AgentState.applyAll_nil,
      AgentState.applyEvent_nudges rfl]
    cases seed <;> rfl
  unfold handleSeed
  dsimp only
  by_cases hempty : (state.log.isEmpty && state.inbox.isEmpty) = true
  · obtain ⟨hlog, hinbox⟩ := (Bool.and_eq_true _ _).mp hempty
    rw [if_neg (by simp [hlog, hinbox]), if_pos hempty]
    exact hseeded
  · rw [if_neg hempty, if_pos (by
      rw [Bool.and_eq_true, not_and_or] at hempty
      simpa using hempty)]
    rfl

/-! ## The end of a turn -/

theorem tryDrain_outcomes : ∀ o ∈ (a.tryDrain env state).outcomes, o = .started := by
  rcases a.tryDrain_cases env state with ⟨h, -⟩ | ⟨turn, -, -, -, h⟩
  · rw [h]
    intro o ho
    cases ho
  · rw [h, a.beginTurn_outcomes env state turn]
    intro o ho
    exact List.mem_singleton.mp ho

theorem thenDrain_fails (es : List AgentDomainEvent) :
    (a.thenDrain env state es []).fails = false := by
  refine List.any_eq_false.mpr fun o ho => ?_
  rw [tryDrain_outcomes o ho]
  exact Bool.false_ne_true

/-- The queue starts the next turn exactly when a drain journals something. -/
theorem tryDrain_events_iff (hb : a.busy = false) :
    (!(a.tryDrain env state).events.isEmpty) = true ↔
      a.ready = true ∧ (queuedTurn state.inbox state.asks).isSome = true := by
  rw [Bool.not_eq_true']
  constructor
  · intro h
    exact (tryDrain_begins.mp (tryDrain_begins_of_events h)).2
  · rintro ⟨hr, hq⟩
    obtain ⟨c, an, t, hmem⟩ := tryDrain_begins.mpr ⟨hb, hr, hq⟩
    cases he : (a.tryDrain env state).events with
    | nil =>
      rw [he] at hmem
      cases hmem
    | cons => rfl

theorem endedWithoutResult_nudges (hb : a.busy = false) (text : String) :
    (state.applyAll (a.endedWithoutResult env state).events).nudges =
      (a.turnEnd state (.completed text)).folded state.nudges
        (a.endedWithoutResult env state).fails ∧
    (a.turnEnd state (.completed text) = .text → (a.endedWithoutResult env state).fails = true →
      maxResultNudges ≤ state.nudges) := by
  unfold turnEnd
  by_cases hq : a.ready = true ∧ (queuedTurn state.inbox state.asks).isSome = true
  · -- the queue starts the next turn
    have he : a.endedWithoutResult env state = persistMaybeSnapshot (a.tryDrain env state) :=
      if_pos ((tryDrain_events_iff hb).mpr hq)
    rw [if_pos hq, he, persistMaybeSnapshot_events]
    exact ⟨AgentState.applyAll_nudges tryDrain_uncounted, fun h => by cases h⟩
  · rw [if_neg hq]
    have hdrain : ¬ (!(a.tryDrain env state).events.isEmpty) = true := fun h =>
      hq ((tryDrain_events_iff hb).mp h)
    by_cases hwork : awaitsWork state = true
    · have he : a.endedWithoutResult env state = a.park env :=
        (if_neg hdrain).trans (if_pos hwork)
      rw [if_pos hwork, he]
      exact ⟨rfl, fun h => by cases h⟩
    · rw [if_neg hwork]
      by_cases hspent : state.nudges ≥ maxResultNudges
      · have he : (a.endedWithoutResult env state).events = [] ∧
            (a.endedWithoutResult env state).fails = true := by
          unfold endedWithoutResult
          rw [if_neg hdrain, if_neg hwork, if_pos hspent]
          exact ⟨rfl, rfl⟩
        rw [he.1, he.2]
        exact ⟨rfl, fun _ _ => hspent⟩
      · obtain ⟨b, he⟩ : ∃ b : AgentActor, a.endedWithoutResult env state =
            b.thenDrain env state [.received (nudgeItem state.nudges) env.now, .nudged env.now]
              [] := by
          unfold endedWithoutResult
          rw [if_neg hdrain, if_neg hwork, if_neg hspent]
          exact ⟨_, rfl⟩
        rw [he, thenDrain_fails, thenDrain_nudges]
        refine ⟨?_, fun _ h => by cases h⟩
        show satAdd 32 _ 1 = state.nudges + 1
        rw [AgentState.applyEvent_nudges rfl]
        unfold satAdd
        unfold maxResultNudges at hspent
        omega

theorem correctContradiction_nudges (calls : List StoppedCall) :
    (state.applyAll (a.correctContradiction env state calls).events).nudges =
      satAdd 32 state.nudges 1 := by
  unfold correctContradiction
  dsimp only
  split_ifs
  · exact contradictionEvents_nudges state calls env.now
  · rw [thenDrain_nudges, AgentState.applyAll_append, AgentState.applyAll_cons,
      AgentState.applyAll_nil, AgentState.applyEvent_nudges rfl]
    exact contradictionEvents_nudges state calls env.now

theorem cancelEvents_uncounted : ∀ x ∈ a.cancelEvents env state, x.counts = false := by
  intro x hx
  unfold cancelEvents at hx
  rcases List.mem_append.mp hx with hx | hx
  · rcases List.mem_append.mp hx with hx | hx
    · exact inputs_uncounted _ x hx
    · obtain ⟨m, -, rfl⟩ := List.mem_map.mp hx
      rfl
  · obtain rfl := List.mem_singleton.mp hx
    rfl

theorem stopped_nudges (a : AgentActor) (env : Env) (state : AgentState)
    (calls : List StoppedCall) (failed : Bool) :
    (state.applyAll (a.stopped env state calls).events).nudges =
      (a.turnEnd state (.stopped calls)).folded state.nudges failed ∧
    a.turnEnd state (.stopped calls) ≠ .text := by
  unfold stopped turnEnd
  dsimp only
  cases interpret calls with
  | output value =>
    dsimp only
    rw [persistMaybeSnapshot_events, thenDrain_nudges]
    refine ⟨AgentState.applyAll_nudges fun x hx => ?_, fun h => by cases h⟩
    split_ifs at hx
    · cases hx
    · obtain rfl := List.mem_singleton.mp hx
      rfl
  | ask asks =>
    dsimp only
    rw [andSnapshot_events, thenDrain_nudges]
    refine ⟨AgentState.applyAll_nudges fun x hx => ?_, fun h => by cases h⟩
    obtain rfl := List.mem_singleton.mp hx
    rfl
  | contradiction calls =>
    exact ⟨correctContradiction_nudges calls, fun h => by cases h⟩

/-- What the end of a turn leaves of the count of an agent that owes a result. -/
theorem concludeRun_nudges (a : AgentActor) (env : Env) (state : AgentState)
    (hp : params.requiresResult = true) (hb : a.busy = false) (outcome : RunOutcome) :
    (state.applyAll (a.concludeRun params env state outcome).events).nudges =
      (a.turnEnd state outcome).folded state.nudges
        (a.concludeRun params env state outcome).fails ∧
    (a.turnEnd state outcome = .text → (a.concludeRun params env state outcome).fails = true →
      maxResultNudges ≤ state.nudges) := by
  cases outcome with
  | completed text =>
    have he : a.concludeRun params env state (.completed text) =
        (a.endedWithoutResult env state).after [] [usageRecorded state] := by
      show (a.completed params env state text).after [] _ = _
      unfold completed
      rw [if_pos hp]
    rw [he]
    exact endedWithoutResult_nudges hb text
  | stopped calls =>
    obtain ⟨hcount, htext⟩ := a.stopped_nudges env state calls
      (a.concludeRun params env state (.stopped calls)).fails
    exact ⟨hcount, fun h => absurd h htext⟩
  | cancelled =>
    refine ⟨?_, fun h => by cases h⟩
    show (state.applyAll (a.thenDrain env state (a.cancelEvents env state)
      [usageRecorded state]).events).nudges = _
    rw [thenDrain_nudges]
    exact AgentState.applyAll_nudges cancelEvents_uncounted
  | failed | alreadyReported => exact ⟨rfl, fun h => by cases h⟩

theorem handleCommand_nudges (a : AgentActor) (env : Env) (state : AgentState)
    (hp : params.requiresResult = true) {cmd : AgentCommand}
    (hprogress : ∀ es, cmd = .run (.persistProgress es) → ∀ e ∈ es, e.counts = false)
    (hprep : ∀ k, a.runId = some k → a.preparing = false) (hfresh : cmd.Fresh) :
    (state.applyAll (a.handleCommand params env state cmd).events).nudges =
      (match a.reported state cmd with
      | some e => e.folded state.nudges (a.handleCommand params env state cmd).fails
      | none => if state.takes cmd then 0 else state.nudges) ∧
    (a.reported state cmd = some .text → (a.handleCommand params env state cmd).fails = true →
      maxResultNudges ≤ state.nudges) := by
  by_cases hreport : ∃ report, cmd = .run (.runFinished report)
  · obtain ⟨report, rfl⟩ := hreport
    by_cases hrun : a.runId = some report.runId
    · have hrep : a.reported state (.run (.runFinished report)) =
          some (a.turnEnd state report.outcome) := if_pos hrun
      have hb : ({ a with running := none, cancelAcks := 0 } : AgentActor).busy = false := by
        simp [busy, hprep _ hrun]
      obtain ⟨hcount, hfails⟩ := concludeRun_nudges _ env state hp hb report.outcome
      have hevents : (a.handleCommand params env state (.run (.runFinished report))).events =
          (concludeRun { a with running := none, cancelAcks := 0 } params env state
            report.outcome).events := by
        simp only [handleCommand, handleRun, handleFinished, if_pos hrun]
        rfl
      have hfail : (a.handleCommand params env state (.run (.runFinished report))).fails =
          (concludeRun { a with running := none, cancelAcks := 0 } params env state
            report.outcome).fails := by
        simp only [handleCommand, handleRun, handleFinished, if_pos hrun, Effect.fails,
          Effect.after_outcomes, List.any_append]
        cases report.seedSummary <;> rfl
      rw [hrep, hevents, hfail]
      exact ⟨hcount, fun h => hfails (Option.some.inj h)⟩
    · have hrep : a.reported state (.run (.runFinished report)) = none := if_neg hrun
      have hstale : a.handleCommand params env state (.run (.runFinished report)) =
          { actor := a } := if_neg hrun
      rw [hrep, hstale]
      exact ⟨rfl, fun h => by cases h⟩
  · have hnone : a.reported state cmd = none := by
      unfold reported
      split
      · exact absurd ⟨_, rfl⟩ hreport
      all_goals rfl
    rw [hnone]
    refine ⟨?_, fun h => by cases h⟩
    by_cases hseed : ∃ st seed m, cmd = .seed (.seedFrom st seed m)
    · obtain ⟨st, seed, m, rfl⟩ := hseed
      refine handleSeed_nudges.trans ?_
      rw [show st.nudges = 0 from hfresh]
      rfl
    · have htakes : state.takes cmd = false := by
        unfold AgentState.takes
        split
        · exact absurd ⟨_, _, _, rfl⟩ hseed
        all_goals rfl
      rw [htakes, if_neg Bool.false_ne_true]
      exact AgentState.applyAll_nudges (handleCommand_uncounted hprogress
        (fun r h => hreport ⟨r, h⟩) fun st seed m h => hseed ⟨st, seed, m, h⟩)

end AgentActor

/-! ## Runs -/

variable {params : AgentParams} {w w' : World}

theorem emits_uncounted {pending pending' : List String} {e : AgentDomainEvent}
    (h : emits pending e = some pending') : e.counts = false := by
  cases e <;> first | rfl | cases h

theorem progress_uncounted (hw : (agentSystem params).Reachable w) {mail : Mail}
    (hm : mail ∈ w.mailbox) {es : List AgentDomainEvent}
    (hc : mail.cmd = .run (.persistProgress es)) : ∀ e ∈ es, e.counts = false := by
  rcases (mailed hw mail hm).progress_events hc with ⟨ms, rfl⟩ | ⟨e, pending, pending', rfl, he⟩
  · exact AgentActor.inputs_uncounted ms
  · intro x hx
    rw [List.mem_singleton.mp hx]
    exact emits_uncounted he

/-- A step from where the count is right leaves it right exactly when it is clean. -/
theorem tally_step (hp : params.requiresResult = true) (hw : (agentSystem params).Reachable w)
    {l : Label} (hs : World.Step params w l w') (hfresh : w.FreshSeeds l) :
    (w'.state.nudges = w.tally params l w' w.state.nudges ↔ w.Clean l) ∧
      (w.turnEnd l = some .text → w.fails params l = true →
        maxResultNudges ≤ w.state.nudges) := by
  unfold World.tally World.Clean
  cases hs with
  | @handle env mail rest _ hm =>
    have hhead : w.mailbox.head? = some mail := by rw [hm]; rfl
    have hturn : w.turnEnd (.handle env) = w.actor.reported w.state mail.cmd := by
      simp only [World.turnEnd, hhead, Option.bind_some]
    have hfails : w.fails params (.handle env) = (w.effect params env mail).fails := by
      simp only [World.fails, hhead, Option.any_some]
    have hseeds : w.seeds (.handle env) = w.state.takes mail.cmd := by
      simp only [World.seeds, hhead, Option.any_some]
    obtain ⟨hcount, htext⟩ := w.actor.handleCommand_nudges env w.state hp
      (fun es hc => progress_uncounted hw (hm ▸ List.mem_cons_self) hc)
      (fun k hrun => (fence hw).preparing hrun) (hfresh mail hhead)
    rw [hturn, hfails, hseeds]
    refine ⟨?_, htext⟩
    show (w.state.applyAll (w.effect params env mail).events).nudges = _ ↔ _
    cases hr : w.actor.reported w.state mail.cmd with
    | none =>
      rw [hr] at hcount
      refine iff_of_true hcount ⟨?_, fun h => by cases h⟩
      rintro (h | h) <;> cases h
    | some e =>
      rw [hr] at hcount
      refine (Eq.congr_left hcount).trans (TurnEnd.folded_eq_iff.trans ?_)
      simp only [Option.some_inj]
  | load | send | emit | finish | prepared | die =>
    refine ⟨iff_of_true rfl ⟨?_, fun h => by cases h⟩, fun h => by cases h⟩
    rintro (h | h) <;> cases h

theorem reachable_tally : (tallySystem params).Reachable (World.boot, 0) := .init ⟨rfl, rfl⟩

/-- In a run of an agent that owes a result, the journal's count is the number of turns that ended
without it, and the agent is failed only after enough of them, exactly when every turn that submits
or asks finds the count at zero. -/
theorem nudge_budget_iff (hp : params.requiresResult = true)
    {tr : List ((World × ℕ) × Label × (World × ℕ))} {x : World × ℕ}
    (h : (tallySystem params).Exec (World.boot, 0) tr x) :
    (∀ y ∈ tr, Budgeted params y.1 y.2.1 y.2.2) ↔ ∀ y ∈ tr, y.1.1.Clean y.2.1 := by
  refine h.steps_iff (G := fun x l => x.1.Clean l) (P := fun x => x.1.state.nudges = x.2)
    (Q := Budgeted params) (fun x l y hy => hy.counted) ?_ reachable_tally rfl
  rintro ⟨w, n⟩ l ⟨w', n'⟩ hreach hn ⟨⟨hs, hfresh⟩, hn'⟩
  dsimp only at hn hs hfresh hn'
  subst hn
  obtain ⟨hiff, hfails⟩ := tally_step hp hreach.fst.unrestrict hs hfresh
  rw [← hn'] at hiff
  constructor
  · intro hy
    exact hiff.mp hy.counted
  · intro hclean
    exact ⟨hiff.mpr hclean, hfails⟩

/-! ## Two runs -/

def stepParams : AgentParams := ⟨true, false, false⟩

/-- A step of a workflow's agent, with the turns counted. -/
def tallyStep? : World × ℕ → Label → Option (World × ℕ) :=
  Lib.System.recordStep? (World.tally stepParams)
    (Lib.System.guarded? World.FreshSeeds (World.step? stepParams))

theorem tallyStep?_sound (x : World × ℕ) (l : Label) (y : World × ℕ)
    (h : tallyStep? x l = some y) : (tallySystem stepParams).Step x l y := by
  refine Lib.System.recordStep?_sound 0 (fun w l w' h => ?_) x l y h
  obtain ⟨hfresh, h⟩ := Option.ite_none_right_eq_some.mp h
  exact ⟨World.step?_sound h, hfresh⟩

def stepEnv : Env := ⟨0, "m", "a", "t", false⟩

/-- The agent's first run, and its end with text. -/
def talkingLabels : List Label :=
  [.load stepEnv true [.queue (.enqueue (.user "u" "hello" []) false)], .handle stepEnv,
    .handle stepEnv, .finish ⟨0, .completed "done", none⟩, .handle stepEnv]

/-- The state it leaves, by steps that are clean. -/
def talkedWorld : World × ℕ :=
  (Lib.System.steps? (Lib.System.guarded? (fun x l => x.1.Clean l) tallyStep?) (World.boot, 0)
    talkingLabels).get (by decide +kernel)

/-- A turn that ends with text is counted. -/
theorem nudge_budget_talking : ∃ tr, (tallySystem stepParams).Exec (World.boot, 0) tr talkedWorld ∧
    tr.map (·.2.1) = talkingLabels ∧ ∀ y ∈ tr, Budgeted stepParams y.1 y.2.1 y.2.2 := by
  obtain ⟨tr, hexec, hlabels, hclean⟩ := Lib.System.exec_of_guarded? (M := tallySystem stepParams)
    (G := fun x l => x.1.Clean l) (fun x l y _ => tallyStep?_sound x l y)
    (Option.some_get _).symm
  exact ⟨tr, hexec, hlabels, (nudge_budget_iff rfl hexec).mpr hclean⟩

/-- A question, its answer, and a turn that ends with text. -/
def askingLabels : List Label :=
  [.emit 1 (.messageComplete ⟨"q", .assistant, [.toolCall ⟨"ask", askUserTool, .null⟩], 0, none⟩),
    .handle stepEnv, .finish ⟨1, .stopped [⟨askUserTool, "ask", .null⟩], none⟩, .handle stepEnv,
    .send (.queue (.answer [⟨"ask", "yes"⟩])), .handle stepEnv,
    .finish ⟨2, .completed "done", none⟩, .handle stepEnv, .finish ⟨3, .completed "done", none⟩]

def talliedWorld : World × ℕ :=
  (Lib.System.steps? tallyStep? (World.boot, 0) (talkingLabels ++ askingLabels)).get
    (by decide +kernel)

/-- One turn since the question ended without a result when the next one fails the step. -/
theorem healthy_step_failed :
    (∃ tr, (tallySystem stepParams).Exec (World.boot, 0) tr talliedWorld) ∧
    talliedWorld.1.state.nudges ≠ talliedWorld.2 ∧
    talliedWorld.1.turnEnd (.handle stepEnv) = some .text ∧
    talliedWorld.1.fails stepParams (.handle stepEnv) = true ∧
    talliedWorld.2 < maxResultNudges := by
  obtain ⟨tr, hexec, -⟩ := Lib.System.exec_of_steps? (M := tallySystem stepParams)
    tallyStep?_sound (Option.some_get _).symm
  exact ⟨⟨tr, hexec⟩, by decide +kernel, by decide +kernel, by decide +kernel, by decide +kernel⟩

end Horsie.Agent
