import Horsie.Agent.Actor

/-!
# What starting a turn does

Each handler either launches nothing, a run or a preparation (`Launch`), and starting one of the
latter two makes the agent busy. `Settled` is the state a drain leaves: busy, not ready, or with a
queue that starts no turn.
-/

namespace Horsie.Agent

def Task.run? : Task → Option RunTask
  | .run task => some task
  | .prepare _ _ | .sleep _ _ => none

def Task.prepare? : Task → Option Turn
  | .prepare _ turn => some turn
  | .run _ | .sleep _ _ => none

namespace Effect

def runs (e : Effect) : List RunTask := e.tasks.filterMap Task.run?

def prepares (e : Effect) : List Turn := e.tasks.filterMap Task.prepare?

@[simp] theorem after_actor (e : Effect) (es : List AgentDomainEvent) (os : List AgentOutcome) :
    (e.after es os).actor = e.actor := rfl

@[simp] theorem after_events (e : Effect) (es : List AgentDomainEvent) (os : List AgentOutcome) :
    (e.after es os).events = es ++ e.events := rfl

@[simp] theorem after_outcomes (e : Effect) (es : List AgentDomainEvent)
    (os : List AgentOutcome) : (e.after es os).outcomes = os ++ e.outcomes := rfl

@[simp] theorem after_tells (e : Effect) (es : List AgentDomainEvent) (os : List AgentOutcome) :
    (e.after es os).tells = e.tells := rfl

@[simp] theorem after_tasks (e : Effect) (es : List AgentDomainEvent) (os : List AgentOutcome) :
    (e.after es os).tasks = e.tasks := rfl

@[simp] theorem after_runs (e : Effect) (es : List AgentDomainEvent) (os : List AgentOutcome) :
    (e.after es os).runs = e.runs := rfl

@[simp] theorem after_prepares (e : Effect) (es : List AgentDomainEvent)
    (os : List AgentOutcome) : (e.after es os).prepares = e.prepares := rfl

end Effect

namespace AgentActor

variable (a : AgentActor) (params : AgentParams) (env : Env) (state : AgentState)

@[simp] theorem andSnapshot_events (e : Effect) : (andSnapshot e).events = e.events := rfl

@[simp] theorem andSnapshot_outcomes (e : Effect) : (andSnapshot e).outcomes = e.outcomes := rfl

@[simp] theorem persistMaybeSnapshot_events (e : Effect) :
    (persistMaybeSnapshot e).events = e.events := by
  unfold persistMaybeSnapshot
  split_ifs <;> rfl

@[simp] theorem persistMaybeSnapshot_outcomes (e : Effect) :
    (persistMaybeSnapshot e).outcomes = e.outcomes := by
  unfold persistMaybeSnapshot
  split_ifs <;> rfl

@[simp] theorem persistMaybeSnapshot_tasks (e : Effect) :
    (persistMaybeSnapshot e).tasks = e.tasks := by
  unfold persistMaybeSnapshot
  split_ifs <;> rfl

/-! ## Launching -/

def Modest (e : Effect) : Prop := ∀ c ∈ e.tells, c = .queue .drain

/-- What an effect launches, decided by the actor `a`: nothing, a run or a preparation, the latter
two only when no turn is in flight. -/
inductive Launch (a : AgentActor) (e : Effect) : Prop
  | quiet (ht : Modest e) (hr : e.runs = []) (hp : e.prepares = [])
      (hrun : e.actor.runId = a.runId) (hprep : e.actor.preparing = a.preparing)
      (hnext : e.actor.nextRunId = a.nextRunId)
  | ran (task : RunTask) (ht : Modest e) (hr : e.runs = [task]) (hp : e.prepares = [])
      (hbusy : a.busy = false) (hid : task.id = a.nextRunId)
      (hrun : e.actor.runId = some a.nextRunId) (hprep : e.actor.preparing = false)
      (hnext : e.actor.nextRunId = a.nextRunId + 1)
  | prepared (turn : Turn) (ht : Modest e) (hr : e.runs = []) (hp : e.prepares = [turn])
      (hbusy : a.busy = false) (hrun : e.actor.runId = none) (hprep : e.actor.preparing = true)
      (hnext : e.actor.nextRunId = a.nextRunId)

variable {a params env state}

theorem busy_eq_false : a.busy = false ↔ a.runId = none ∧ a.preparing = false := by
  simp [busy, runId]

variable {e : Effect}

theorem modest_of_nil (h : e.tells = []) : Modest e := by
  simp [Modest, h]

theorem Launch.modest (h : Launch a e) : Modest e := by
  cases h <;> assumption

theorem Launch.idle (ht : e.tasks = []) (ha : e.actor = a) (hm : Modest e) :
    Launch a e :=
  .quiet hm (by rw [Effect.runs, ht]; rfl) (by rw [Effect.prepares, ht]; rfl) (by rw [ha])
    (by rw [ha]) (by rw [ha])

theorem Launch.congr {e' : Effect} (h : Launch a e) (ht : e'.tells = e.tells)
    (hr : e'.runs = e.runs) (hp : e'.prepares = e.prepares)
    (hrun : e'.actor.runId = e.actor.runId) (hprep : e'.actor.preparing = e.actor.preparing)
    (hnext : e'.actor.nextRunId = e.actor.nextRunId) : Launch a e' := by
  have hm : Modest e' := fun c hc => h.modest c (ht ▸ hc)
  cases h with
  | quiet _ h1 h2 h3 h4 h5 =>
    exact .quiet hm (hr.trans h1) (hp.trans h2) (hrun.trans h3) (hprep.trans h4) (hnext.trans h5)
  | ran task _ h1 h2 hb hid h3 h4 h5 =>
    exact .ran task hm (hr.trans h1) (hp.trans h2) hb hid (hrun.trans h3) (hprep.trans h4)
      (hnext.trans h5)
  | prepared turn _ h1 h2 hb h3 h4 h5 =>
    exact .prepared turn hm (hr.trans h1) (hp.trans h2) hb (hrun.trans h3) (hprep.trans h4)
      (hnext.trans h5)

theorem Launch.of_eq {b : AgentActor} (h : Launch b e) (hrun : b.runId = a.runId)
    (hprep : b.preparing = a.preparing) (hnext : b.nextRunId = a.nextRunId) : Launch a e := by
  have hb : b.busy = false → a.busy = false := fun h => by
    rwa [busy_eq_false, ← hrun, ← hprep, ← busy_eq_false]
  cases h with
  | quiet hm h1 h2 h3 h4 h5 =>
    exact .quiet hm h1 h2 (h3.trans hrun) (h4.trans hprep) (h5.trans hnext)
  | ran task hm h1 h2 h hid h3 h4 h5 =>
    exact .ran task hm h1 h2 (hb h) (hnext ▸ hid) (hnext ▸ h3) h4 (hnext ▸ h5)
  | prepared turn hm h1 h2 h h3 h4 h5 =>
    exact .prepared turn hm h1 h2 (hb h) h3 h4 (hnext ▸ h5)

theorem Launch.busy (h : Launch a e) (hne : ¬ (e.runs = [] ∧ e.prepares = [])) :
    e.actor.busy = true ∧ a.busy = false := by
  cases h with
  | quiet _ hr hp => exact absurd ⟨hr, hp⟩ hne
  | ran task _ _ _ hb _ hrun =>
    obtain ⟨run, hrun, -⟩ := Option.map_eq_some_iff.mp hrun
    exact ⟨by simp [AgentActor.busy, hrun], hb⟩
  | prepared turn _ _ _ hb _ hprep => exact ⟨by simp [AgentActor.busy, hprep], hb⟩

theorem Launch.after (h : Launch a e) (es : List AgentDomainEvent)
    (os : List AgentOutcome) : Launch a (e.after es os) := h.congr rfl rfl rfl rfl rfl rfl

theorem Launch.andSnapshot (h : Launch a e) : Launch a (andSnapshot e) :=
  h.congr rfl rfl rfl rfl rfl rfl

theorem Launch.persistMaybeSnapshot (h : Launch a e) :
    Launch a (persistMaybeSnapshot e) := by
  unfold AgentActor.persistMaybeSnapshot
  split_ifs
  · exact h
  · exact h.congr rfl rfl rfl rfl rfl rfl

theorem startRun_launch (hb : a.busy = false) (input : AgentInput) (history : List Message)
    (tokens : ℕ) (s : Option Summarise) (only : Bool) :
    Launch a (a.startRun input history tokens s only) :=
  .ran _ (modest_of_nil rfl) rfl rfl hb rfl rfl (busy_eq_false.mp hb).2 rfl

theorem startPrepared_launch (hb : a.busy = false) (prepared : PreparedStart) :
    Launch a (a.startPrepared env state prepared) := by
  unfold startPrepared
  split
  · exact .idle rfl rfl (modest_of_nil rfl)
  · exact (startRun_launch hb _ _ _ _ _).after _ _

theorem beginTurn_launch (hb : a.busy = false) (turn : Turn) :
    Launch a (a.beginTurn env state turn) := by
  unfold beginTurn
  split_ifs
  · exact (startPrepared_launch hb _).after _ _
  · exact .prepared turn (modest_of_nil rfl) rfl rfl hb (busy_eq_false.mp hb).1 rfl rfl

/-! ## Draining -/

/-- What a drain does: nothing, when a turn is in flight, the agent is not ready or its queue
starts no turn; the queued turn otherwise. -/
theorem tryDrain_cases (a : AgentActor) (env : Env) (state : AgentState) :
    (a.tryDrain env state = { actor := a } ∧
        (a.busy = true ∨ a.ready = false ∨ queuedTurn state.inbox state.asks = none)) ∨
      ∃ turn, a.busy = false ∧ a.ready = true ∧ queuedTurn state.inbox state.asks = some turn ∧
        a.tryDrain env state = a.beginTurn env state turn := by
  unfold tryDrain
  by_cases hb : a.busy = true
  · exact .inl ⟨by simp [hb], .inl hb⟩
  · by_cases hr : a.ready = true
    · rw [if_neg (by simp [hb, hr])]
      cases queuedTurn state.inbox state.asks with
      | none => exact .inl ⟨rfl, .inr (.inr rfl)⟩
      | some turn => exact .inr ⟨turn, Bool.eq_false_iff.mpr hb, hr, rfl, rfl⟩
    · exact .inl ⟨by simp [hr], .inr (.inl (Bool.eq_false_iff.mpr hr))⟩

theorem tryDrain_launch (a : AgentActor) (env : Env) (state : AgentState) :
    Launch a (a.tryDrain env state) := by
  rcases a.tryDrain_cases env state with ⟨h, -⟩ | ⟨turn, hb, -, -, h⟩
  · rw [h]
    exact .idle rfl rfl (modest_of_nil rfl)
  · rw [h]
    exact beginTurn_launch hb turn

theorem thenDrain_launch (a : AgentActor) (env : Env) (state : AgentState)
    (es : List AgentDomainEvent) (os : List AgentOutcome) :
    Launch a (a.thenDrain env state es os) := (a.tryDrain_launch env _).after es os

theorem beginTurn_events (a : AgentActor) (env : Env) (state : AgentState) (turn : Turn) :
    ∃ es, (a.beginTurn env state turn).events =
      .turnBegan turn.consumed turn.answered env.now :: es := by
  unfold beginTurn
  split_ifs
  · exact ⟨_, rfl⟩
  · exact ⟨[], rfl⟩

theorem beginTurn_events_now {turn : Turn} (h : (a.beginTurn env state turn).prepares = []) :
    (a.beginTurn env state turn).events =
      .turnBegan turn.consumed turn.answered env.now ::
        (turn.inputMessages env).map .inputMessage := by
  unfold beginTurn at h ⊢
  split_ifs at h ⊢ with hdue
  · simp [startPrepared, hookEvents, startRun]
  · exact absurd h (by simp [Effect.prepares, Task.prepare?])

theorem beginTurn_prepares {turn : Turn} (h : (a.beginTurn env state turn).prepares ≠ []) :
    (a.beginTurn env state turn).prepares = [turn] ∧
      (a.beginTurn env state turn).events =
        [.turnBegan turn.consumed turn.answered env.now] := by
  unfold beginTurn at h ⊢
  split_ifs at h ⊢ with hdue
  · exact absurd rfl h
  · exact ⟨rfl, rfl⟩

theorem beginTurn_busy (a : AgentActor) (env : Env) (state : AgentState) (turn : Turn) :
    (a.beginTurn env state turn).actor.busy = true := by
  unfold beginTurn
  split_ifs
  · rfl
  · simp [busy]

theorem beginTurn_outcomes (a : AgentActor) (env : Env) (state : AgentState) (turn : Turn) :
    (a.beginTurn env state turn).outcomes = [.started] := by
  unfold beginTurn
  split_ifs <;> rfl

theorem tryDrain_events_isEmpty (a : AgentActor) (env : Env) (state : AgentState) :
    (a.tryDrain env state).events.isEmpty = true ↔ a.tryDrain env state = { actor := a } := by
  rcases a.tryDrain_cases env state with ⟨h, -⟩ | ⟨turn, -, -, -, h⟩
  · simp [h]
  · obtain ⟨es, hes⟩ := a.beginTurn_events env state turn
    rw [h]
    refine ⟨fun he => ?_, fun he => by rw [he]; rfl⟩
    rw [hes] at he
    cases he

/-- The state a drain leaves: a turn in flight, an agent that is not ready, or a queue that starts
no turn. -/
def Settled (a : AgentActor) (state : AgentState) : Prop :=
  a.busy = true ∨ a.ready = false ∨ queuedTurn state.inbox state.asks = none

theorem tryDrain_settled (a : AgentActor) (env : Env) (state : AgentState) :
    (a.tryDrain env state).actor.Settled (state.applyAll (a.tryDrain env state).events) := by
  rcases a.tryDrain_cases env state with ⟨h, hs⟩ | ⟨turn, -, -, -, h⟩
  · rw [h]
    exact hs
  · rw [h]
    exact .inl (a.beginTurn_busy env state turn)

theorem thenDrain_settled (a : AgentActor) (env : Env) (state : AgentState)
    (es : List AgentDomainEvent) (os : List AgentOutcome) :
    (a.thenDrain env state es os).actor.Settled
      (state.applyAll (a.thenDrain env state es os).events) := by
  rw [thenDrain, Effect.after_events, AgentState.applyAll_append]
  exact a.tryDrain_settled env _

theorem handleTimerFired_cases (a : AgentActor) (env : Env) (state : AgentState) (id : String) :
    a.handleTimerFired env state id = { actor := a } ∨
      ∃ next item,
        (a.handleTimerFired env state id).events = (a.thenDrain env state
          [.timerFired id next env.now, .received item env.now] []).events ∧
        (a.handleTimerFired env state id).runs = (a.thenDrain env state
          [.timerFired id next env.now, .received item env.now] []).runs ∧
        (a.handleTimerFired env state id).prepares = (a.thenDrain env state
          [.timerFired id next env.now, .received item env.now] []).prepares := by
  unfold handleTimerFired
  cases state.timers.find? (·.id = id) with
  | none => exact .inl rfl
  | some record =>
    refine .inr ⟨_, _, rfl, ?_, ?_⟩
    · simp only [Effect.runs, List.filterMap_append]
      cases record.kind <;> rfl
    · simp only [Effect.prepares, List.filterMap_append]
      cases record.kind <;> rfl

/-! ## Every handler launches at most one thing -/

theorem park_launch (a : AgentActor) (env : Env) : Launch a (a.park env) :=
  .quiet (modest_of_nil rfl) rfl rfl rfl rfl rfl

theorem endedWithoutResult_launch (a : AgentActor) (env : Env) (state : AgentState) :
    Launch a (a.endedWithoutResult env state) := by
  unfold endedWithoutResult
  dsimp only
  split_ifs
  · exact (a.tryDrain_launch env state).persistMaybeSnapshot
  · exact a.park_launch env
  · exact .idle rfl rfl (modest_of_nil rfl)
  · exact (thenDrain_launch _ env state _ _).of_eq rfl rfl rfl
  · exact thenDrain_launch a env state _ _

theorem correctContradiction_launch (a : AgentActor) (env : Env) (state : AgentState)
    (calls : List StoppedCall) : Launch a (a.correctContradiction env state calls) := by
  unfold correctContradiction
  dsimp only
  split_ifs
  · exact .idle rfl rfl (modest_of_nil rfl)
  · exact a.thenDrain_launch env state _ _

theorem concludeRun_launch (a : AgentActor) (params : AgentParams) (env : Env)
    (state : AgentState) (outcome : RunOutcome) :
    Launch a (a.concludeRun params env state outcome) := by
  cases outcome with
  | completed text =>
    refine Launch.after ?_ _ _
    unfold completed
    dsimp only
    split_ifs
    · exact a.endedWithoutResult_launch env state
    · exact (a.tryDrain_launch env state).persistMaybeSnapshot
    · exact a.park_launch env
    · exact ((a.tryDrain_launch env state).after _ _).persistMaybeSnapshot
  | stopped calls =>
    refine Launch.after ?_ _ _
    unfold stopped
    split
    · exact (a.thenDrain_launch env state _ _).persistMaybeSnapshot
    · exact (a.thenDrain_launch env state _ _).andSnapshot
    · exact a.correctContradiction_launch env state _
  | cancelled => exact (a.thenDrain_launch env state _ _).andSnapshot
  | failed error recoverable => exact .idle rfl rfl (modest_of_nil rfl)
  | alreadyReported => exact .idle rfl rfl (modest_of_nil rfl)

/-- The actor a command finds, once the turn the command is about is taken off it: the run a
report ends, or the preparation that came back. -/
def cleared (a : AgentActor) : AgentCommand → AgentActor
  | .run (.runFinished report) =>
    if a.runId = some report.runId then { a with running := none, cancelAcks := 0 } else a
  | .queue (.startPrepared _) => { a with preparing := false }
  | .queue _ | .run _ | .timer _ | .taskList _ | .read | .log _ | .seed _ | .shutdown => a

theorem handleCommand_launch (a : AgentActor) (params : AgentParams) (env : Env)
    (state : AgentState) (cmd : AgentCommand)
    (hprep : ∀ p, cmd = .queue (.startPrepared p) → a.runId = none) :
    Launch (a.cleared cmd) (a.handleCommand params env state cmd) := by
  cases cmd with
  | queue c =>
    cases c with
    | enqueue item ack => exact .idle rfl rfl (by simp [Modest, handleCommand, handleQueue])
    | drain => exact a.tryDrain_launch env state
    | answer answers =>
      simp only [handleCommand, handleQueue]
      split_ifs with hb
      · exact .idle rfl rfl (modest_of_nil rfl)
      · split
        · exact (beginTurn_launch (Bool.eq_false_iff.mpr hb) _).congr rfl rfl rfl rfl rfl rfl
        · exact .idle rfl rfl (modest_of_nil rfl)
    | startPrepared prepared =>
      have hb : ({ a with preparing := false } : AgentActor).busy = false :=
        busy_eq_false.mpr ⟨hprep prepared rfl, rfl⟩
      exact startPrepared_launch hb prepared
  | run c =>
    cases c with
    | cancel ack =>
      simp only [handleCommand, handleRun]
      split
      · exact .quiet (modest_of_nil rfl) rfl rfl (by simp_all [runId, cleared]) rfl rfl
      · exact .idle rfl rfl (modest_of_nil rfl)
    | persistProgress events => exact .idle rfl rfl (modest_of_nil rfl)
    | runFinished report =>
      simp only [handleCommand, handleRun, handleFinished, cleared]
      split_ifs
      · exact (concludeRun_launch _ params env state _).congr rfl rfl rfl rfl rfl rfl
      · exact .idle rfl rfl (modest_of_nil rfl)
  | timer c =>
    cases c with
    | armTimer label message kind secs => exact .quiet (modest_of_nil rfl) rfl rfl rfl rfl rfl
    | listTimers => exact .idle rfl rfl (modest_of_nil rfl)
    | cancelTimer selector => exact .idle rfl rfl (modest_of_nil rfl)
    | timerFired id =>
      simp only [handleCommand, handleTimer, handleTimerFired]
      split
      · exact .idle rfl rfl (modest_of_nil rfl)
      · rename_i record hrecord
        refine (a.thenDrain_launch env state _ []).congr rfl ?_ ?_ rfl rfl rfl <;>
          cases record.kind <;> rfl
  | taskList action =>
    simp only [handleCommand, handleTaskList]
    split <;> exact .idle rfl rfl (modest_of_nil rfl)
  | read => exact .idle rfl rfl (modest_of_nil rfl)
  | log c =>
    cases c with
    | recordLifecycle event atMs =>
      simp only [handleCommand, handleLog]
      split_ifs
      · exact .quiet (modest_of_nil rfl) rfl rfl rfl rfl rfl
      · exact (thenDrain_launch _ env state _ _).of_eq rfl rfl rfl
    | recordDelta text => exact .quiet (modest_of_nil rfl) rfl rfl rfl rfl rfl
    | hooksRan records => exact .idle rfl rfl (modest_of_nil rfl)
  | seed c =>
    cases c with
    | snapshot atSeq => exact .idle rfl rfl (modest_of_nil rfl)
    | seedFrom seeded seed message =>
      simp only [handleCommand, handleSeed]
      split_ifs <;> exact .idle rfl rfl (by simp [Modest])
  | shutdown => exact .idle rfl rfl (modest_of_nil rfl)

/-! ## Loading -/

theorem onRecoveryComplete_tells (a : AgentActor) (params : AgentParams) (env : Env)
    (state : AgentState) :
    ∀ c ∈ (a.onRecoveryComplete params env state).tells, c = .run (.persistProgress
      ((missingToolResults state.promptMessages state.parkedCallIds env.now).map
        .inputMessage)) := by
  intro c hc
  unfold onRecoveryComplete at hc
  dsimp only at hc
  split_ifs at hc
  · cases hc
  · exact List.mem_singleton.mp hc

theorem onRecoveryComplete_cases (a : AgentActor) (params : AgentParams) (env : Env)
    (state : AgentState) :
    (selfContinues params state = false ∧ (a.onRecoveryComplete params env state).actor = a ∧
        (a.onRecoveryComplete params env state).runs = []) ∨
      selfContinues params state = true ∧
        (a.onRecoveryComplete params env state).actor = (a.startRun
          (.userMessage ⟨env.messageId, "continue the interrupted task", [], []⟩)
          (repairDangling state.promptMessages [] env.now) state.contextTokens none false).actor ∧
        (a.onRecoveryComplete params env state).runs = (a.startRun
          (.userMessage ⟨env.messageId, "continue the interrupted task", [], []⟩)
          (repairDangling state.promptMessages [] env.now)
          state.contextTokens none false).runs := by
  have hsleeps : ∀ (ts : List TimerRecord) (tasks : List Task),
      ((ts.map fun t => Task.sleep t.id (t.remaining env.now)) ++ tasks).filterMap Task.run? =
        tasks.filterMap Task.run? := by
    intro ts tasks
    rw [List.filterMap_append, List.filterMap_map]
    simp [Function.comp_def, Task.run?]
  unfold onRecoveryComplete
  dsimp only [Effect.runs]
  simp only [hsleeps]
  by_cases hself : selfContinues params state = true
  · exact .inr ⟨hself, by rw [if_pos hself], by rw [if_pos hself]⟩
  · exact .inl ⟨Bool.eq_false_iff.mpr hself, by rw [if_neg hself], by rw [if_neg hself]; rfl⟩

end AgentActor

end Horsie.Agent
