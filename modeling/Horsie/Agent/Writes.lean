import Horsie.Agent.Turns

/-!
# What a handler journals

Most of what a handler journals it makes by itself (`AgentDomainEvent.own`). The rest is one event
in front of that, or a batch that comes with the command: the questions a run ended on, a record of
the session's, a run's progress, hook records, a seed (`Writes`).
-/

namespace Horsie.Agent

/-- Whether an event is of a kind that handlers make by themselves. -/
def AgentDomainEvent.own : AgentDomainEvent → Bool
  | .inputMessage _ | .messageAborted _ | .toolComplete _ | .runCancelled _ | .timerArmed _ _
  | .timerCancelled _ _ | .timerFired _ _ _ | .parked _ | .nudged _ | .taskListChanged _ _
  | .received _ _ | .turnBegan _ _ _ => true
  | .seeded _ _ | .messageComplete _ | .hookRan _ _ _ | .runComplete _ _ _ _ | .runAborted _ _ _
  | .lifecycleRecorded _ _ | .compacted _ | .askRecorded _ _ => false

/-- What handling `cmd` in the state `s` journals. -/
inductive Writes (a : AgentActor) (env : Env) (s : AgentState) (cmd : AgentCommand)
    (es : List AgentDomainEvent) : Prop
  | own (h : ∀ x ∈ es, x.own = true)
  | asked (report : RunReport) (asks : List AskedQuestion) (rest : List AgentDomainEvent)
      (hc : cmd = .run (.runFinished report)) (hrun : a.runId = some report.runId)
      (he : es = .askRecorded asks env.now :: rest) (hrest : ∀ x ∈ rest, x.own = true)
  | recorded (event : LifecycleEvent) (atMs : ℕ) (rest : List AgentDomainEvent)
      (hc : cmd = .log (.recordLifecycle event atMs))
      (he : es = .lifecycleRecorded event atMs :: rest) (hrest : ∀ x ∈ rest, x.own = true)
  | hooks (records : List HookRecord) (ms : List Message)
      (he : es = hookEvents s records env.now ++ ms.map .inputMessage)
  | progress (hc : cmd = .run (.persistProgress es))
  | seeded (st : AgentState) (seed : Option Message) (m : Incoming)
      (hc : cmd = .seed (.seedFrom st seed m)) (hlog : s.log = []) (hin : s.inbox = [])
      (he : es = [.seeded st seed, .received m env.now])

namespace AgentActor

/-- An effect journals only events of the kinds a handler makes by itself. -/
def Own (e : Effect) : Prop := ∀ x ∈ e.events, x.own = true

theorem Own.congr {e e' : Effect} (h : Own e) (he : e'.events = e.events) : Own e' :=
  fun x hx => h x (he ▸ hx)

theorem own_of_nil {e : Effect} (h : e.events = []) : Own e := by
  simp [Own, h]

theorem Own.after {e : Effect} (h : Own e) {es : List AgentDomainEvent}
    (hes : ∀ x ∈ es, x.own = true) (os : List AgentOutcome) : Own (e.after es os) := by
  intro x hx
  rcases List.mem_append.mp hx with hx | hx
  · exact hes x hx
  · exact h x hx

theorem startPrepared_events (a : AgentActor) (env : Env) (s : AgentState)
    (prepared : PreparedStart) : ∃ ms : List Message,
      (a.startPrepared env s prepared).events =
        hookEvents s prepared.records env.now ++ ms.map .inputMessage := by
  unfold startPrepared
  split
  · exact ⟨[], by simp⟩
  · exact ⟨prepared.turn.inputMessages env, by simp [startRun]⟩

theorem beginTurn_own (a : AgentActor) (env : Env) (s : AgentState) (turn : Turn) :
    Own (a.beginTurn env s turn) := by
  unfold beginTurn
  split_ifs
  · obtain ⟨ms, hms⟩ := a.startPrepared_events env s ⟨turn, [], none⟩
    refine Own.after (fun x hx => ?_) (by simp [AgentDomainEvent.own]) _
    rw [hms] at hx
    obtain ⟨m, -, rfl⟩ := List.mem_map.mp hx
    rfl
  · simp [Own, AgentDomainEvent.own]

theorem tryDrain_own (a : AgentActor) (env : Env) (s : AgentState) :
    Own (a.tryDrain env s) := by
  rcases a.tryDrain_cases env s with ⟨h, -⟩ | ⟨turn, -, -, -, h⟩
  · exact h ▸ own_of_nil rfl
  · exact h ▸ a.beginTurn_own env s turn

theorem thenDrain_own (a : AgentActor) (env : Env) (s : AgentState) {es : List AgentDomainEvent}
    (hes : ∀ x ∈ es, x.own = true) (os : List AgentOutcome) : Own (a.thenDrain env s es os) :=
  (a.tryDrain_own env _).after hes os

theorem endedWithoutResult_own (a : AgentActor) (env : Env) (s : AgentState) :
    Own (a.endedWithoutResult env s) := by
  unfold endedWithoutResult
  dsimp only
  split_ifs
  · exact (a.tryDrain_own env s).congr (persistMaybeSnapshot_events _)
  · simp [Own, park, AgentDomainEvent.own]
  · exact own_of_nil rfl
  all_goals exact thenDrain_own _ env s (by simp [AgentDomainEvent.own]) _

theorem correctContradiction_own (a : AgentActor) (env : Env) (s : AgentState)
    (calls : List StoppedCall) : Own (a.correctContradiction env s calls) := by
  have hes : ∀ x ∈ contradictionEvents calls env.now, x.own = true := by
    intro x hx
    simp only [contradictionEvents, List.mem_append, List.mem_map, List.mem_singleton] at hx
    rcases hx with ⟨c, -, rfl⟩ | rfl <;> rfl
  unfold correctContradiction
  dsimp only
  split_ifs
  · exact hes
  · refine a.thenDrain_own env s (List.forall_mem_append.mpr ⟨hes, ?_⟩) []
    simp [AgentDomainEvent.own]

/-- A run that a tool ended journals events of its own, behind the questions if it asked any. -/
theorem stopped_events (a : AgentActor) (env : Env) (s : AgentState) (calls : List StoppedCall) :
    Own (a.stopped env s calls) ∨ ∃ asks rest,
      (a.stopped env s calls).events = .askRecorded asks env.now :: rest ∧
        ∀ x ∈ rest, x.own = true := by
  unfold stopped
  split
  · refine .inl ((a.thenDrain_own env s ?_ _).congr (persistMaybeSnapshot_events _))
    split_ifs <;> simp [AgentDomainEvent.own]
  · rename_i asks _
    exact .inr ⟨asks, _, rfl, a.tryDrain_own env _⟩
  · exact .inl (a.correctContradiction_own env s _)

theorem concludeRun_events (a : AgentActor) (params : AgentParams) (env : Env) (s : AgentState)
    (outcome : RunOutcome) : Own (a.concludeRun params env s outcome) ∨ ∃ asks rest,
      (a.concludeRun params env s outcome).events = .askRecorded asks env.now :: rest ∧
        ∀ x ∈ rest, x.own = true := by
  cases outcome with
  | completed text =>
    refine .inl (Own.after ?_ (by simp) [usageRecorded s])
    unfold completed
    dsimp only
    split_ifs
    · exact a.endedWithoutResult_own env s
    · exact (a.tryDrain_own env s).congr (persistMaybeSnapshot_events _)
    · simp [Own, park, AgentDomainEvent.own]
    · exact ((a.tryDrain_own env s).after (by simp) [.concluded (.str text)]).congr
        (persistMaybeSnapshot_events _)
  | stopped calls =>
    rcases a.stopped_events env s calls with h | h
    · exact .inl (h.after (by simp) [usageRecorded s])
    · exact .inr h
  | cancelled =>
    refine .inl (a.thenDrain_own env s (fun x hx => ?_) [usageRecorded s])
    simp only [cancelEvents, List.mem_append, List.mem_map, List.mem_singleton] at hx
    rcases hx with (⟨m, -, rfl⟩ | ⟨m, -, rfl⟩) | rfl <;> rfl
  | failed | alreadyReported => exact .inl (own_of_nil rfl)

theorem handleCommand_writes (a : AgentActor) (params : AgentParams) (env : Env) (s : AgentState)
    (cmd : AgentCommand) : Writes a env s cmd (a.handleCommand params env s cmd).events := by
  cases cmd with
  | queue c =>
    cases c with
    | enqueue => exact .own (by simp [handleCommand, handleQueue, AgentDomainEvent.own])
    | drain => exact .own (a.tryDrain_own env s)
    | answer answers =>
      refine .own ?_
      simp only [handleCommand, handleQueue]
      split_ifs
      · exact own_of_nil rfl
      · split
        · exact (a.beginTurn_own env s _).congr rfl
        · exact own_of_nil rfl
    | startPrepared prepared =>
      obtain ⟨ms, hms⟩ := startPrepared_events { a with preparing := false } env s prepared
      exact .hooks prepared.records ms hms
  | run c =>
    cases c with
    | cancel ack =>
      refine .own ?_
      simp only [handleCommand, handleRun]
      split <;> exact own_of_nil rfl
    | persistProgress es => exact .progress rfl
    | runFinished report =>
      by_cases hrun : a.runId = some report.runId
      · have hes : (a.handleCommand params env s (.run (.runFinished report))).events =
            (concludeRun { a with running := none, cancelAcks := 0 } params env s
              report.outcome).events := by
          simp only [handleCommand, handleRun, handleFinished, if_pos hrun]
          rfl
        rcases concludeRun_events { a with running := none, cancelAcks := 0 } params env s
          report.outcome with h | ⟨asks, rest, h, hrest⟩
        · exact .own (hes ▸ h)
        · exact .asked report asks rest rfl hrun (hes.trans h) hrest
      · have hstale : a.handleCommand params env s (.run (.runFinished report)) =
            { actor := a } := if_neg hrun
        exact .own (own_of_nil (congrArg Effect.events hstale))
  | timer c =>
    refine .own ?_
    cases c with
    | armTimer => simp [handleCommand, handleTimer, AgentDomainEvent.own]
    | listTimers => exact own_of_nil rfl
    | cancelTimer selector =>
      simp only [handleCommand, handleTimer]
      split_ifs <;> simp [AgentDomainEvent.own]
    | timerFired id =>
      rcases a.handleTimerFired_cases env s id with h | ⟨next, item, h, -⟩
      · exact own_of_nil (congrArg Effect.events h)
      · exact (a.thenDrain_own env s (by simp [AgentDomainEvent.own]) []).congr h
  | taskList action =>
    refine .own ?_
    simp only [handleCommand, handleTaskList]
    split
    · simp [AgentDomainEvent.own]
    · exact own_of_nil rfl
  | read | shutdown => exact .own fun x hx => absurd hx List.not_mem_nil
  | log c =>
    cases c with
    | recordLifecycle event atMs =>
      simp only [handleCommand, handleLog]
      split_ifs
      · exact .recorded event atMs [] rfl rfl fun x hx => absurd hx List.not_mem_nil
      · exact .recorded event atMs _ rfl rfl (tryDrain_own _ env _)
    | recordDelta => exact .own fun x hx => absurd hx List.not_mem_nil
    | hooksRan records => exact .hooks records [] (List.append_nil _).symm
  | seed c =>
    cases c with
    | snapshot => exact .own fun x hx => absurd hx List.not_mem_nil
    | seedFrom st seed m =>
      simp only [handleCommand, handleSeed]
      split_ifs with hfull
      · exact .own (own_of_nil rfl)
      · simp only [Bool.or_eq_true, Bool.not_eq_true', not_or, Bool.not_eq_false] at hfull
        exact .seeded st seed m rfl (List.isEmpty_iff.mp hfull.1) (List.isEmpty_iff.mp hfull.2)
          rfl

end AgentActor

end Horsie.Agent
