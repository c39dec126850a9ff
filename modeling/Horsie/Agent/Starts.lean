import Horsie.Agent.RunEnd

/-!
# What a handler begins

Every handler but the one of a preparation that came back either starts nothing, or journals some
events of its own and then begins the turn the queue makes (`Starting`). The invariants about the
turn in flight are read off this one case analysis.
-/

namespace Horsie.Agent

namespace AgentActor

/-- An effect decided in the state `s` starts nothing, or ends by beginning the whole queue. -/
inductive Starting (env : Env) (s : AgentState) (e : Effect) : Prop
  | nothing (hr : e.runs = []) (hp : e.prepares = []) (hb : ¬ e.Begins)
  | turn (b : AgentActor) (es : List AgentDomainEvent) (t : Turn) (answered : List String)
      (results : List ToolResultInput) (hes : ∀ c an when, .turnBegan c an when ∉ es)
      (hb : b.busy = false)
      (ht : t = { drain (s.applyAll es).inbox with answered, results })
      (he : e.events = es ++ (b.beginTurn env (s.applyAll es) t).events)
      (hr : e.runs = (b.beginTurn env (s.applyAll es) t).runs)
      (hp : e.prepares = (b.beginTurn env (s.applyAll es) t).prepares)

variable {a : AgentActor} {params : AgentParams} {env : Env} {s : AgentState}

variable {e : Effect}

theorem Starting.congr {e' : Effect} (h : Starting env s e) (he : e'.events = e.events)
    (hr : e'.runs = e.runs) (hp : e'.prepares = e.prepares) : Starting env s e' := by
  cases h with
  | nothing h1 h2 h3 => exact .nothing (hr.trans h1) (hp.trans h2) (by rwa [Effect.Begins, he])
  | turn b es t an rs hes hb ht h1 h2 h3 =>
    exact .turn b es t an rs hes hb ht (he.trans h1) (hr.trans h2) (hp.trans h3)

variable {es : List AgentDomainEvent}

/-- Events of the handler's own before the rest of its effect is decided. -/
theorem Starting.after
    (h : Starting env (s.applyAll es) e) (hes : ∀ c an when, .turnBegan c an when ∉ es)
    (os : List AgentOutcome) : Starting env s (e.after es os) := by
  cases h with
  | nothing hr hp hb =>
    refine .nothing hr hp ?_
    rintro ⟨c, an, when, hmem⟩
    rcases List.mem_append.mp hmem with hmem | hmem
    · exact hes c an when hmem
    · exact hb ⟨c, an, when, hmem⟩
  | turn b fs t an rs hfs hb ht he hr hp =>
    rw [← AgentState.applyAll_append] at ht he hr hp
    refine .turn b (es ++ fs) t an rs (fun c an when hmem => ?_) hb ht ?_ hr hp
    · rcases List.mem_append.mp hmem with hmem | hmem
      · exact hes c an when hmem
      · exact hfs c an when hmem
    · rw [Effect.after_events, he, List.append_assoc]

theorem Starting.idle (ht : e.tasks = [])
    (hb : ∀ c an when, .turnBegan c an when ∉ e.events) : Starting env s e :=
  .nothing (by rw [Effect.runs, ht]; rfl) (by rw [Effect.prepares, ht]; rfl)
    fun ⟨c, an, when, h⟩ => hb c an when h

theorem tryDrain_starting (a : AgentActor) (env : Env) (s : AgentState) :
    Starting env s (a.tryDrain env s) := by
  rcases a.tryDrain_cases env s with ⟨h, -⟩ | ⟨turn, hb, -, hq, h⟩
  · rw [h]
    exact .idle rfl fun _ _ _ => List.not_mem_nil
  · rw [h]
    exact .turn a [] turn _ _ (fun _ _ _ => List.not_mem_nil) hb (queuedTurn_eq_some hq) rfl rfl rfl

theorem thenDrain_starting (a : AgentActor) (env : Env) (s : AgentState)
    (hes : ∀ c an when, .turnBegan c an when ∉ es)
    (os : List AgentOutcome) : Starting env s (a.thenDrain env s es os) :=
  (a.tryDrain_starting env _).after hes os

theorem persistMaybeSnapshot_starting (h : Starting env s e) :
    Starting env s (persistMaybeSnapshot e) :=
  h.congr (persistMaybeSnapshot_events e) (by rw [Effect.runs, persistMaybeSnapshot_tasks]; rfl)
    (by rw [Effect.prepares, persistMaybeSnapshot_tasks]; rfl)

theorem not_began_of_queues (h : ∀ e ∈ es, e.queues = false) :
    ∀ c an when, .turnBegan c an when ∉ es :=
  fun _ _ _ hmem => absurd (h _ hmem) (by simp [AgentDomainEvent.queues])

/-! ## The handlers -/

theorem endedWithoutResult_starting (a : AgentActor) (env : Env) (s : AgentState) :
    Starting env s (a.endedWithoutResult env s) := by
  unfold endedWithoutResult
  dsimp only
  split_ifs
  · exact persistMaybeSnapshot_starting (a.tryDrain_starting env s)
  · exact .idle rfl (by simp [park])
  · exact .idle rfl fun _ _ _ => List.not_mem_nil
  all_goals exact thenDrain_starting _ env s (by simp) _

theorem completed_starting (a : AgentActor) (params : AgentParams) (env : Env) (s : AgentState)
    (text : String) : Starting env s (a.completed params env s text) := by
  unfold completed
  dsimp only
  split_ifs
  · exact a.endedWithoutResult_starting env s
  · exact persistMaybeSnapshot_starting (a.tryDrain_starting env s)
  · exact .idle rfl (by simp [park])
  · exact persistMaybeSnapshot_starting
      ((a.tryDrain_starting env s).after (fun _ _ _ => List.not_mem_nil) _)

theorem stopped_starting (a : AgentActor) (env : Env) (s : AgentState) (calls : List StoppedCall) :
    Starting env s (a.stopped env s calls) := by
  unfold stopped
  split
  · refine persistMaybeSnapshot_starting (a.thenDrain_starting env s ?_ _)
    split_ifs <;> simp
  · rename_i asks _
    exact Starting.congr (a.thenDrain_starting env s (by simp) [.asked asks]) rfl rfl rfl
  · rename_i calls _
    have hcontra := not_began_of_queues (contradictionEvents_queues calls env.now)
    unfold correctContradiction
    dsimp only
    split_ifs
    · exact .idle rfl hcontra
    · exact a.thenDrain_starting env s (by simpa using hcontra) _

theorem cancelEvents_not_began (a : AgentActor) (env : Env) (s : AgentState) :
    ∀ c an when, .turnBegan c an when ∉ a.cancelEvents env s := by
  simp [cancelEvents]

theorem concludeRun_starting (a : AgentActor) (params : AgentParams) (env : Env) (s : AgentState)
    (outcome : RunOutcome) : Starting env s (a.concludeRun params env s outcome) := by
  cases outcome with
  | completed text =>
    exact (a.completed_starting params env s text).after (fun _ _ _ => List.not_mem_nil) _
  | stopped calls =>
    exact (a.stopped_starting env s calls).after (fun _ _ _ => List.not_mem_nil) _
  | cancelled =>
    exact Starting.congr
      (a.thenDrain_starting env s (a.cancelEvents_not_began env s) [usageRecorded s]) rfl rfl rfl
  | failed | alreadyReported => exact .idle rfl fun _ _ _ => List.not_mem_nil

theorem handleCommand_starting (a : AgentActor) (params : AgentParams) (env : Env)
    (s : AgentState) {cmd : AgentCommand} (hprep : ∀ p, cmd ≠ .queue (.startPrepared p))
    (hplain : ∀ es, cmd = .run (.persistProgress es) → ∀ e ∈ es, e.queues = false) :
    Starting env s (a.handleCommand params env s cmd) := by
  cases cmd with
  | queue c =>
    cases c with
    | enqueue item ack => exact .idle rfl (by simp [handleCommand, handleQueue])
    | drain => exact a.tryDrain_starting env s
    | answer answers =>
      simp only [handleCommand, handleQueue]
      split_ifs with hb
      · exact .idle rfl fun _ _ _ => List.not_mem_nil
      · split
        · rename_i turn hturn
          exact .turn a [] turn _ _ (fun _ _ _ => List.not_mem_nil) (Bool.eq_false_iff.mpr hb)
            (answeredTurn_eq_ok hturn) rfl rfl rfl
        · exact .idle rfl fun _ _ _ => List.not_mem_nil
    | startPrepared prepared => exact absurd rfl (hprep prepared)
  | run c =>
    cases c with
    | cancel ack =>
      simp only [handleCommand, handleRun]
      split <;> exact .idle rfl fun _ _ _ => List.not_mem_nil
    | persistProgress es => exact .idle rfl (not_began_of_queues (hplain es rfl))
    | runFinished report =>
      simp only [handleCommand, handleRun, handleFinished]
      split_ifs
      · exact (concludeRun_starting _ params env s _).congr rfl rfl rfl
      · exact .idle rfl fun _ _ _ => List.not_mem_nil
  | timer c =>
    cases c with
    | armTimer label message kind secs =>
      exact .nothing rfl rfl (by simp [Effect.Begins, handleCommand, handleTimer])
    | listTimers => exact .idle rfl fun _ _ _ => List.not_mem_nil
    | cancelTimer selector =>
      refine .idle rfl fun c an when h => ?_
      simp only [handleCommand, handleTimer] at h
      split_ifs at h <;> simp at h
    | timerFired id =>
      rcases a.handleTimerFired_cases env s id with h | ⟨next, item, he, hr, hp⟩
      · rw [handleCommand, handleTimer, h]
        exact .idle rfl fun _ _ _ => List.not_mem_nil
      · exact (a.thenDrain_starting env s (by simp) _).congr he hr hp
  | taskList action =>
    simp only [handleCommand, handleTaskList]
    split <;> exact .idle rfl (by simp)
  | read => exact .idle rfl fun _ _ _ => List.not_mem_nil
  | log c =>
    cases c with
    | recordLifecycle event atMs =>
      simp only [handleCommand, handleLog]
      split_ifs
      · exact .idle rfl (by simp)
      · exact thenDrain_starting _ env s (by simp) _
    | recordDelta text => exact .idle rfl fun _ _ _ => List.not_mem_nil
    | hooksRan records => exact .idle rfl (by simp [handleCommand, handleLog, hookEvents])
  | seed c =>
    cases c with
    | snapshot atSeq => exact .idle rfl fun _ _ _ => List.not_mem_nil
    | seedFrom seeded seed message =>
      simp only [handleCommand, handleSeed]
      split_ifs <;> exact .idle rfl (by simp)
  | shutdown => exact .idle rfl fun _ _ _ => List.not_mem_nil

theorem Starting.begins (h : Starting env s e)
    (hl : e.runs ≠ [] ∨ e.prepares ≠ []) : e.Begins := by
  cases h with
  | nothing hr hp hb =>
    rcases hl with hl | hl
    · exact absurd hr hl
    · exact absurd hp hl
  | turn b es t an rs hes hb ht he hr hp =>
    obtain ⟨fs, hfs⟩ := b.beginTurn_events env (s.applyAll es) t
    refine ⟨t.consumed, t.answered, env.now, ?_⟩
    rw [he, hfs]
    exact List.mem_append_right _ List.mem_cons_self

end AgentActor

end Horsie.Agent
