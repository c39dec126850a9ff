import Horsie.Agent.LogOrder

/-!
# Chunks and entries

The chunks of the message still being written live in the actor alone. Handling a command appends
at most one chunk, and what it journals drops them all only by appending an entry
(`deltas_or_entry`); the log itself only grows. Loading a process starts without chunks.
-/

namespace Horsie.Agent

def AgentCommand.chunk? : AgentCommand → Option String
  | .log (.recordDelta text) => some text
  | .queue _ | .run _ | .timer _ | .taskList _ | .read | .log (.recordLifecycle _ _)
  | .log (.hooksRan _) | .seed _ | .shutdown => none

theorem AgentCommand.eq_of_chunk {c : AgentCommand} {text : String} (h : c.chunk? = some text) :
    c = .log (.recordDelta text) := by
  cases c with
  | log c =>
    cases c with
    | recordDelta => rw [Option.some.inj h]
    | recordLifecycle | hooksRan => cases h
  | queue | run | timer | taskList | read | seed | shutdown => cases h

namespace AgentActor

/-- An effect leaves the chunks as they are. -/
def Mum (a : AgentActor) (e : Effect) : Prop := e.actor.deltas = a.deltas

variable {a : AgentActor}

theorem mum_persistMaybeSnapshot {e : Effect} (h : Mum a e) : Mum a (persistMaybeSnapshot e) := by
  unfold persistMaybeSnapshot
  split_ifs <;> exact h

theorem startPrepared_mum (a : AgentActor) (env : Env) (s : AgentState)
    (prepared : PreparedStart) : Mum a (a.startPrepared env s prepared) := by
  unfold startPrepared
  split <;> rfl

theorem beginTurn_mum (a : AgentActor) (env : Env) (s : AgentState) (turn : Turn) :
    Mum a (a.beginTurn env s turn) := by
  unfold beginTurn
  split_ifs
  · exact a.startPrepared_mum env s _
  · rfl

theorem tryDrain_mum (a : AgentActor) (env : Env) (s : AgentState) : Mum a (a.tryDrain env s) := by
  rcases a.tryDrain_cases env s with ⟨h, -⟩ | ⟨turn, -, -, -, h⟩
  · exact congrArg (·.actor.deltas) h
  · rw [h]
    exact a.beginTurn_mum env s turn

theorem thenDrain_mum (a : AgentActor) (env : Env) (s : AgentState) (es : List AgentDomainEvent)
    (os : List AgentOutcome) : Mum a (a.thenDrain env s es os) := a.tryDrain_mum env _

theorem endedWithoutResult_mum (a : AgentActor) (env : Env) (s : AgentState) :
    Mum a (a.endedWithoutResult env s) := by
  unfold endedWithoutResult
  dsimp only
  split_ifs
  · exact mum_persistMaybeSnapshot (a.tryDrain_mum env s)
  · rfl
  · rfl
  all_goals exact thenDrain_mum _ env s _ _

theorem concludeRun_mum (a : AgentActor) (params : AgentParams) (env : Env) (s : AgentState)
    (outcome : RunOutcome) : Mum a (a.concludeRun params env s outcome) := by
  cases outcome with
  | completed text =>
    show Mum a (a.completed params env s text)
    unfold completed
    dsimp only
    split_ifs
    · exact a.endedWithoutResult_mum env s
    · exact mum_persistMaybeSnapshot (a.tryDrain_mum env s)
    · rfl
    · exact mum_persistMaybeSnapshot (a.tryDrain_mum env s)
  | stopped calls =>
    show Mum a (a.stopped env s calls)
    unfold stopped
    split
    · exact mum_persistMaybeSnapshot (a.thenDrain_mum env s _ _)
    · exact a.thenDrain_mum env s _ _
    · unfold correctContradiction
      dsimp only
      split_ifs
      · rfl
      · exact a.thenDrain_mum env s _ _
  | cancelled => exact a.thenDrain_mum env s _ _
  | failed | alreadyReported => rfl

theorem handleCommand_deltas (a : AgentActor) (params : AgentParams) (env : Env) (s : AgentState)
    (cmd : AgentCommand) : (a.handleCommand params env s cmd).actor.deltas =
      a.deltas ++ cmd.chunk?.toList := by
  have hmum : ∀ {e : Effect}, Mum a e → e.actor.deltas = a.deltas ++ [] := fun h => by
    rw [List.append_nil]
    exact h
  cases cmd with
  | queue c =>
    cases c with
    | enqueue => exact hmum rfl
    | drain => exact hmum (a.tryDrain_mum env s)
    | answer answers =>
      refine hmum ?_
      simp only [handleCommand, handleQueue]
      split_ifs
      · rfl
      · split
        · exact a.beginTurn_mum env s _
        · rfl
    | startPrepared prepared => exact hmum (startPrepared_mum { a with preparing := false } env s _)
  | run c =>
    cases c with
    | cancel ack =>
      refine hmum ?_
      simp only [handleCommand, handleRun]
      split <;> rfl
    | persistProgress => exact hmum rfl
    | runFinished report =>
      refine hmum ?_
      simp only [handleCommand, handleRun, handleFinished]
      split_ifs
      · exact concludeRun_mum { a with running := none, cancelAcks := 0 } params env s _
      · rfl
  | timer c =>
    cases c with
    | armTimer | listTimers | cancelTimer => exact hmum rfl
    | timerFired id =>
      refine hmum ?_
      simp only [handleCommand, handleTimer, handleTimerFired]
      split
      · rfl
      · exact a.thenDrain_mum env s _ []
  | taskList action =>
    refine hmum ?_
    simp only [handleCommand, handleTaskList]
    split <;> rfl
  | read | shutdown => exact hmum rfl
  | log c =>
    cases c with
    | recordLifecycle event atMs =>
      refine hmum ?_
      simp only [handleCommand, handleLog]
      split_ifs
      · rfl
      · exact thenDrain_mum { a with ready := _ } env s _ []
    | recordDelta text => rfl
    | hooksRan => exact hmum rfl
  | seed c =>
    cases c with
    | snapshot => exact hmum rfl
    | seedFrom =>
      refine hmum ?_
      simp only [handleCommand, handleSeed]
      split_ifs <;> rfl

end AgentActor

/-! ## The log -/

namespace AgentState

variable {s s' : AgentState} {ms : List Message}

theorem Grows.log_le (h : Grows s s' ms) : s.log <+: s'.log := by
  obtain ⟨es, hlog, -⟩ := h
  exact ⟨es, hlog.symm⟩

theorem length_lt_of_coarse (s : AgentState) {e : AgentDomainEvent}
    (h : AgentActor.coarseAppendsAnEntry e = true) :
    s.log.length < (s.applyEvent e).log.length := by
  cases e with
  | inputMessage | messageComplete | messageAborted | toolComplete | hookRan | lifecycleRecorded
  | taskListChanged => simp [applyEvent, applyBody, pushMessage]
  | _ => cases h

theorem applyAll_log_grows (s : AgentState) {es : List AgentDomainEvent}
    (hs : ∀ e ∈ es, ∀ st seed, e ≠ .seeded st seed) :
    s.log <+: (s.applyAll es).log ∧ (es.any AgentActor.coarseAppendsAnEntry = true →
      s.log.length < (s.applyAll es).log.length) := by
  refine ⟨(s.grows_applyAll hs).log_le, fun hany => ?_⟩
  induction es generalizing s with
  | nil => simp at hany
  | cons e es ih =>
    obtain ⟨he, hes⟩ := List.forall_mem_cons.mp hs
    have hhead : s.log.length ≤ (s.applyEvent e).log.length :=
      (s.grows_applyEvent he).log_le.length_le
    have htail : (s.applyEvent e).log.length ≤ ((s.applyEvent e).applyAll es).log.length :=
      ((s.applyEvent e).grows_applyAll hes).log_le.length_le
    rcases Bool.or_eq_true_iff.mp (List.any_cons ▸ hany) with hc | hc
    · exact lt_of_lt_of_le (s.length_lt_of_coarse hc) htail
    · exact lt_of_le_of_lt hhead (ih _ hes hc)

end AgentState

section

variable {params : AgentParams} {w w' : World}

/-- What a handler journals: no seed, or, into an empty log, a seed and the brief behind it. -/
theorem effect_seeds (hw : (agentSystem params).Reachable w) (env : Env) {mail : Mail}
    {rest : List Mail} (hm : w.mailbox = mail :: rest) :
    (∀ e ∈ (w.effect params env mail).events, ∀ st seed, e ≠ .seeded st seed) ∨
      w.state.log = [] ∧ ∃ st seed m,
        (w.effect params env mail).events = [.seeded st seed, .received m env.now] := by
  have hmail := mailed hw mail (hm ▸ List.mem_cons_self)
  cases w.actor.handleCommand_journals params env w.state hmail with
  | plain records ps hp he =>
    refine .inl fun e hmem => ?_
    rintro st seed rfl
    rw [World.effect, he] at hmem
    rcases List.mem_append.mp hmem with hmem | hmem
    · simp [hookEvents, List.mem_mapIdx] at hmem
    · cases hp _ hmem
  | seed st seed m hc hlog he =>
    exact .inr ⟨hlog, st, seed, m, he⟩

theorem perform_deltas (w : World) (params : AgentParams) (env : Env) (mail : Mail)
    (rest : List Mail) : (w.perform mail rest (w.effect params env mail)).actor.deltas =
      if (w.effect params env mail).events.any AgentActor.coarseAppendsAnEntry then []
      else w.actor.deltas ++ mail.cmd.chunk?.toList := by
  show (AgentActor.onEventsPersisted _ _).deltas = _
  rw [AgentActor.onEventsPersisted, World.effect, AgentActor.handleCommand_deltas]

theorem log_le (hw : (agentSystem params).Reachable w) {l : Label}
    (hs : World.Step params w l w') : w.state.log <+: w'.state.log := by
  cases hs with
  | @handle env mail rest _ hm =>
    rcases effect_seeds hw env hm with h | ⟨hempty, -⟩
    · exact (w.state.applyAll_log_grows h).1
    · rw [hempty]
      exact List.nil_prefix
  | load | send | emit | finish | prepared | die => exact List.prefix_rfl

/-- A step of a process that goes on appends an entry, or leaves the chunks in flight where they
are and adds to them at most what the handled command brings. -/
theorem deltas_or_entry (hw : (agentSystem params).Reachable w) {l : Label}
    (hs : World.Step params w l w') (hload : ∀ env ready queued, l ≠ .load env ready queued)
    (hdie : ∀ env, l ≠ .die env) :
    w.state.log.length < w'.state.log.length ∨ w.actor.deltas <+: w'.actor.deltas := by
  cases hs with
  | load => exact absurd rfl (hload _ _ _)
  | die => exact absurd rfl (hdie _)
  | send | emit | finish | prepared => exact .inr List.prefix_rfl
  | @handle env mail rest _ hm =>
    by_cases hany : (w.effect params env mail).events.any AgentActor.coarseAppendsAnEntry = true
    · rcases effect_seeds hw env hm with h | ⟨-, st, seed, m, he⟩
      · exact .inl ((w.state.applyAll_log_grows h).2 hany)
      · rw [he] at hany
        cases hany
    · refine .inr ?_
      rw [perform_deltas, if_neg hany]
      exact List.prefix_append _ _

end

end Horsie.Agent
