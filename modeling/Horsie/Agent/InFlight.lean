import Horsie.Agent.Barrier

/-!
# The turn in flight, as the journal has it

`AgentState.turnInFlight` is what a reload goes by. Beside it `World.openAfter` follows what became
of the turn begun last: its run journaled its last event, its report was handled, or its start was
abandoned. The two agree after every step, and no reload disturbs an agent whose turn has ended,
exactly in the runs whose steps all mark the ends they make (`turn_in_flight_exact`).
-/

namespace Horsie.Agent

open Lib

def AgentDomainEvent.marks : AgentDomainEvent → Option Bool
  | .turnBegan _ _ _ => some true
  | .runComplete _ _ _ _ | .runAborted _ _ _ | .runCancelled _ | .parked _ | .nudged _
  | .askRecorded _ _ => some false
  | .seeded state _ => some state.turnInFlight
  | .inputMessage _ | .messageComplete _ | .messageAborted _ | .toolComplete _ | .hookRan _ _ _
  | .timerArmed _ _ | .timerCancelled _ _ | .timerFired _ _ _ | .taskListChanged _ _
  | .lifecycleRecorded _ _ | .compacted _ | .received _ _ => none

/-- Whether a run journals nothing of its turn after this event. -/
def AgentDomainEvent.closes : AgentDomainEvent → Bool
  | .runComplete _ _ _ _ | .runAborted _ _ _ => true
  | .seeded _ _ | .inputMessage _ | .messageComplete _ | .messageAborted _ | .toolComplete _
  | .hookRan _ _ _ | .runCancelled _ | .timerArmed _ _ | .timerCancelled _ _ | .timerFired _ _ _
  | .parked _ | .nudged _ | .taskListChanged _ _ | .lifecycleRecorded _ _ | .compacted _
  | .received _ _ | .turnBegan _ _ _ | .askRecorded _ _ => false

namespace AgentState

variable (s : AgentState)

theorem applyEvent_turnInFlight (e : AgentDomainEvent) :
    (s.applyEvent e).turnInFlight = e.marks.getD s.turnInFlight := by
  cases e with
  | seeded state seed => cases seed <;> rfl
  | timerFired id next => cases next <;> rfl
  | received item => cases item <;> rfl
  | _ => rfl

theorem applyAll_unmarked {es : List AgentDomainEvent} (h : ∀ e ∈ es, e.marks = none) :
    (s.applyAll es).turnInFlight = s.turnInFlight := by
  induction es generalizing s with
  | nil => rfl
  | cons e es ih =>
    rw [applyAll_cons, ih _ fun x hx => h x (List.mem_cons_of_mem _ hx), applyEvent_turnInFlight,
      h e List.mem_cons_self]
    rfl

theorem applyAll_marked (es : List AgentDomainEvent) {fs : List AgentDomainEvent}
    {e : AgentDomainEvent} {b : Bool} (he : e.marks = some b) (hfs : ∀ x ∈ fs, x.marks = none) :
    (s.applyAll (es ++ e :: fs)).turnInFlight = b := by
  rw [applyAll_append, applyAll_cons, applyAll_unmarked _ hfs, applyEvent_turnInFlight, he]
  rfl

end AgentState

theorem Effect.begins_iff {e : Effect} :
    e.Begins ↔ e.events.any AgentDomainEvent.isTurnBegan = true := by
  rw [List.any_eq_true]
  constructor
  · rintro ⟨c, an, when, h⟩
    exact ⟨_, h, rfl⟩
  · rintro ⟨x, hx, hb⟩
    cases x with
    | turnBegan c an when => exact ⟨c, an, when, hx⟩
    | _ => simp [AgentDomainEvent.isTurnBegan] at hb

namespace AgentActor

variable {a : AgentActor} {params : AgentParams} {env : Env} {s : AgentState}

/-! ## Where the flag goes up -/

theorem inputMessages_unmarked (ms : List Message) :
    ∀ e ∈ ms.map AgentDomainEvent.inputMessage, e.marks = none := by
  intro e he
  obtain ⟨m, -, rfl⟩ := List.mem_map.mp he
  rfl

theorem hookEvents_unmarked (s : AgentState) (records : List HookRecord) (now : ℕ) :
    ∀ e ∈ hookEvents s records now, e.marks = none := by
  intro e he
  obtain ⟨i, hi, rfl⟩ := List.mem_mapIdx.mp he
  rfl

theorem startPrepared_unmarked (a : AgentActor) (env : Env) (s : AgentState)
    (prepared : PreparedStart) : ∀ e ∈ (a.startPrepared env s prepared).events, e.marks = none := by
  unfold startPrepared
  split
  · exact hookEvents_unmarked s _ _
  · intro e he
    simp only [Effect.after_events, startRun, List.append_nil] at he
    rcases List.mem_append.mp he with he | he
    · exact hookEvents_unmarked s _ _ e he
    · exact inputMessages_unmarked _ e he

theorem beginTurn_marks (a : AgentActor) (env : Env) (s : AgentState) (turn : Turn) :
    ∃ fs, (a.beginTurn env s turn).events = .turnBegan turn.consumed turn.answered env.now :: fs ∧
      ∀ e ∈ fs, e.marks = none := by
  unfold beginTurn
  split_ifs
  · exact ⟨_, rfl, startPrepared_unmarked a env s _⟩
  · exact ⟨[], rfl, fun _ h => absurd h List.not_mem_nil⟩

variable {e : Effect}

theorem Starting.flag (h : Starting env s e) (hb : e.Begins) :
    (s.applyAll e.events).turnInFlight = true := by
  cases h with
  | nothing _ _ hn => exact absurd hb hn
  | turn b es t an rs hes _ _ he _ _ =>
    obtain ⟨fs, hfs, hmarks⟩ := b.beginTurn_marks env (s.applyAll es) t
    rw [he, hfs]
    exact s.applyAll_marked _ rfl hmarks

/-! ## Where it goes down -/

theorem tryDrain_of_not (h : ¬ (a.tryDrain env s).Begins) :
    a.tryDrain env s = { actor := a } := by
  rcases a.tryDrain_cases env s with ⟨hd, -⟩ | ⟨turn, hb, hr, hq, hd⟩
  · exact hd
  · exact absurd (tryDrain_begins.mpr ⟨hb, hr, by rw [hq]; rfl⟩) h

theorem thenDrain_events_of_not {es : List AgentDomainEvent} {os : List AgentOutcome}
    (h : ¬ (a.thenDrain env s es os).Begins) : (a.thenDrain env s es os).events = es := by
  rw [thenDrain, Effect.begins_after] at h
  rw [thenDrain, Effect.after_events, tryDrain_of_not fun hb => h (.inr hb), List.append_nil]

/-- The ends of a run that neither say so in the journal nor begin the next turn: text or output
that nothing is queued behind and nothing is awaited after, a failure, and what was reported
already. -/
def Unmarked (a : AgentActor) (params : AgentParams) (s : AgentState) : RunOutcome → Prop
  | .completed _ =>
    ¬ (a.ready = true ∧ (queuedTurn s.inbox s.asks).isSome) ∧
      if params.requiresResult then awaitsWork s = false ∧ maxResultNudges ≤ s.nudges
      else (params.parkOnOutstandingWork && awaitsWork s) = false
  | .stopped calls =>
    ¬ (a.ready = true ∧ (queuedTurn s.inbox s.asks).isSome) ∧
      ∃ output, interpret calls = .output output
  | .cancelled => False
  | .failed _ _ | .alreadyReported => True

/-- An end of a run decided in the state `s` begins the next turn, lowers the flag, or, exactly
where `quiet`, leaves it as it was. -/
inductive Lowers (s : AgentState) (e : Effect) (quiet : Prop) : Prop
  | begun (hb : e.Begins) (hq : ¬ quiet)
  | lowered (hb : ¬ e.Begins) (hq : ¬ quiet) (hflag : (s.applyAll e.events).turnInFlight = false)
  | kept (hb : ¬ e.Begins) (hq : quiet)
      (hflag : (s.applyAll e.events).turnInFlight = s.turnInFlight)

variable {quiet : Prop}

theorem Lowers.congr {e' : Effect} (h : Lowers s e quiet)
    (he : e'.events = e.events) : Lowers s e' quiet := by
  have hb : e'.Begins ↔ e.Begins := by rw [Effect.Begins, Effect.Begins, he]
  cases h with
  | begun h hq => exact .begun (hb.mpr h) hq
  | lowered h hq hf => exact .lowered (fun h' => h (hb.mp h')) hq (he ▸ hf)
  | kept h hq hf => exact .kept (fun h' => h (hb.mp h')) hq (he ▸ hf)

theorem Lowers.persistMaybeSnapshot (h : Lowers s e quiet) :
    Lowers s (persistMaybeSnapshot e) quiet := h.congr (persistMaybeSnapshot_events e)

theorem thenDrain_lowers (es : List AgentDomainEvent) {fs : List AgentDomainEvent}
    {e : AgentDomainEvent} (os : List AgentOutcome) (he : e.marks = some false)
    (hfs : ∀ x ∈ fs, x.marks = none) (hq : ¬ quiet) :
    Lowers s (a.thenDrain env s (es ++ e :: fs) os) quiet := by
  by_cases hb : (a.thenDrain env s (es ++ e :: fs) os).Begins
  · exact .begun hb hq
  · refine .lowered hb hq ?_
    rw [thenDrain_events_of_not hb]
    exact s.applyAll_marked es he hfs

theorem thenDrain_keeps (hb : a.busy = false) (es : List AgentDomainEvent)
    (hes : ∀ e ∈ es, e.marks = none) (hqs : ∀ e ∈ es, e.queues = false) {os : List AgentOutcome}
    (hq : quiet ↔ ¬ (a.ready = true ∧ (queuedTurn s.inbox s.asks).isSome)) :
    Lowers s (a.thenDrain env s es os) quiet := by
  obtain ⟨hinbox, hasks⟩ := s.applyAll_of_not_queues hqs
  have hiff : (a.thenDrain env s es os).Begins ↔ ¬ quiet := by
    rw [thenDrain_begins (not_began_of_queues hqs), hinbox, hasks, and_iff_right hb, hq, not_not]
  by_cases hbegins : (a.thenDrain env s es os).Begins
  · exact .begun hbegins (hiff.mp hbegins)
  · refine .kept hbegins (not_not.mp fun h => hbegins (hiff.mpr h)) ?_
    rw [thenDrain_events_of_not hbegins]
    exact s.applyAll_unmarked hes

theorem park_lowers (hq : ¬ quiet) : Lowers s (a.park env) quiet :=
  .lowered (by simp [Effect.Begins, park]) hq
    (s.applyAll_marked [] rfl fun _ hx => absurd hx List.not_mem_nil)

theorem tryDrain_begins_isEmpty (hb : a.busy = false) :
    (!(a.tryDrain env s).events.isEmpty) = true ↔
      a.ready = true ∧ (queuedTurn s.inbox s.asks).isSome := by
  constructor
  · exact fun h => (tryDrain_begins.mp (tryDrain_begins_of_events (by simpa using h))).2
  · intro h
    obtain ⟨c, an, when, hmem⟩ := (tryDrain_begins).mpr ⟨hb, h⟩
    simpa using List.ne_nil_of_mem hmem

theorem endedWithoutResult_lowers (hb : a.busy = false) :
    Lowers s (a.endedWithoutResult env s)
      (¬ (a.ready = true ∧ (queuedTurn s.inbox s.asks).isSome) ∧
        awaitsWork s = false ∧ maxResultNudges ≤ s.nudges) := by
  unfold endedWithoutResult
  dsimp only
  split_ifs with hdrained hwork hspent hlast
  · have hdrains := (tryDrain_begins_isEmpty hb).mp hdrained
    exact Lowers.persistMaybeSnapshot
      (.begun (tryDrain_begins.mpr ⟨hb, hdrains⟩) fun hq => hq.1 hdrains)
  · exact park_lowers (by simp [hwork])
  · exact .kept (by simp [Effect.Begins]) ⟨fun h => hdrained ((tryDrain_begins_isEmpty hb).mpr h),
      by simpa using hwork, hspent⟩ rfl
  all_goals exact thenDrain_lowers [_] _ rfl (by simp) (by omega)

theorem completed_lowers (hb : a.busy = false) (text : String) :
    Lowers s (a.completed params env s text) (Unmarked a params s (.completed text)) := by
  unfold completed Unmarked
  dsimp only
  by_cases hres : params.requiresResult = true
  · rw [if_pos hres, if_pos hres]
    exact endedWithoutResult_lowers hb
  · rw [if_neg hres, if_neg hres]
    split_ifs with hdrained hpark
    · rw [Bool.and_eq_true] at hdrained
      have hdrains := (tryDrain_begins_isEmpty hb).mp hdrained.2
      exact Lowers.persistMaybeSnapshot
        (.begun (tryDrain_begins.mpr ⟨hb, hdrains⟩) fun hq => hq.1 hdrains)
    · exact park_lowers (by simp [hpark])
    · exact Lowers.persistMaybeSnapshot (thenDrain_keeps hb [] (by simp) (by simp)
        (by simp only [Bool.eq_false_iff.mpr hpark, and_true]))

theorem stopped_lowers (hb : a.busy = false) (calls : List StoppedCall) :
    Lowers s (a.stopped env s calls) (Unmarked a params s (.stopped calls)) := by
  unfold stopped Unmarked
  cases hc : interpret calls with
  | output output =>
    refine Lowers.persistMaybeSnapshot (thenDrain_keeps hb _ ?_ ?_ (by simp [hc]))
    all_goals
      intro e he
      split_ifs at he
      · cases he
      · rw [List.mem_singleton.mp he]
        rfl
  | ask asks =>
    exact (thenDrain_lowers [] [.asked asks] rfl (by simp)
      (by simp [hc])).congr rfl
  | contradiction calls =>
    simp only [correctContradiction]
    split_ifs
    · refine .lowered ?_ (by simp [hc]) (s.applyAll_marked _ rfl (by simp))
      rintro ⟨c, an, when, h⟩
      exact not_began_of_queues (contradictionEvents_queues calls env.now) c an when h
    · rw [contradictionEvents, List.append_assoc]
      exact thenDrain_lowers _ _ rfl (by simp [AgentDomainEvent.marks]) (by simp [hc])

theorem concludeRun_lowers (hb : a.busy = false) (outcome : RunOutcome) :
    Lowers s (a.concludeRun params env s outcome) (Unmarked a params s outcome) := by
  cases outcome with
  | completed text => exact (completed_lowers hb text).congr rfl
  | stopped calls => exact (stopped_lowers hb calls).congr rfl
  | cancelled =>
    exact (thenDrain_lowers _ [usageRecorded s] rfl (by simp) id).congr rfl
  | failed | alreadyReported => exact .kept (by simp [Effect.Begins, concludeRun]) trivial rfl

/-! ## The other handlers -/

/-- A command that begins no turn, brings no news of the turn in flight and seeds nothing leaves the
flag as it was. -/
theorem handleCommand_keeps {cmd : AgentCommand}
    (hprep : ∀ p, cmd ≠ .queue (.startPrepared p)) (hprog : ∀ es, cmd ≠ .run (.persistProgress es))
    (hfin : ∀ r, cmd ≠ .run (.runFinished r))
    (hseed : ∀ st seed msg, cmd = .seed (.seedFrom st seed msg) → ¬ (s.log = [] ∧ s.inbox = []))
    (hn : ¬ (a.handleCommand params env s cmd).Begins) :
    (s.applyAll (a.handleCommand params env s cmd).events).turnInFlight = s.turnInFlight := by
  refine s.applyAll_unmarked ?_
  cases cmd with
  | queue c =>
    cases c with
    | enqueue item ack => simp [handleCommand, handleQueue, AgentDomainEvent.marks]
    | drain =>
      simp only [handleCommand, handleQueue] at hn ⊢
      rw [tryDrain_of_not hn]
      simp
    | answer answers =>
      simp only [handleCommand, handleQueue] at hn ⊢
      split_ifs at hn ⊢
      · simp
      · split at hn
        · rename_i turn hturn
          obtain ⟨fs, hfs, -⟩ := a.beginTurn_marks env s turn
          exact absurd ⟨turn.consumed, turn.answered, env.now, by simp [hfs]⟩ hn
        · simp
    | startPrepared prepared => exact absurd rfl (hprep prepared)
  | run c =>
    cases c with
    | cancel ack =>
      simp only [handleCommand, handleRun]
      split <;> simp
    | persistProgress es => exact absurd rfl (hprog es)
    | runFinished report => exact absurd rfl (hfin report)
  | timer c =>
    cases c with
    | armTimer | listTimers => simp [handleCommand, handleTimer, AgentDomainEvent.marks]
    | cancelTimer selector =>
      simp only [handleCommand, handleTimer]
      split_ifs <;> simp [AgentDomainEvent.marks]
    | timerFired id =>
      simp only [handleCommand, handleTimer] at hn ⊢
      rcases a.handleTimerFired_cases env s id with h | ⟨next, item, he, -, -⟩
      · simp [h]
      · rw [Effect.Begins, he] at hn
        rw [he, thenDrain_events_of_not hn]
        simp [AgentDomainEvent.marks]
  | taskList action =>
    simp only [handleCommand, handleTaskList]
    split <;> simp [AgentDomainEvent.marks]
  | read => simp [handleCommand]
  | log c =>
    cases c with
    | recordLifecycle event atMs =>
      simp only [handleCommand, handleLog] at hn ⊢
      split_ifs at hn ⊢
      · simp [AgentDomainEvent.marks]
      · rw [thenDrain_events_of_not hn]
        simp [AgentDomainEvent.marks]
    | recordDelta text => simp [handleCommand, handleLog]
    | hooksRan records => exact hookEvents_unmarked s records env.now
  | seed c =>
    cases c with
    | snapshot atSeq => simp [handleCommand, handleSeed]
    | seedFrom seeded seed message =>
      simp only [handleCommand, handleSeed]
      split_ifs with hfresh
      · simp
      · simp only [Bool.or_eq_true, Bool.not_eq_true', List.isEmpty_eq_false_iff, not_or,
          not_not] at hfresh
        exact absurd hfresh (hseed seeded seed message rfl)
  | shutdown => simp [handleCommand]

end AgentActor

/-! ## What became of the turn -/

namespace World

/-- Whether a turn is going after a command is handled, where one was before if `b`. A run that
journals on has not ended with the abort of one of its attempts. -/
def openAfterMail (params : AgentParams) (w : World) (env : Env) (m : Mail) (b : Bool) : Bool :=
  if (w.effect params env m).events.any AgentDomainEvent.isTurnBegan then true
  else
    match m.sender, m.cmd with
    | _, .run (.runFinished report) => b && decide (w.actor.runId ≠ some report.runId)
    | _, .queue (.startPrepared prepared) => b && prepared.abandon.isNone
    | .run _, .run (.persistProgress es) => !es.any AgentDomainEvent.closes
    | _, .seed (.seedFrom _ _ _) => b && !(w.state.log.isEmpty && w.state.inbox.isEmpty)
    | _, _ => b

/-- Whether the turn begun last is going after a step. A process that dies ends no turn. -/
def openAfter (params : AgentParams) (w : World) (l : Label) (_ : World) (b : Bool) : Bool :=
  match l with
  | .handle env => (w.mailbox.head?.map fun m => w.openAfterMail params env m b).getD b
  | .load _ _ _ | .send _ | .emit _ _ | .finish _ | .prepared _ | .die _ => b

/-- The journal says of the turn in flight what became of it, and a reload neither reports, nor
repairs, nor re-drives an agent whose turn has ended. -/
def Exact (params : AgentParams) (x : World × Bool) (l : Label) (y : World × Bool) : Prop :=
  y.1.state.turnInFlight = y.2 ∧
    ∀ env ready queued, l = .load env ready queued → x.2 = false →
      let e := (AgentActor.new ready).onRecoveryComplete params env x.1.state
      e.outcomes = [] ∧ e.tells = [] ∧ e.runs = []

/-- Handling a command marks the end it makes of a turn: a run's end that leaves no mark is of a
turn whose run has journaled its last event, no turn that is going is abandoned, no run journals
on after that event, and no seed is of a turn in flight. -/
def MarksMail (params : AgentParams) (w : World) (b : Bool) (m : Mail) : Prop :=
  match m.sender, m.cmd with
  | _, .run (.runFinished report) =>
    w.actor.runId = some report.runId → w.actor.Unmarked params w.state report.outcome → b = false
  | _, .queue (.startPrepared prepared) => prepared.abandon.isSome = true → b = false
  | .run _, .run (.persistProgress es) => es.any AgentDomainEvent.closes = false → b = true
  | _, .seed (.seedFrom seeded _ _) =>
    w.state.log = [] ∧ w.state.inbox = [] → seeded.turnInFlight = false
  | _, _ => True

/-- A step marks the end it makes of a turn, and a reload finds an agent whose turn has ended with
every tool call answered and nobody to re-drive it. -/
def Marks (params : AgentParams) (x : World × Bool) : Label → Prop
  | .handle _ => ∀ m ∈ x.1.mailbox.head?, x.1.MarksMail params x.2 m
  | .load env _ _ => x.2 = false →
    missingToolResults x.1.state.promptMessages x.1.state.parkedCallIds env.now = [] ∧
      AgentActor.selfContinues params x.1.state = false
  | .send _ | .emit _ _ | .finish _ | .prepared _ | .die _ => True

end World

def turnSystem (params : AgentParams) : System (World × Bool) Label :=
  (agentSystem params).withHistory (World.openAfter params) false

variable {params : AgentParams} {env : Env} {w : World} {mail : Mail} {rest : List Mail} {b : Bool}

/-- Handling a command leaves the flag as what became of the turn has it. -/
def World.Agrees (params : AgentParams) (w : World) (env : Env) (m : Mail) (b : Bool) : Prop :=
  (w.state.applyAll (w.effect params env m).events).turnInFlight = w.openAfterMail params env m b

variable {e : AgentDomainEvent}

theorem emits_marks {pending pending' : List String}
    (h : emits pending e = some pending') : e.marks = if e.closes then some false else none := by
  cases e <;> first | rfl | simp [emits] at h

theorem openAfterMail_of_begins (h : (w.effect params env mail).Begins) :
    w.openAfterMail params env mail b = true := if_pos (Effect.begins_iff.mp h)

theorem marks_other (hw : (agentSystem params).Reachable w) (hb : w.state.turnInFlight = b)
    (hm : w.mailbox = mail :: rest) (hprep : ∀ p, mail.cmd ≠ .queue (.startPrepared p))
    (hprog : ∀ es, mail.cmd ≠ .run (.persistProgress es))
    (hfin : ∀ r, mail.cmd ≠ .run (.runFinished r))
    (hseed : ∀ st seed msg, mail.cmd ≠ .seed (.seedFrom st seed msg)) :
    w.Agrees params env mail b := by
  unfold World.Agrees
  have hstart := effect_starting hw env hm
    (by unfold Mail.isPrepared; split <;> simp_all)
  by_cases hbegins : (w.effect params env mail).Begins
  · rw [hstart.flag hbegins, openAfterMail_of_begins hbegins]
  · rw [World.effect, AgentActor.handleCommand_keeps hprep hprog hfin
      (fun st seed msg h => absurd h (hseed st seed msg)) hbegins, hb, World.openAfterMail,
      if_neg fun h => hbegins (Effect.begins_iff.mpr h)]
    split <;> simp_all

theorem openAfterMail_of_not (h : ∀ e ∈ (w.effect params env mail).events, e.isTurnBegan = false) :
    w.openAfterMail params env mail b =
      match mail.sender, mail.cmd with
      | _, .run (.runFinished report) => b && decide (w.actor.runId ≠ some report.runId)
      | _, .queue (.startPrepared prepared) => b && prepared.abandon.isNone
      | .run _, .run (.persistProgress es) => !es.any AgentDomainEvent.closes
      | _, .seed (.seedFrom _ _ _) => b && !(w.state.log.isEmpty && w.state.inbox.isEmpty)
      | _, _ => b :=
  if_neg fun hany => by
    obtain ⟨e, he, hb⟩ := List.any_eq_true.mp hany
    simp [h e he] at hb

theorem isTurnBegan_of_marks (h : e.marks ≠ some true) :
    e.isTurnBegan = false := by
  cases e with
  | turnBegan => exact absurd rfl h
  | _ => rfl

theorem marks_seed (hb : w.state.turnInFlight = b) {sender : Sender} {st : AgentState}
    {seed : Option Message} {msg : Incoming} :
    w.Agrees params env ⟨sender, .seed (.seedFrom st seed msg)⟩ b ↔
      w.MarksMail params b ⟨sender, .seed (.seedFrom st seed msg)⟩ := by
  have hfresh : (!w.state.log.isEmpty || !w.state.inbox.isEmpty) = true ↔
      ¬ (w.state.log = [] ∧ w.state.inbox = []) := by
    simp only [Bool.or_eq_true, Bool.not_eq_true', List.isEmpty_eq_false_iff, not_and_or, ne_eq]
  unfold World.Agrees
  by_cases hf : w.state.log = [] ∧ w.state.inbox = []
  · have hevents : (w.effect params env ⟨sender, .seed (.seedFrom st seed msg)⟩).events =
        [.seeded st seed, .received msg env.now] := by
      simp only [World.effect, AgentActor.handleCommand, AgentActor.handleSeed]
      rw [if_neg fun h => hfresh.mp h hf]
    rw [openAfterMail_of_not (by simp [hevents, AgentDomainEvent.isTurnBegan]), hevents,
      AgentState.applyAll_cons, AgentState.applyAll_cons, AgentState.applyAll_nil,
      AgentState.applyEvent_turnInFlight, AgentState.applyEvent_turnInFlight]
    simp [World.MarksMail, hf, AgentDomainEvent.marks]
  · have hevents : (w.effect params env ⟨sender, .seed (.seedFrom st seed msg)⟩).events = [] := by
      simp only [World.effect, AgentActor.handleCommand, AgentActor.handleSeed]
      rw [if_pos (hfresh.mpr hf)]
    rw [openAfterMail_of_not (by simp [hevents]), hevents, AgentState.applyAll_nil, hb]
    have hnot : (w.state.log.isEmpty && w.state.inbox.isEmpty) = false := by
      simpa [not_and_or] using hf
    simp [World.MarksMail, hf, hnot]

theorem marks_progress (hb : w.state.turnInFlight = b) {k : ℕ}
    {pending pending' : List String} (he : emits pending e = some pending') :
    w.Agrees params env ⟨.run k, .run (.persistProgress [e])⟩ b ↔
      w.MarksMail params b ⟨.run k, .run (.persistProgress [e])⟩ := by
  unfold World.Agrees
  have hmarks := emits_marks he
  have hevents : (w.effect params env ⟨.run k, .run (.persistProgress [e])⟩).events = [e] := rfl
  rw [openAfterMail_of_not (by
    intro x hx
    rw [hevents, List.mem_singleton] at hx
    subst hx
    refine isTurnBegan_of_marks ?_
    rw [hmarks]
    split_ifs <;> simp), hevents, AgentState.applyAll_cons, AgentState.applyAll_nil,
    AgentState.applyEvent_turnInFlight, hmarks, hb]
  cases hc : e.closes <;> simp [World.MarksMail, hc]

theorem unmarked_cleared (a : AgentActor) (params : AgentParams) (s : AgentState)
    (outcome : RunOutcome) :
    AgentActor.Unmarked { a with running := none, cancelAcks := 0 } params s outcome ↔
      a.Unmarked params s outcome := by
  cases outcome <;> exact Iff.rfl

/-- The report of a run begins the next turn, lowers the flag, or finds it down. -/
theorem marks_report (hw : (agentSystem params).Reachable w) (hb : w.state.turnInFlight = b)
    {sender : Sender} {report : RunReport}
    (hm : w.mailbox = ⟨sender, .run (.runFinished report)⟩ :: rest) :
    w.Agrees params env ⟨sender, .run (.runFinished report)⟩ b ↔
      w.MarksMail params b ⟨sender, .run (.runFinished report)⟩ := by
  have hcur : w.actor.runId = some report.runId :=
    (FenceAt.report_head (show FenceAt w.actor w.runs w.prepares
      (⟨sender, .run (.runFinished report)⟩ :: rest) from hm ▸ fence hw) rfl).1
  have hidle : ({ w.actor with running := none, cancelAcks := 0 } : AgentActor).busy = false :=
    AgentActor.busy_eq_false.mpr ⟨rfl, (fence hw).preparing hcur⟩
  have hevents : (w.effect params env ⟨sender, .run (.runFinished report)⟩).events =
      (({ w.actor with running := none, cancelAcks := 0 } : AgentActor).concludeRun params env
        w.state report.outcome).events := by
    simp only [World.effect, AgentActor.handleCommand, AgentActor.handleRun,
      AgentActor.handleFinished]
    rw [if_pos hcur]
    rfl
  have hlow := (AgentActor.concludeRun_lowers (s := w.state) hidle
    report.outcome).congr hevents
  have hstart := effect_starting hw env hm rfl
  have hopen : ¬ (w.effect params env ⟨sender, .run (.runFinished report)⟩).Begins →
      w.openAfterMail params env ⟨sender, .run (.runFinished report)⟩ b = false := by
    intro hn
    rw [World.openAfterMail, if_neg fun h => hn (Effect.begins_iff.mpr h)]
    simp [hcur]
  have hmail : w.MarksMail params b ⟨sender, .run (.runFinished report)⟩ ↔
      (w.actor.Unmarked params w.state report.outcome → b = false) := by
    simp [World.MarksMail, hcur]
  rw [hmail, ← unmarked_cleared, World.Agrees]
  cases hlow with
  | begun hbegins hq =>
    rw [hstart.flag hbegins, openAfterMail_of_begins hbegins]
    exact iff_of_true rfl fun hu => absurd hu hq
  | lowered hn hq hflag =>
    rw [hflag, hopen hn]
    exact iff_of_true rfl fun hu => absurd hu hq
  | kept hn hq hflag =>
    rw [hflag, hopen hn, hb]
    exact ⟨fun h _ => h, fun h => h hq⟩

theorem marks_prepared (hb : w.state.turnInFlight = b) {p : PreparedStart} :
    w.Agrees params env ⟨.prepare, .queue (.startPrepared p)⟩ b ↔
      w.MarksMail params b ⟨.prepare, .queue (.startPrepared p)⟩ := by
  unfold World.Agrees
  have hmarks := AgentActor.startPrepared_unmarked { w.actor with preparing := false } env w.state p
  rw [openAfterMail_of_not fun e he => isTurnBegan_of_marks (by rw [hmarks e he]; simp)]
  rw [show (w.state.applyAll (w.effect params env
    ⟨.prepare, .queue (.startPrepared p)⟩).events).turnInFlight = b from
      (w.state.applyAll_unmarked hmarks).trans hb]
  cases b <;> cases p.abandon <;> simp [World.MarksMail]

/-- After a command is handled the flag is right exactly where the command marks the end it
makes. -/
theorem marksMail_iff (hw : (agentSystem params).Reachable w) (hb : w.state.turnInFlight = b)
    (hm : w.mailbox = mail :: rest) :
    w.Agrees params env mail b ↔ w.MarksMail params b mail := by
  cases mailed hw mail (hm ▸ List.mem_cons_self) with
  | @client c hc =>
    by_cases hseed : ∃ st seed msg, c = .seed (.seedFrom st seed msg)
    · obtain ⟨st, seed, msg, rfl⟩ := hseed
      exact marks_seed hb
    · have hprep : ∀ p, c ≠ .queue (.startPrepared p) := by
        rintro p rfl
        cases hc
      have hprog : ∀ es, c ≠ .run (.persistProgress es) := by
        rintro es rfl
        cases hc
      have hfin : ∀ r, c ≠ .run (.runFinished r) := by
        rintro r rfl
        cases hc
      simp only [not_exists] at hseed
      refine iff_of_true (marks_other hw hb hm hprep hprog hfin hseed) ?_
      unfold World.MarksMail
      split <;> simp_all
  | drain =>
    exact iff_of_true (marks_other hw hb hm (by simp) (by simp) (by simp) (by simp)) trivial
  | repair s now =>
    have hmarks := AgentActor.inputMessages_unmarked
      (missingToolResults s.promptMessages s.parkedCallIds now)
    refine iff_of_true ?_ trivial
    unfold World.Agrees
    rw [openAfterMail_of_not fun e he => isTurnBegan_of_marks (by rw [hmarks e he]; simp)]
    exact (w.state.applyAll_unmarked hmarks).trans hb
  | progress he => exact marks_progress hb he
  | report hid => exact marks_report hw hb hm
  | prepared p => exact marks_prepared hb

/-- A reload neither reports nor repairs nor re-drives an agent whose flag is down exactly where
every tool call is answered and nobody has to re-drive it. -/
theorem undisturbed_iff {s : AgentState} (hb : s.turnInFlight = false) (ready : Bool) :
    ((AgentActor.new ready).onRecoveryComplete params env s).outcomes = [] ∧
        ((AgentActor.new ready).onRecoveryComplete params env s).tells = [] ∧
        ((AgentActor.new ready).onRecoveryComplete params env s).runs = [] ↔
      missingToolResults s.promptMessages s.parkedCallIds env.now = [] ∧
        AgentActor.selfContinues params s = false := by
  have hruns : ((AgentActor.new ready).onRecoveryComplete params env s).runs = [] ↔
      AgentActor.selfContinues params s = false := by
    rcases (AgentActor.new ready).onRecoveryComplete_cases params env s with
      ⟨hself, -, hr⟩ | ⟨hself, -, hr⟩
    · exact iff_of_true hr hself
    · refine iff_of_false ?_ (by simp [hself])
      rw [hr]
      simp [AgentActor.startRun, Effect.runs, Task.run?]
  rw [hruns]
  simp only [AgentActor.onRecoveryComplete, hb]
  simp

theorem exact_step {x y : World × Bool} {l : Label} (hx : (turnSystem params).Reachable x)
    (hb : x.1.state.turnInFlight = x.2) (hs : (turnSystem params).Step x l y) :
    World.Exact params x l y ↔ World.Marks params x l := by
  obtain ⟨w, b⟩ := x
  obtain ⟨w', b'⟩ := y
  obtain ⟨hstep, hopen⟩ := hs
  dsimp only at hstep hopen
  subst hopen
  cases hstep with
  | @load env ready queued hq =>
    constructor
    · intro h hb'
      exact (undisturbed_iff (hb.trans hb') ready).mp (h.2 env ready queued rfl hb')
    · refine fun h => ⟨hb, ?_⟩
      rintro env' ready' queued' ⟨⟩ hb'
      exact (undisturbed_iff (hb.trans hb') ready).mpr (h hb')
  | send | emit | finish | prepared | die =>
    refine iff_of_true ⟨hb, fun env ready queued hl => ?_⟩ trivial
    cases hl
  | @handle env mail rest hrun hm =>
    have hiff : w.Agrees params env mail _ ↔ _ := marksMail_iff hx.fst hb hm
    simp [World.Exact, World.Marks, hm, World.openAfter, ← hiff, World.Agrees, World.perform]

/-- In every run of an agent, the journal has the flag up after every step exactly while the turn
begun last has not ended, and no reload disturbs an agent whose turn has, if and only if every step
marks the end it makes. -/
theorem turn_in_flight_exact {params : AgentParams}
    {tr : List ((World × Bool) × Label × (World × Bool))} {x : World × Bool}
    (h : (turnSystem params).Exec (.boot, false) tr x) :
    (∀ z ∈ tr, World.Exact params z.1 z.2.1 z.2.2) ↔ ∀ z ∈ tr, World.Marks params z.1 z.2.1 :=
  h.steps_iff (G := World.Marks params) (P := fun x => x.1.state.turnInFlight = x.2)
    (Q := World.Exact params) (fun _ _ _ hexact => hexact.1)
    (fun _ _ _ hr hb hs => exact_step hr hb hs) (.init ⟨rfl, rfl⟩) rfl

/-! ## A compaction nobody marked -/

def turnStep? (params : AgentParams) : World × Bool → Label → Option (World × Bool) :=
  System.recordStep? (World.openAfter params) (World.step? params)

theorem exec_turnSteps? {x y : World × Bool} {ls : List Label}
    (h : System.steps? (turnStep? params) x ls = some y) :
    ∃ tr, (turnSystem params).Exec x tr y ∧ tr.map (·.2.1) = ls :=
  System.exec_of_steps? (System.recordStep?_sound _ fun _ _ _ => World.step?_sound) h

/-- A compaction is asked for and drained: its turn has nothing to say to the model, and its run
reports that it is done. -/
def compactedLabels : List Label :=
  let env : Env := ⟨0, "m", "a", "t", false⟩
  [.load env true [.queue (.enqueue (.compact "c0" none) true)], .handle env, .handle env,
    .finish ⟨0, .completed "", none⟩, .handle env]

def compactedWorld : World × Bool :=
  (System.steps? (turnStep? ⟨false, true, false⟩) (.boot, false) compactedLabels).get (by decide)

theorem turn_in_flight_exact_compacted :
    ∃ tr, (turnSystem ⟨false, true, false⟩).Exec (.boot, false) tr compactedWorld ∧
      tr.map (·.2.1) = compactedLabels ∧
      ((∀ z ∈ tr, World.Exact ⟨false, true, false⟩ z.1 z.2.1 z.2.2) ↔
        ∀ z ∈ tr, World.Marks ⟨false, true, false⟩ z.1 z.2.1) := by
  obtain ⟨tr, hexec, hmap⟩ := exec_turnSteps?
    (show System.steps? (turnStep? ⟨false, true, false⟩) (.boot, false) compactedLabels =
      some compactedWorld from (Option.some_get _).symm)
  exact ⟨tr, hexec, hmap, turn_in_flight_exact hexec⟩

/-- The turn is over, its report is handled, and a reload reports it interrupted. -/
theorem ended_turn_interrupted :
    ∃ tr, (turnSystem ⟨false, true, false⟩).Exec (.boot, false) tr compactedWorld ∧
      ¬ (∀ z ∈ tr, World.Exact ⟨false, true, false⟩ z.1 z.2.1 z.2.2) ∧
      compactedWorld.2 = false ∧
      ((AgentActor.new true).onRecoveryComplete ⟨false, true, false⟩ ⟨1, "m1", "a1", "t1", false⟩
        compactedWorld.1.state).outcomes = [.interrupted] := by
  obtain ⟨tr, hexec, -⟩ := exec_turnSteps?
    (show System.steps? (turnStep? ⟨false, true, false⟩) (.boot, false) compactedLabels =
      some compactedWorld from (Option.some_get _).symm)
  refine ⟨tr, hexec, fun hall => ?_, by decide, rfl⟩
  have hflag := hexec.last (P := fun x => x.1.state.turnInFlight = x.2) rfl
    fun z hz => (hall z hz).1
  cases hflag

end Horsie.Agent
