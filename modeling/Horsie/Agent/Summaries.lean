import Horsie.Agent.Barrier

/-!
# The summaries sub sessions wait for

A turn that consumed requests of sub sessions owes each of them one report of the summary, by the
time it has ended. The summary is the first thing its run takes (`RunTask.report`), so it is
reported by every turn whose run gets that far (`requests_answered`). A start that is abandoned, a
provider that cannot be built and a cancellation before that answer nobody.
-/

namespace Horsie.Agent

open Lib

/-- How a run's task ends: cancelled while its contexts are provided, without them, or having
taken the summary it was asked for and run. -/
inductive TaskEnd
  | cancelled
  | unprovided
  | ran (outcome : RunOutcome) (summary : Except String String)

/-- What the task of a run reports. A turn that was only a summary for sub sessions ends with it. -/
def RunTask.report (t : RunTask) : TaskEnd → RunReport
  | .cancelled => ⟨t.id, .cancelled, none⟩
  | .unprovided => ⟨t.id, .alreadyReported, none⟩
  | .ran outcome summary =>
    match t.summarise with
    | some (.subSession subSessions) =>
      ⟨t.id, if t.summariseOnly then .completed "" else outcome, some ⟨subSessions, summary⟩⟩
    | some (.compact _) | none => ⟨t.id, outcome, none⟩

def requests : Option Summarise → List String
  | some (.subSession subSessions) => subSessions
  | some (.compact _) | none => []

def RunReport.answers (r : RunReport) : List String := (r.seedSummary.map (·.subSessions)).getD []

def AgentOutcome.seeds (subSession : String) : AgentOutcome → Bool
  | .seedSummary subSessions _ => subSession ∈ subSessions
  | .started | .interrupted | .concluded _ | .asked _ | .parked | .failed _ _ _
  | .usageRecorded _ _ _ => false

def begunRequests (s : AgentState) : List AgentDomainEvent → List String
  | [] => []
  | e :: es =>
    (match e with
      | .turnBegan consumed _ _ =>
        (s.inbox.filter (·.id ∈ consumed)).filterMap Incoming.subSession?
      | _ => []) ++ begunRequests (s.applyEvent e) es

/-- Whether a command gives a prepared turn up. -/
def Mail.abandons (m : Mail) : Bool :=
  match m.cmd with
  | .queue (.startPrepared prepared) => prepared.abandon.isSome
  | _ => false

namespace World

def endsTurn (w : World) (m : Mail) : Bool :=
  match m.cmd with
  | .run (.runFinished report) => w.actor.runId = some report.runId
  | _ => m.abandons

/-- The requests of the turn in flight that nobody has answered. What a process leaves unanswered
when it dies is not a turn that ended. -/
def outstandingAfter (params : AgentParams) (w : World) (l : Label) (_ : World)
    (owed : List String) : List String :=
  match l with
  | .handle env =>
    (w.mailbox.head?.map fun m => (if w.endsTurn m then [] else owed) ++
      begunRequests w.state (w.effect params env m).events).getD owed
  | .load _ _ _ | .die _ => []
  | .send _ | .emit _ _ | .finish _ | .prepared _ => owed

def Reports (w : World) : Label → Prop
  | .finish report => ∃ r ∈ w.runs, ∃ ended, report = r.task.report ended
  | .load _ _ _ | .send _ | .emit _ _ | .prepared _ | .handle _ | .die _ => True

/-- What a step reports to the owner. -/
def outcomes (params : AgentParams) (w : World) : Label → List AgentOutcome
  | .handle env | .die env =>
    w.mailbox.head?.toList.flatMap fun m => (w.effect params env m).outcomes
  | .load env ready _ => ((AgentActor.new ready).onRecoveryComplete params env w.state).outcomes
  | .send _ | .emit _ _ | .finish _ | .prepared _ => []

def ends (w : World) : Label → Bool
  | .handle _ | .die _ => w.mailbox.head?.any w.endsTurn
  | .load _ _ _ | .send _ | .emit _ _ | .finish _ | .prepared _ => false

/-- A step reports one summary to each sub session the turn it ends owes one, and none otherwise. -/
def AnswersRequests (params : AgentParams) (x : World × List String) (l : Label) : Prop :=
  ∀ s, (x.1.outcomes params l).countP (·.seeds s) = if x.1.ends l ∧ s ∈ x.2 then 1 else 0

/-- A turn that owes sub sessions a summary is not abandoned, and its run gets to the summary. -/
def Summarises (x : World × List String) : Label → Prop
  | .finish report =>
    x.2 = [] ∨ ∀ r ∈ x.1.runs, ∃ outcome summary, report = r.task.report (.ran outcome summary)
  | .handle _ | .die _ => ∀ m ∈ x.1.mailbox.head?, m.abandons = true → x.2 = []
  | .load _ _ _ | .send _ | .emit _ _ | .prepared _ => True

end World

/-- An agent whose runs report what their tasks came to, with the requests outstanding. -/
def summarySystem (params : AgentParams) : System (World × List String) Label :=
  ((agentSystem params).restrict World.Reports).withHistory (World.outstandingAfter params) []

/-! ## What a turn takes on -/

theorem requests_summarise (inbox : List Incoming) :
    requests (summarise inbox) = inbox.filterMap Incoming.subSession? := by
  unfold summarise
  dsimp only
  split_ifs with h
  · rfl
  · have hnil : inbox.filterMap Incoming.subSession? = [] := by simpa using h
    rw [hnil]
    cases inbox.reverse.findSome? Incoming.compact? <;> rfl

theorem begunRequests_append (s : AgentState) (es fs : List AgentDomainEvent) :
    begunRequests s (es ++ fs) = begunRequests s es ++ begunRequests (s.applyAll es) fs := by
  induction es generalizing s with
  | nil => rfl
  | cons e es ih =>
    simp only [List.cons_append, begunRequests, AgentState.applyAll_cons, List.append_assoc, ih]

theorem begunRequests_of_not (s : AgentState) {es : List AgentDomainEvent}
    (h : ∀ c an when, .turnBegan c an when ∉ es) : begunRequests s es = [] := by
  induction es generalizing s with
  | nil => rfl
  | cons e es ih =>
    have hes := ih (s.applyEvent e) fun c an when hmem => h c an when (List.mem_cons_of_mem _ hmem)
    cases e with
    | turnBegan c an when => exact absurd List.mem_cons_self (h c an when)
    | _ => exact hes

namespace AgentActor

variable {a : AgentActor} {params : AgentParams} {env : Env} {s : AgentState}

theorem startPrepared_not_began (a : AgentActor) (env : Env) (s : AgentState)
    (prepared : PreparedStart) :
    ∀ c an when, .turnBegan c an when ∉ (a.startPrepared env s prepared).events := by
  unfold startPrepared
  split <;> simp [hookEvents, startRun]

theorem startPrepared_summarise (a : AgentActor) (env : Env) (s : AgentState)
    (prepared : PreparedStart) :
    ∀ r ∈ (a.startPrepared env s prepared).runs, r.summarise = prepared.turn.summarise := by
  unfold startPrepared
  split
  · simp [Effect.runs]
  · simp [startRun, Effect.runs, Task.run?]

theorem beginTurn_requests (a : AgentActor) (env : Env) (s : AgentState) {t : Turn}
    {answered : List String} {results : List ToolResultInput}
    (ht : t = { drain s.inbox with answered, results }) :
    begunRequests s (a.beginTurn env s t).events = requests t.summarise ∧
      (∀ r ∈ (a.beginTurn env s t).runs, r.summarise = t.summarise) ∧
      ∀ u ∈ (a.beginTurn env s t).prepares, u = t := by
  have hconsumed : (s.inbox.filter (·.id ∈ t.consumed)).filterMap Incoming.subSession? =
      requests t.summarise := by
    rw [ht, show (drain s.inbox).summarise = summarise s.inbox from rfl, requests_summarise]
    congr 1
    exact List.filter_eq_self.mpr fun i hi =>
      decide_eq_true (List.mem_map_of_mem hi)
  unfold beginTurn
  split_ifs
  · refine ⟨?_, startPrepared_summarise a env s ⟨t, [], none⟩, ?_⟩
    · simp only [Effect.after_events, List.singleton_append, begunRequests]
      rw [begunRequests_of_not _ (a.startPrepared_not_began env s _), List.append_nil, hconsumed]
    · simp [startPrepared, startRun, Effect.prepares, Task.prepare?]
  · refine ⟨?_, by simp [Effect.runs, Task.run?], by simp [Effect.prepares, Task.prepare?]⟩
    simp only [begunRequests, List.append_nil, hconsumed]

variable {e : Effect}

/-- A command that does not bring a preparation back takes on nothing, or the requests of what it
launches. -/
theorem Starting.requests (h : Starting env s e) :
    (∀ r ∈ e.runs, Agent.requests r.summarise = begunRequests s e.events) ∧
      (∀ t ∈ e.prepares, Agent.requests t.summarise = begunRequests s e.events) ∧
      (e.runs = [] ∧ e.prepares = [] → begunRequests s e.events = []) := by
  cases h with
  | nothing hr hp hb =>
    rw [hr, hp]
    refine ⟨by simp, by simp, fun _ => ?_⟩
    exact begunRequests_of_not s fun c an when h => hb ⟨c, an, when, h⟩
  | turn b es t an rs hes hidle ht he hr hp =>
    obtain ⟨hreq, hruns, hpreps⟩ := b.beginTurn_requests env (s.applyAll es) ht
    rw [he, begunRequests_append, begunRequests_of_not s hes, List.nil_append, hreq, hr, hp]
    refine ⟨fun r h => by rw [hruns r h], fun u h => by rw [hpreps u h], fun hnone => ?_⟩
    have hlaunch : Launch b (b.beginTurn env (s.applyAll es) t) := beginTurn_launch hidle t
    cases hlaunch with
    | quiet _ _ _ hrun hprep _ =>
      have hbusy := b.beginTurn_busy env (s.applyAll es) t
      rw [busy_eq_false] at hidle
      rw [busy_eq_false.mpr ⟨hrun.trans hidle.1, hprep.trans hidle.2⟩] at hbusy
      cases hbusy
    | ran _ _ hr' => simp [hr'] at hnone
    | prepared _ _ _ hp' => simp [hp'] at hnone

/-! ## What is reported -/

def Seedless (e : Effect) : Prop := ∀ o ∈ e.outcomes, ∀ sub, o.seeds sub = false

theorem Seedless.after (h : Seedless e) {es : List AgentDomainEvent}
    {os : List AgentOutcome} (hos : ∀ o ∈ os, ∀ sub, o.seeds sub = false) :
    Seedless (e.after es os) := by
  intro o ho
  rcases List.mem_append.mp ho with ho | ho
  · exact hos o ho
  · exact h o ho

theorem Seedless.congr {e' : Effect} (h : Seedless e) (he : e'.outcomes = e.outcomes) :
    Seedless e' := fun o ho => h o (he ▸ ho)

theorem seedless_of_nil (h : e.outcomes = []) : Seedless e := by
  simp [Seedless, h]

theorem startPrepared_seedless (a : AgentActor) (env : Env) (s : AgentState)
    (prepared : PreparedStart) : Seedless (a.startPrepared env s prepared) := by
  unfold startPrepared
  split
  · rename_i abandon _
    cases abandon <;> simp [Seedless, AbandonedStart.outcome, AgentOutcome.seeds]
  · exact seedless_of_nil rfl

theorem beginTurn_seedless (a : AgentActor) (env : Env) (s : AgentState) (turn : Turn) :
    Seedless (a.beginTurn env s turn) := by
  intro o ho
  rw [a.beginTurn_outcomes env s turn, List.mem_singleton] at ho
  exact ho ▸ fun _ => rfl

theorem tryDrain_seedless (a : AgentActor) (env : Env) (s : AgentState) :
    Seedless (a.tryDrain env s) := by
  rcases a.tryDrain_cases env s with ⟨h, -⟩ | ⟨turn, -, -, -, h⟩
  · rw [h]
    exact seedless_of_nil rfl
  · rw [h]
    exact a.beginTurn_seedless env s turn

theorem thenDrain_seedless (a : AgentActor) (env : Env) (s : AgentState)
    (es : List AgentDomainEvent) {os : List AgentOutcome}
    (hos : ∀ o ∈ os, ∀ sub, o.seeds sub = false) : Seedless (a.thenDrain env s es os) :=
  (a.tryDrain_seedless env _).after hos

theorem endedWithoutResult_seedless (a : AgentActor) (env : Env) (s : AgentState) :
    Seedless (a.endedWithoutResult env s) := by
  unfold endedWithoutResult
  dsimp only
  split_ifs
  · exact (a.tryDrain_seedless env s).congr (persistMaybeSnapshot_outcomes _)
  · simp [Seedless, park, AgentOutcome.seeds]
  · simp [Seedless, AgentOutcome.seeds]
  all_goals exact thenDrain_seedless _ env s _ (by simp)

theorem concludeRun_seedless (a : AgentActor) (params : AgentParams) (env : Env) (s : AgentState)
    (outcome : RunOutcome) : Seedless (a.concludeRun params env s outcome) := by
  cases outcome with
  | completed text =>
    refine Seedless.after ?_ (by simp [usageRecorded, AgentOutcome.seeds])
    unfold completed
    dsimp only
    split_ifs
    · exact a.endedWithoutResult_seedless env s
    · exact (a.tryDrain_seedless env s).congr (persistMaybeSnapshot_outcomes _)
    · simp [Seedless, park, AgentOutcome.seeds]
    · exact ((a.tryDrain_seedless env s).after (by simp [AgentOutcome.seeds])).congr
        (persistMaybeSnapshot_outcomes _)
  | stopped calls =>
    refine Seedless.after ?_ (by simp [usageRecorded, AgentOutcome.seeds])
    unfold stopped
    split
    · exact (a.thenDrain_seedless env s _ (by simp [AgentOutcome.seeds])).congr
        (persistMaybeSnapshot_outcomes _)
    · exact a.thenDrain_seedless env s _ (by simp [AgentOutcome.seeds])
    · unfold correctContradiction
      dsimp only
      split_ifs
      · exact seedless_of_nil rfl
      · exact a.thenDrain_seedless env s _ (by simp)
  | cancelled => exact a.thenDrain_seedless env s _ (by simp [usageRecorded, AgentOutcome.seeds])
  | failed => simp [Seedless, concludeRun, usageRecorded, AgentOutcome.seeds]
  | alreadyReported => exact seedless_of_nil rfl

theorem handleCommand_seedless (a : AgentActor) (params : AgentParams) (env : Env) (s : AgentState)
    {cmd : AgentCommand} (hfin : ∀ r, cmd ≠ .run (.runFinished r)) :
    Seedless (a.handleCommand params env s cmd) := by
  cases cmd with
  | queue c =>
    cases c with
    | enqueue => exact seedless_of_nil rfl
    | drain => exact a.tryDrain_seedless env s
    | answer answers =>
      simp only [handleCommand, handleQueue]
      split_ifs
      · exact seedless_of_nil rfl
      · split
        · exact (a.beginTurn_seedless env s _).congr rfl
        · exact seedless_of_nil rfl
    | startPrepared prepared => exact startPrepared_seedless _ env s prepared
  | run c =>
    cases c with
    | cancel ack =>
      simp only [handleCommand, handleRun]
      split <;> exact seedless_of_nil rfl
    | persistProgress => exact seedless_of_nil rfl
    | runFinished report => exact absurd rfl (hfin report)
  | timer c =>
    cases c with
    | armTimer | listTimers | cancelTimer => exact seedless_of_nil rfl
    | timerFired id =>
      simp only [handleCommand, handleTimer, handleTimerFired]
      split
      · exact seedless_of_nil rfl
      · exact (a.thenDrain_seedless env s _ (by simp)).congr rfl
  | taskList action =>
    simp only [handleCommand, handleTaskList]
    split <;> exact seedless_of_nil rfl
  | read => exact seedless_of_nil rfl
  | log c =>
    cases c with
    | recordLifecycle event atMs =>
      simp only [handleCommand, handleLog]
      split_ifs
      · exact seedless_of_nil rfl
      · exact thenDrain_seedless _ env s _ (by simp)
    | recordDelta | hooksRan => exact seedless_of_nil rfl
  | seed c =>
    cases c with
    | snapshot => exact seedless_of_nil rfl
    | seedFrom seeded seed message =>
      simp only [handleCommand, handleSeed]
      split_ifs <;> exact seedless_of_nil rfl
  | shutdown => exact seedless_of_nil rfl

theorem Seedless.count (h : Seedless e) (sub : String) :
    e.outcomes.countP (·.seeds sub) = 0 :=
  List.countP_eq_zero.mpr fun o ho => by simp [h o ho sub]

/-- The report of the run in flight names the sub sessions its summary was for, once. -/
theorem handleFinished_seeds (a : AgentActor) (params : AgentParams) (env : Env) (s : AgentState)
    {report : RunReport} (hid : a.runId = some report.runId) (sub : String) :
    (a.handleFinished params env s report).outcomes.countP (·.seeds sub) =
      if sub ∈ report.answers then 1 else 0 := by
  unfold handleFinished RunReport.answers
  simp only [if_pos hid, Effect.after_outcomes, List.countP_append]
  rw [(concludeRun_seedless _ params env s _).count, Nat.add_zero]
  cases report.seedSummary with
  | none => rfl
  | some summary => simp [summaryOutcomes, AgentOutcome.seeds, List.countP_singleton]

end AgentActor

/-! ## What is owed -/

/-- A report answers what is owed, and so will the turn a preparation brings back. -/
def Mail.Owes (m : Mail) (owed : List String) : Prop :=
  match m.cmd with
  | .run (.runFinished report) => report.answers = owed
  | .queue (.startPrepared prepared) => requests prepared.turn.summarise = owed
  | _ => True

/-- What is in flight will answer what is owed. -/
structure World.Owing (w : World) (owed : List String) : Prop where
  idle : w.actor.busy = false → owed = []
  runs : ∀ r ∈ w.runs, requests r.task.summarise = owed
  prepares : ∀ t ∈ w.prepares, requests t.summarise = owed
  mailbox : ∀ m ∈ w.mailbox, m.Owes owed

section

variable {params : AgentParams} {env : Env} {w : World} {mail : Mail} {rest : List Mail}
  {owed : List String}

theorem Mail.owes_of_not {m : Mail} (hr : m.report? = none) (hp : m.isPrepared = false)
    (owed : List String) : m.Owes owed := by
  unfold Mail.Owes
  split
  · rename_i hcmd
    simp [Mail.report?, hcmd] at hr
  · rename_i hcmd
    simp [Mail.isPrepared, hcmd] at hp
  · trivial

theorem owes_drain (owed : List String) {e : Effect} (he : AgentActor.Modest e) :
    ∀ m ∈ e.tells.map (Mail.mk .self ·), m.Owes owed := by
  intro m hm
  obtain ⟨c, hc, rfl⟩ := List.mem_map.mp hm
  rw [he c hc]
  trivial

/-- Handling a command that leaves no turn on the actor: what is owed then is what it launched. -/
theorem owing_launched (hw : (agentSystem params).Reachable w) (hm : w.mailbox = mail :: rest)
    (hb : (w.actor.cleared mail.cmd).busy = false)
    (hr : ∀ r ∈ (w.effect params env mail).runs, requests r.summarise = owed)
    (hp : ∀ t ∈ (w.effect params env mail).prepares, requests t.summarise = owed)
    (hidle : (w.effect params env mail).actor.busy = false → owed = []) :
    (w.perform mail rest (w.effect params env mail)).Owing owed := by
  have hf : FenceAt w.actor w.runs w.prepares (mail :: rest) := hm ▸ fence hw
  obtain ⟨hruns, hpreps, hrep, hprep, -⟩ := hf.cleared.idle hb
  refine ⟨hidle, fun r h => ?_, fun t h => ?_, fun m h => ?_⟩
  · simp only [World.perform, hruns, List.nil_append] at h
    obtain ⟨task, htask, rfl⟩ := List.mem_map.mp h
    exact hr task htask
  · simp only [World.perform, hpreps, List.nil_append] at h
    exact hp t h
  · rcases List.mem_append.mp h with h | h
    · exact Mail.owes_of_not (hrep m h) (hprep m h) owed
    · exact owes_drain owed ((fence hw).launch params env hm).modest m h

theorem owing_other (hw : (agentSystem params).Reachable w) (h : w.Owing owed)
    (hm : w.mailbox = mail :: rest) (hrep : mail.report? = none) (hprep : mail.isPrepared = false) :
    (w.perform mail rest (w.effect params env mail)).Owing
      (owed ++ begunRequests w.state (w.effect params env mail).events) := by
  have hreq := (effect_starting hw env hm hprep).requests
  have hcl : w.actor.cleared mail.cmd = w.actor := by
    unfold AgentActor.cleared
    split
    · rename_i hcmd
      simp [Mail.report?, hcmd] at hrep
    · rename_i hcmd
      simp [Mail.isPrepared, hcmd] at hprep
    all_goals rfl
  have hlaunch := (fence hw).launch params env hm
  by_cases hnone : (w.effect params env mail).runs = [] ∧ (w.effect params env mail).prepares = []
  · rw [hreq.2.2 hnone, List.append_nil]
    refine ⟨fun hb => ?_, ?_, ?_, fun m hmem => ?_⟩
    · refine h.idle ?_
      cases hlaunch with
      | quiet _ _ _ hrun hpr _ =>
        rw [hcl] at hrun hpr
        rw [AgentActor.busy_eq_false] at hb ⊢
        exact ⟨hrun.symm.trans hb.1, hpr.symm.trans hb.2⟩
      | ran _ _ hr => simp [hr] at hnone
      | prepared _ _ _ hp => simp [hp] at hnone
    · simpa [World.perform, hnone.1] using h.runs
    · simpa [World.perform, hnone.2] using h.prepares
    · rcases List.mem_append.mp hmem with hmem | hmem
      · exact h.mailbox m (hm ▸ List.mem_cons_of_mem _ hmem)
      · exact owes_drain owed hlaunch.modest m hmem
  · obtain ⟨hbusy, hb⟩ := hlaunch.busy hnone
    rw [hcl] at hb
    rw [h.idle hb, List.nil_append]
    exact owing_launched hw hm (by rwa [hcl]) hreq.1 hreq.2.1 fun hidle => by simp [hbusy] at hidle

theorem owing_report (hw : (agentSystem params).Reachable w) {sender : Sender} {report : RunReport}
    (hm : w.mailbox = ⟨sender, .run (.runFinished report)⟩ :: rest)
    (hid : w.actor.runId = some report.runId) :
    (w.perform ⟨sender, .run (.runFinished report)⟩ rest
        (w.effect params env ⟨sender, .run (.runFinished report)⟩)).Owing
      (begunRequests w.state
        (w.effect params env ⟨sender, .run (.runFinished report)⟩).events) := by
  have hreq := (effect_starting hw env hm rfl).requests
  have hb : (w.actor.cleared (.run (.runFinished report))).busy = false := by
    rw [AgentActor.cleared, if_pos hid]
    exact AgentActor.busy_eq_false.mpr ⟨rfl, (fence hw).preparing hid⟩
  have hlaunch := (fence hw).launch params env hm
  refine owing_launched hw hm hb hreq.1 hreq.2.1 fun hidle => hreq.2.2 ?_
  by_contra hnone
  simp [(hlaunch.busy hnone).1] at hidle

/-- A preparation that came back: its run owes what the turn did, and a turn that is abandoned must
owe nothing. -/
theorem owing_prepared (env : Env) (hw : (agentSystem params).Reachable w) (h : w.Owing owed)
    {sender : Sender} {prepared : PreparedStart}
    (hm : w.mailbox = ⟨sender, .queue (.startPrepared prepared)⟩ :: rest)
    (hg : prepared.abandon.isSome = true → owed = []) :
    (w.perform ⟨sender, .queue (.startPrepared prepared)⟩ rest
      (w.effect params env ⟨sender, .queue (.startPrepared prepared)⟩)).Owing owed := by
  have howed : requests prepared.turn.summarise = owed :=
    h.mailbox ⟨sender, .queue (.startPrepared prepared)⟩ (hm ▸ List.mem_cons_self)
  have hb : (w.actor.cleared (.queue (.startPrepared prepared))).busy = false :=
    AgentActor.busy_eq_false.mpr ⟨(fence hw).preparing_head hm prepared rfl, rfl⟩
  refine owing_launched hw hm hb (fun r hr => ?_) ?_ fun hidle => ?_
  · rw [AgentActor.startPrepared_summarise _ env w.state prepared r hr, howed]
  · simp only [World.effect, AgentActor.handleCommand, AgentActor.handleQueue,
      AgentActor.startPrepared]
    split <;> simp [Effect.prepares, AgentActor.startRun, Task.prepare?]
  · cases hab : prepared.abandon with
    | some abandon => exact hg (by rw [hab]; rfl)
    | none =>
      simp only [World.effect, AgentActor.handleCommand, AgentActor.handleQueue,
        AgentActor.startPrepared, hab] at hidle
      simp [AgentActor.startRun, AgentActor.busy] at hidle

/-- Handling a command reports the summary of the turn it ends, where one is owed, and what is in
flight then answers what is owed then. -/
theorem owing_handle (env : Env) (hw : (agentSystem params).Reachable w) (h : w.Owing owed)
    (hm : w.mailbox = mail :: rest)
    (hg : mail.abandons = true → owed = []) :
    (w.perform mail rest (w.effect params env mail)).Owing
        ((if w.endsTurn mail then [] else owed) ++
          begunRequests w.state (w.effect params env mail).events) ∧
      ∀ sub, (w.effect params env mail).outcomes.countP (·.seeds sub) =
        if w.endsTurn mail ∧ sub ∈ owed then 1 else 0 := by
  by_cases hrep : ∃ report, mail.cmd = .run (.runFinished report)
  · obtain ⟨report, hcmd⟩ := hrep
    obtain ⟨sender, cmd⟩ := mail
    obtain rfl : cmd = .run (.runFinished report) := hcmd
    have hid : w.actor.runId = some report.runId :=
      (FenceAt.report_head (show FenceAt w.actor w.runs w.prepares
        (⟨sender, .run (.runFinished report)⟩ :: rest) from hm ▸ fence hw) rfl).1
    have hends : w.endsTurn ⟨sender, .run (.runFinished report)⟩ = true := decide_eq_true hid
    have hanswers : report.answers = owed :=
      h.mailbox ⟨sender, .run (.runFinished report)⟩ (hm ▸ List.mem_cons_self)
    refine ⟨by simpa [hends] using owing_report hw hm hid, fun sub => ?_⟩
    rw [World.effect, AgentActor.handleCommand, AgentActor.handleRun,
      AgentActor.handleFinished_seeds _ params env w.state hid, hanswers]
    simp [hends]
  · have hseeds := AgentActor.handleCommand_seedless w.actor params env w.state
      fun r hr => hrep ⟨r, hr⟩
    by_cases hprep : ∃ prepared, mail.cmd = .queue (.startPrepared prepared)
    · obtain ⟨prepared, hcmd⟩ := hprep
      obtain ⟨sender, cmd⟩ := mail
      obtain rfl : cmd = .queue (.startPrepared prepared) := hcmd
      have hbegun : begunRequests w.state
          (w.effect params env ⟨sender, .queue (.startPrepared prepared)⟩).events = [] :=
        begunRequests_of_not _ (AgentActor.startPrepared_not_began _ env w.state prepared)
      have howing := owing_prepared env hw h hm hg
      rw [hbegun, List.append_nil]
      refine ⟨?_, fun sub => ?_⟩
      · by_cases hab : prepared.abandon.isSome = true
        · simpa [World.endsTurn, Mail.abandons, hab, show owed = [] from hg hab] using howing
        · simpa [World.endsTurn, Mail.abandons, hab] using howing
      · rw [World.effect, hseeds.count]
        by_cases hab : prepared.abandon.isSome = true
        · simp [show owed = [] from hg hab]
        · simp [World.endsTurn, Mail.abandons, hab]
    · have hnone : mail.report? = none ∧ mail.isPrepared = false ∧ w.endsTurn mail = false := by
        unfold Mail.report? Mail.isPrepared World.endsTurn Mail.abandons
        simp only [not_exists] at hrep hprep
        refine ⟨?_, ?_, ?_⟩ <;> split <;> simp_all
      refine ⟨by simpa [hnone.2.2] using owing_other hw h hm hnone.1 hnone.2.1, fun sub => ?_⟩
      rw [World.effect, hseeds.count]
      simp [hnone.2.2]

theorem report_answers_ran (t : RunTask) (outcome : RunOutcome) (summary : Except String String) :
    (t.report (.ran outcome summary)).answers = requests t.summarise := by
  simp only [RunTask.report]
  cases t.summarise with
  | none => rfl
  | some s => cases s <;> rfl

theorem report_answers (t : RunTask) (ended : TaskEnd) :
    (t.report ended).answers = [] ∨ (t.report ended).answers = requests t.summarise := by
  cases ended with
  | cancelled | unprovided => exact .inl rfl
  | ran outcome summary => exact .inr (report_answers_ran t outcome summary)

theorem owing_finish (h : w.Owing owed) {report : RunReport}
    (hrep : w.Reports (.finish report)) (hg : World.Summarises (w, owed) (.finish report)) :
    report.answers = owed := by
  obtain ⟨r, hr, ended, rfl⟩ := hrep
  have howed := h.runs r hr
  rcases hg with hnone | hran
  · rcases report_answers r.task ended with hans | hans
    · rw [hans, show owed = [] from hnone]
    · rw [hans, howed]
  · obtain ⟨outcome, summary, hrep⟩ := hran r hr
    rw [hrep, report_answers_ran, howed]

theorem owing_load (w : World) (params : AgentParams) (env : Env) (ready : Bool)
    {queued : List AgentCommand} (hq : ∀ c ∈ queued, c.external = true) :
    (w.load params env ready queued).Owing [] := by
  refine ⟨fun _ => rfl, fun r hr => ?_, fun t ht => absurd ht List.not_mem_nil, fun m hm => ?_⟩
  · obtain ⟨task, htask, rfl⟩ := List.mem_map.mp hr
    rcases (AgentActor.new ready).onRecoveryComplete_cases params env w.state with
      ⟨-, -, hruns⟩ | ⟨-, -, hruns⟩
    · exact absurd htask (by simp [hruns])
    · rw [hruns] at htask
      obtain rfl := List.mem_singleton.mp htask
      rfl
  · rcases List.mem_append.mp hm with hm | hm
    · obtain ⟨c, hc, rfl⟩ := List.mem_map.mp hm
      have := external_not_report (hq c hc) .client
      exact Mail.owes_of_not this.1 this.2 []
    · obtain ⟨c, hc, rfl⟩ := List.mem_map.mp hm
      rw [AgentActor.onRecoveryComplete_tells _ _ _ _ c hc]
      trivial

theorem World.Owing.tell (h : w.Owing owed) (hm : mail.Owes owed) :
    (w.tell mail).Owing owed := by
  refine ⟨h.idle, h.runs, h.prepares, fun m hmem => ?_⟩
  rcases List.mem_append.mp hmem with hmem | hmem
  · exact h.mailbox m hmem
  · rwa [List.mem_singleton.mp hmem]

/-- A step that lets the turn in flight come to its summary keeps what is owed and reports each
summary where it is due. -/
theorem owing_step {x y : World × List String} {l : Label}
    (hx : (summarySystem params).Reachable x) (h : x.1.Owing x.2) (hg : World.Summarises x l)
    (hs : (summarySystem params).Step x l y) :
    y.1.Owing y.2 ∧ World.AnswersRequests params x l := by
  obtain ⟨w, owed⟩ := x
  obtain ⟨w', owed'⟩ := y
  obtain ⟨⟨hstep, hrep⟩, hout⟩ := hs
  have hw : (agentSystem params).Reachable w := hx.fst.unrestrict
  dsimp only at hstep hrep hout h
  subst hout
  cases hstep with
  | @load env ready queued hq =>
    refine ⟨owing_load w params env ready hq, fun sub => ?_⟩
    simp only [World.outcomes, World.ends, AgentActor.onRecoveryComplete]
    split_ifs <;> simp_all [AgentOutcome.seeds]
  | send _ hc =>
    have := external_not_report hc .client
    exact ⟨h.tell (Mail.owes_of_not this.1 this.2 owed),
      fun sub => by simp [World.outcomes, World.ends]⟩
  | @emit pre post r event pending _ hr _ =>
    have hruns : ∀ q ∈ pre ++ { r with pending } :: post, requests q.task.summarise = owed := by
      intro q hq
      rcases List.mem_append.mp hq with hq | hq
      · exact h.runs q (hr ▸ List.mem_append_left _ hq)
      · rcases List.mem_cons.mp hq with rfl | hq
        · exact h.runs r (hr ▸ List.mem_append_right _ List.mem_cons_self)
        · exact h.runs q (hr ▸ List.mem_append_right _ (List.mem_cons_of_mem _ hq))
    exact ⟨World.Owing.tell (w := { w with runs := pre ++ { r with pending } :: post })
      ⟨h.idle, hruns, h.prepares, h.mailbox⟩ trivial,
      fun sub => by simp [World.outcomes, World.ends]⟩
  | @finish pre post r report _ hr _ _ =>
    have hans := owing_finish h hrep hg
    have hruns : ∀ q ∈ pre ++ post, requests q.task.summarise = owed := fun q hq =>
      h.runs q (hr ▸ (List.mem_append.mp hq).elim (List.mem_append_left _)
        fun hq => List.mem_append_right _ (List.mem_cons_of_mem _ hq))
    exact ⟨World.Owing.tell (w := { w with runs := pre ++ post })
      ⟨h.idle, hruns, h.prepares, h.mailbox⟩ hans,
      fun sub => by simp [World.outcomes, World.ends]⟩
  | @prepared pre post turn answer _ hp =>
    have hpreps : ∀ t ∈ pre ++ post, requests t.summarise = owed := fun t ht =>
      h.prepares t (hp ▸ (List.mem_append.mp ht).elim (List.mem_append_left _)
        fun ht => List.mem_append_right _ (List.mem_cons_of_mem _ ht))
    have howes : requests (answer.prepared turn).turn.summarise = owed := by
      rw [show (answer.prepared turn).turn.summarise = turn.summarise by cases answer <;> rfl]
      exact h.prepares turn (hp ▸ List.mem_append_right _ List.mem_cons_self)
    exact ⟨World.Owing.tell (w := { w with prepares := pre ++ post })
      ⟨h.idle, h.runs, hpreps, h.mailbox⟩ howes,
      fun sub => by simp [World.outcomes, World.ends]⟩
  | @handle env mail rest _ hm =>
    have hboth := owing_handle env hw h hm
      (hg mail (by simp [hm]))
    refine ⟨by simpa [World.outstandingAfter, hm] using hboth.1, fun sub => ?_⟩
    simpa [World.outcomes, World.ends, hm] using hboth.2 sub
  | @die env mail rest _ hm =>
    have hboth := owing_handle env hw h hm
      (hg mail (by simp [hm]))
    refine ⟨⟨fun _ => rfl, ?_, ?_, ?_⟩, fun sub => ?_⟩
    · simp [World.die]
    · simp [World.die]
    · simp [World.die]
    · simpa [World.outcomes, World.ends, hm] using hboth.2 sub

end

/-- In a run in which every turn that owes sub sessions a summary is started and its run gets to
the summary, each request a turn consumes is answered once, by the time the turn has ended. -/
theorem requests_answered {params : AgentParams}
    {tr : List ((World × List String) × Label × (World × List String))} {x : World × List String}
    (h : (summarySystem params).Exec (.boot, []) tr x)
    (hg : ∀ z ∈ tr, World.Summarises z.1 z.2.1) :
    ∀ z ∈ tr, World.AnswersRequests params z.1 z.2.1 := by
  have hboot : (summarySystem params).Reachable (World.boot, []) := .init ⟨rfl, rfl⟩
  have howing : World.boot.Owing [] :=
    ⟨fun _ => rfl, by simp [World.boot], by simp [World.boot], by simp [World.boot]⟩
  intro z hz
  obtain ⟨pre, hpre, hmem, hstep⟩ := h.before hz
  have hz' : z.1.1.Owing z.1.2 :=
    hpre.guarded (I := fun x => x.1.Owing x.2) (G := World.Summarises)
      (fun _ _ _ hr hI hG hs => (owing_step hr hI hG hs).1) hboot howing
      fun y hy => hg y (hmem y hy)
  exact (owing_step (hpre.reachable hboot) hz' (hg z hz) hstep).2

/-! ## Requests answered, and one that is not -/

/-- No run reports, and no turn that owes a summary is abandoned. -/
def World.Smooth (x : World × List String) : Label → Prop
  | .finish _ => False
  | .handle _ | .die _ => ∀ m ∈ x.1.mailbox.head?, m.abandons = true → x.2 = []
  | .load _ _ _ | .send _ | .emit _ _ | .prepared _ => True

instance (x : World × List String) : DecidablePred (World.Smooth x)
  | .finish _ => inferInstanceAs (Decidable False)
  | .handle _ | .die _ => inferInstanceAs
      (Decidable (∀ m ∈ x.1.mailbox.head?, m.abandons = true → x.2 = []))
  | .load _ _ _ | .send _ | .emit _ _ | .prepared _ => inferInstanceAs (Decidable True)

def summaryStep? (params : AgentParams) :
    World × List String → Label → Option (World × List String) :=
  System.recordStep? (World.outstandingAfter params) (World.step? params)

theorem exec_summarySteps? {params : AgentParams} {x y : World × List String} {ls : List Label}
    (h : System.steps? (System.guarded? World.Smooth (summaryStep? params)) x ls = some y) :
    ∃ tr, (summarySystem params).Exec x tr y ∧ ∀ z ∈ tr, World.Summarises z.1 z.2.1 := by
  obtain ⟨tr, hexec, -, hg⟩ := System.exec_of_guarded? (M := summarySystem params)
    (fun x l y hg hs => by
      obtain ⟨hstep, hrec⟩ := System.recordStep?_sound (M := agentSystem params) []
        (fun _ _ _ => World.step?_sound) x l y hs
      refine ⟨⟨hstep, ?_⟩, hrec⟩
      cases l with
      | finish => exact absurd hg id
      | _ => trivial) h
  refine ⟨tr, hexec, fun z hz => ?_⟩
  have hz' := hg z hz
  revert hz'
  cases z.2.1 with
  | finish => exact False.elim
  | _ => exact id

/-- Two sub sessions wait for one summary, and nothing else is queued. -/
def askedLabels : List Label :=
  let env : Env := ⟨0, "m", "a", "t", false⟩
  [.load env true [.queue (.enqueue (.subSession "q1" "s1") true),
      .queue (.enqueue (.subSession "q2" "s2") true)],
    .handle env, .handle env, .handle env, .handle env]

def askedWorld : World × List String :=
  (System.steps? (System.guarded? World.Smooth (summaryStep? ⟨false, true, false⟩)) (.boot, [])
    askedLabels).get (by decide)

def askedRun : LiveRun := askedWorld.1.runs.head (by decide)

def reportedWorld (ended : TaskEnd) : World × List String :=
  ({ askedWorld.1 with runs := [] }.tell
    ⟨.run askedRun.task.id, .run (.runFinished (askedRun.task.report ended))⟩, askedWorld.2)

theorem exec_reported (ended : TaskEnd)
    (he : endsWith askedRun.pending (askedRun.task.report ended).outcome)
    (hid : (askedRun.task.report ended).runId = askedRun.task.id) :
    ∃ pre x, (summarySystem ⟨false, true, false⟩).Exec (.boot, [])
        (pre ++ [(askedWorld, .finish (askedRun.task.report ended), reportedWorld ended),
          (reportedWorld ended, .handle ⟨1, "m1", "a1", "t1", false⟩, x)]) x ∧
      ∀ z ∈ pre, World.Summarises z.1 z.2.1 := by
  obtain ⟨pre, hpre, hg⟩ := exec_summarySteps?
    (show System.steps? (System.guarded? World.Smooth (summaryStep? ⟨false, true, false⟩))
      (.boot, []) askedLabels = some askedWorld from (Option.some_get _).symm)
  have hruns : askedWorld.1.runs = [] ++ askedRun :: [] := rfl
  have hfinish : (summarySystem ⟨false, true, false⟩).Step askedWorld
      (.finish (askedRun.task.report ended)) (reportedWorld ended) :=
    ⟨⟨.finish rfl hruns hid he, askedRun, List.head_mem _, ended, rfl⟩, rfl⟩
  have hmail : (reportedWorld ended).1.mailbox =
      ⟨.run askedRun.task.id, .run (.runFinished (askedRun.task.report ended))⟩ :: [] := rfl
  have hhandle := @World.Step.handle ⟨false, true, false⟩ (reportedWorld ended).1
    ⟨1, "m1", "a1", "t1", false⟩ _ _ rfl hmail
  exact ⟨pre, (_, _), hpre.trans ((System.Exec.single hfinish).trans
    (.single ⟨⟨hhandle, trivial⟩, rfl⟩)), hg⟩

theorem requests_answered_both :
    ∃ tr x, (summarySystem ⟨false, true, false⟩).Exec (.boot, []) tr x ∧
      (∀ z ∈ tr, World.AnswersRequests ⟨false, true, false⟩ z.1 z.2.1) ∧
      ∃ z ∈ tr, z.1.2 = ["s1", "s2"] ∧ z.1.1.ends z.2.1 = true := by
  obtain ⟨pre, x, hexec, hg⟩ := exec_reported
    (.ran (.completed "") (.ok "so far")) trivial rfl
  refine ⟨_, x, hexec, requests_answered hexec fun z hz => ?_, _,
    List.mem_append_right _ (List.mem_cons_of_mem _ (List.mem_singleton_self _)), rfl, rfl⟩
  · simp only [List.mem_append, List.mem_cons, List.not_mem_nil, or_false] at hz
    rcases hz with hz | rfl | rfl
    · exact hg z hz
    · refine .inr fun r hr => ⟨.completed "", .ok "so far", ?_⟩
      rw [List.mem_singleton.mp (show r ∈ [askedRun] from hr)]
    · rintro m ⟨⟩ hab
      cases hab

/-- The run is cancelled while its contexts are provided: the turn ends, and nobody is told. -/
theorem request_unanswered :
    ∃ tr x, (summarySystem ⟨false, true, false⟩).Exec (.boot, []) tr x ∧
      ∃ z ∈ tr, ¬ World.AnswersRequests ⟨false, true, false⟩ z.1 z.2.1 := by
  obtain ⟨pre, x, hexec, -⟩ := exec_reported .cancelled trivial rfl
  refine ⟨_, x, hexec, _,
    List.mem_append_right _ (List.mem_cons_of_mem _ (List.mem_singleton_self _)), fun h => ?_⟩
  let env : Env := ⟨1, "m1", "a1", "t1", false⟩
  have hends : (reportedWorld .cancelled).1.ends (.handle env) = true := by decide
  have howed : "s1" ∈ (reportedWorld .cancelled).2 := by decide
  have hnone : ((reportedWorld .cancelled).1.outcomes ⟨false, true, false⟩ (.handle env)).countP
      (·.seeds "s1") = 0 := by decide
  exact absurd ((hnone.symm.trans (h "s1")).trans (if_pos ⟨hends, howed⟩)) (by decide)

end Horsie.Agent
