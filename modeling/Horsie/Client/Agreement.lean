import Horsie.Agent.Event
import Horsie.Client.Fold

/-!
# Where the two folds agree

`Agreed s` says that the web client's fold of the log of `s` shows the messages in the inbox, the
questions the agent is parked on and its task list. The events an agent makes by itself keep it, and
so do questions recorded where none are pending. A seed brings a log and none of what is in flight,
so behind one the two agree exactly if the log it brings is settled (`agreed_seeded`): each message
queued in it is taken by a turn in it, each question is followed by a turn, and its last task list
is the one that is carried.
-/

namespace Horsie.Client

open Agent

def queued? : Incoming → Option QueuedMessage
  | .user id text _ => some ⟨id, text⟩
  | .subAgent _ _ | .timer _ _ | .continue_ _ _ | .compact _ _ | .subSession _ _ => none

def asked (a : AskedQuestion) : AskLifecycle := ⟨a.toolCallId, a.question⟩

/-- The client's fold of the log shows what the server's state holds. -/
structure Agreed (s : AgentState) : Prop where
  queued : (fold s.log).queued = s.inbox.filterMap queued?
  pendingAsks : (fold s.log).pendingAsks = s.asks.map asked
  tasks : (fold s.log).tasks.getD [] = s.taskList.tasks

instance (s : AgentState) : Decidable (Agreed s) :=
  decidable_of_iff ((fold s.log).queued = s.inbox.filterMap queued? ∧
      (fold s.log).pendingAsks = s.asks.map asked ∧
      (fold s.log).tasks.getD [] = s.taskList.tasks)
    ⟨fun h => ⟨h.1, h.2.1, h.2.2⟩, fun h => ⟨h.queued, h.pendingAsks, h.tasks⟩⟩

theorem agreed_initial : Agreed .initial := ⟨rfl, rfl, rfl⟩

variable {s s' : AgentState}

theorem agreed_congr (hlog : s'.log = s.log) (hin : s'.inbox = s.inbox) (hasks : s'.asks = s.asks)
    (htasks : s'.taskList = s.taskList) : Agreed s' ↔ Agreed s := by
  constructor
  · intro h
    exact ⟨hlog ▸ hin ▸ h.queued, hlog ▸ hasks ▸ h.pendingAsks, hlog ▸ htasks ▸ h.tasks⟩
  · intro h
    exact ⟨by rw [hlog, hin]; exact h.queued, by rw [hlog, hasks]; exact h.pendingAsks,
      by rw [hlog, htasks]; exact h.tasks⟩

/-! ## One entry -/

/-- Whether an entry is one the agent writes beside a change of its queue, its questions or its
task list. -/
def registers : LifecycleEvent → Bool
  | .messageQueued _ _ | .turnBegan _ _ | .askRecorded _ _ | .taskList _ => true
  | .runtime _ _ | .preparing _ _ | .turnEnded _ | .subAgent _ _ _ | .subSession _ _ _
  | .step _ _ _ | .sessionFailed _ | .compactionSkipped _ _ => false

/-- Whether an entry leaves the registers alone. -/
def inert : AgentLogBody → Bool
  | .lifecycle event => !registers event
  | .llm _ | .hook _ | .compaction _ => true

theorem inert_steps {e : AgentLogEntry} (h : inert e.body = true) :
    (∀ q, queueStep q e = q) ∧ (∀ asks, asksStep asks e = asks) ∧
      ∀ tasks, tasksStep tasks e = tasks := by
  obtain ⟨seq, atMs, body⟩ := e
  cases body with
  | lifecycle event =>
    cases event <;> first
      | exact ⟨fun _ => rfl, fun _ => rfl, fun _ => rfl⟩
      | simp [inert, registers] at h
  | llm | hook | compaction => exact ⟨fun _ => rfl, fun _ => rfl, fun _ => rfl⟩

theorem fold_push (s : AgentState) (atMs : ℕ) (body : AgentLogBody) :
    (fold (s.push atMs body).log).queued =
        queueStep (fold s.log).queued ⟨s.nextSeq, atMs, body⟩ ∧
      (fold (s.push atMs body).log).pendingAsks =
        asksStep (fold s.log).pendingAsks ⟨s.nextSeq, atMs, body⟩ ∧
      (fold (s.push atMs body).log).tasks =
        tasksStep (fold s.log).tasks ⟨s.nextSeq, atMs, body⟩ := by
  obtain ⟨hq, ha, ht, -⟩ := (fold s.log).take_registers ⟨s.nextSeq, atMs, body⟩
  rw [AgentState.push_log, fold_snoc]
  exact ⟨hq, ha, ht⟩

theorem agreed_push (atMs : ℕ) {body : AgentLogBody} (h : inert body = true) :
    Agreed (s.push atMs body) ↔ Agreed s := by
  obtain ⟨hq, ha, ht⟩ := fold_push s atMs body
  obtain ⟨hqueue, hasks, htasks⟩ := inert_steps (e := ⟨s.nextSeq, atMs, body⟩) h
  rw [hqueue] at hq
  rw [hasks] at ha
  rw [htasks] at ht
  constructor
  · intro h
    exact ⟨hq ▸ h.queued, ha ▸ h.pendingAsks, ht ▸ h.tasks⟩
  · intro h
    exact ⟨hq.trans h.queued, ha.trans h.pendingAsks, by rw [ht]; exact h.tasks⟩

/-! ## The events -/

theorem agreed_receive (item : Incoming) (atMs : ℕ) : Agreed (s.receive item atMs) ↔ Agreed s := by
  cases item with
  | user id text artifacts =>
    obtain ⟨hq, ha, ht⟩ := fold_push s atMs (.lifecycle (.messageQueued id text))
    have hinbox : (s.receive (.user id text artifacts) atMs).inbox.filterMap queued? =
        s.inbox.filterMap queued? ++ [⟨id, text⟩] := by
      simp [AgentState.receive, queued?]
    constructor
    · intro h
      exact ⟨List.append_cancel_right (hq.symm.trans (h.queued.trans hinbox)),
        ha.symm.trans h.pendingAsks, (congrArg (·.getD []) ht.symm).trans h.tasks⟩
    · intro h
      refine ⟨?_, ha.trans h.pendingAsks, (congrArg (·.getD []) ht).trans h.tasks⟩
      rw [hinbox, ← h.queued]
      exact hq
  | subAgent | timer | continue_ | compact | subSession =>
    have hinbox : ∀ item : Incoming, queued? item = none →
        (s.inbox ++ [item]).filterMap queued? = s.inbox.filterMap queued? := by
      intro item hitem
      simp [hitem]
    constructor
    · intro h
      exact ⟨h.queued.trans (hinbox _ rfl), h.pendingAsks, h.tasks⟩
    · intro h
      exact ⟨h.queued.trans (hinbox _ rfl).symm, h.pendingAsks, h.tasks⟩

theorem agreed_beginTurn (h : Agreed s) (consumed answered : List String) (atMs : ℕ) :
    Agreed (s.beginTurn consumed answered atMs) := by
  obtain ⟨hq, ha, ht⟩ := fold_push s atMs (.lifecycle (.turnBegan
    ((s.inbox.filter fun i => i.isUser && decide (i.id ∈ consumed)).map Incoming.id) answered))
  refine ⟨?_, ha, (congrArg (·.getD []) ht).trans h.tasks⟩
  refine hq.trans ?_
  simp only [queueStep, h.queued, AgentState.beginTurn]
  rw [List.filter_filterMap, List.filterMap_filter]
  refine List.filterMap_congr fun i hi => ?_
  cases i with
  | user id text artifacts =>
    have hmem : id ∈ (s.inbox.filter fun i => i.isUser && decide (i.id ∈ consumed)).map
        Incoming.id ↔ id ∈ consumed := by
      simp only [List.mem_map, List.mem_filter, Bool.and_eq_true, decide_eq_true_eq]
      constructor
      · rintro ⟨j, ⟨-, -, hj⟩, rfl⟩
        exact hj
      · intro hid
        exact ⟨_, ⟨hi, rfl, hid⟩, rfl⟩
    show (if decide (id ∉ _) = true then some _ else none) =
      if decide (id ∉ consumed) = true then some _ else none
    simp only [decide_eq_true_eq, hmem]
  | subAgent | timer | continue_ | compact | subSession => simp [queued?]

/-- Questions recorded where none are pending are the pending ones on both sides. -/
theorem agreed_recordAsks (h : Agreed s) (hasks : s.asks = []) (asks : List AskedQuestion)
    (atMs : ℕ) : Agreed (s.recordAsks asks atMs) := by
  have hpushed : ∀ (asks : List AskedQuestion) (s : AgentState),
      let s' := asks.foldl (fun s ask =>
        s.push atMs (.lifecycle (.askRecorded ask.toolCallId ask.question))) s
      (fold s'.log).queued = (fold s.log).queued ∧ s'.inbox = s.inbox ∧
        (fold s'.log).pendingAsks = (fold s.log).pendingAsks ++ asks.map asked ∧
        (fold s'.log).tasks = (fold s.log).tasks ∧ s'.taskList = s.taskList := by
    intro asks
    induction asks with
    | nil => exact fun s => ⟨rfl, rfl, (List.append_nil _).symm, rfl, rfl⟩
    | cons ask asks ih =>
      intro s
      obtain ⟨hq, hi, ha, ht, hl⟩ :=
        ih (s.push atMs (.lifecycle (.askRecorded ask.toolCallId ask.question)))
      obtain ⟨hq', ha', ht'⟩ :=
        fold_push s atMs (.lifecycle (.askRecorded ask.toolCallId ask.question))
      refine ⟨hq.trans hq', hi, ?_, ht.trans ht', hl⟩
      rw [List.foldl_cons, ha, ha', List.map_cons, List.append_cons]
      rfl
  obtain ⟨hq, hi, ha, ht, hl⟩ := hpushed asks s
  refine ⟨?_, ?_, ?_⟩
  · show _ = ((asks.foldl _ s).inbox.filterMap queued?)
    rw [hi, ← h.queued]
    exact hq
  · refine ha.trans ?_
    rw [h.pendingAsks, hasks]
    rfl
  · show _ = (asks.foldl _ s).taskList.tasks
    rw [hl, ← h.tasks]
    exact congrArg (·.getD []) ht

theorem agreed_taskList (h : Agreed s) (snapshot : TaskListState) (atMs : ℕ) :
    Agreed { s.push atMs (.lifecycle (.taskList snapshot.tasks)) with taskList := snapshot } := by
  obtain ⟨hq, ha, ht⟩ := fold_push s atMs (.lifecycle (.taskList snapshot.tasks))
  exact ⟨hq.trans h.queued, ha.trans h.pendingAsks, congrArg (·.getD []) ht⟩

/-- What an agent journals by itself, a run's progress and a hook record keep the agreement; so do
the session's records that no register goes by, and questions where none are pending. -/
theorem agreed_applyEvent (h : Agreed s) {e : AgentDomainEvent}
    (hseed : ∀ st seed, e ≠ .seeded st seed)
    (hrecord : ∀ event atMs, e = .lifecycleRecorded event atMs → registers event = false)
    (hasks : ∀ asks atMs, e = .askRecorded asks atMs → s.asks = []) : Agreed (s.applyEvent e) := by
  have hkept : ∀ s' : AgentState, s'.log = s.log → s'.inbox = s.inbox → s'.asks = s.asks →
      s'.taskList = s.taskList → Agreed s' :=
    fun s' hl hi ha ht => (agreed_congr hl hi ha ht).mpr h
  have hobserved : Agreed { s with efficiency := s.efficiency.observe e } :=
    hkept _ rfl rfl rfl rfl
  cases e with
  | seeded st seed => exact absurd rfl (hseed st seed)
  | inputMessage m => exact (agreed_push m.createdAtMs rfl).mpr (hkept _ rfl rfl rfl rfl)
  | messageComplete m | messageAborted m => exact (agreed_push m.createdAtMs rfl).mpr hobserved
  | toolComplete c => exact (agreed_push c.atMs rfl).mpr hobserved
  | hookRan record seq atMs => exact (agreed_push atMs rfl).mpr hobserved
  | compacted f => exact (agreed_push f.atMs rfl).mpr (hkept _ rfl rfl rfl rfl)
  | lifecycleRecorded event atMs =>
    refine (agreed_push atMs ?_).mpr hobserved
    simp [inert, hrecord event atMs rfl]
  | timerFired id next => cases next <;> exact hkept _ rfl rfl rfl rfl
  | taskListChanged snapshot atMs => exact agreed_taskList hobserved snapshot atMs
  | received item atMs => exact (agreed_receive item atMs).mpr hobserved
  | turnBegan consumed answered atMs => exact agreed_beginTurn hobserved consumed answered atMs
  | askRecorded asks atMs => exact agreed_recordAsks hobserved (hasks asks atMs rfl) asks atMs
  | runComplete | runAborted | runCancelled | timerArmed | timerCancelled | parked | nudged =>
    exact hkept _ rfl rfl rfl rfl

/-! ## A copied log -/

def takes (id : String) (e : AgentLogEntry) : Bool :=
  match e.body with
  | .lifecycle (.turnBegan consumed _) => decide (id ∈ consumed)
  | .lifecycle _ | .llm _ | .hook _ | .compaction _ => false

def beginsTurn (e : AgentLogEntry) : Bool :=
  match e.body with
  | .lifecycle (.turnBegan _ _) => true
  | .lifecycle _ | .llm _ | .hook _ | .compaction _ => false

/-- Every message a log queues is taken by a turn behind it. -/
def drained : List AgentLogEntry → Bool
  | [] => true
  | e :: log =>
    (match e.body with
      | .lifecycle (.messageQueued id _) => log.any (takes id)
      | .lifecycle _ | .llm _ | .hook _ | .compaction _ => true) && drained log

/-- Every question a log records has a turn behind it. -/
def resumed : List AgentLogEntry → Bool
  | [] => true
  | e :: log =>
    (match e.body with
      | .lifecycle (.askRecorded _ _) => log.any beginsTurn
      | .lifecycle _ | .llm _ | .hook _ | .compaction _ => true) && resumed log

def lastTasks : List AgentLogEntry → Option (List TaskRecord)
  | [] => none
  | e :: log =>
    match lastTasks log with
    | some tasks => some tasks
    | none =>
      match e.body with
      | .lifecycle (.taskList tasks) => some tasks
      | .lifecycle _ | .llm _ | .hook _ | .compaction _ => none

/-- Nothing in the log of this state is still owed, and its last task list is the one carried. -/
def settled (s : AgentState) : Bool :=
  drained s.log && resumed s.log && decide ((lastTasks s.log).getD [] = s.taskList.tasks)

theorem foldl_queueStep (log : List AgentLogEntry) (q : List QueuedMessage) :
    log.foldl queueStep q =
      (q.filter fun m => !log.any (takes m.id)) ++ log.foldl queueStep [] := by
  induction log generalizing q with
  | nil => simp
  | cons e log ih =>
    obtain ⟨seq, atMs, body⟩ := e
    rw [List.foldl_cons, List.foldl_cons, ih, ih (queueStep [] _)]
    cases body with
    | lifecycle event =>
      cases event with
      | messageQueued id text => simp [queueStep, takes, List.filter_append]
      | turnBegan consumed answered => simp [queueStep, takes, List.filter_filter, Bool.and_comm]
      | _ => simp [queueStep, takes]
    | llm | hook | compaction => simp [queueStep, takes]

theorem queued_eq_nil_iff (log : List AgentLogEntry) :
    (fold log).queued = [] ↔ drained log = true := by
  rw [queued_fold]
  induction log with
  | nil => simp [drained]
  | cons e log ih =>
    obtain ⟨seq, atMs, body⟩ := e
    rw [List.foldl_cons, foldl_queueStep, List.append_eq_nil_iff, ih]
    cases body with
    | lifecycle event => cases event <;> simp [queueStep, drained]
    | llm | hook | compaction => simp [queueStep, drained]

theorem foldl_asksStep (log : List AgentLogEntry) (asks : List AskLifecycle) :
    log.foldl asksStep asks =
      (if log.any beginsTurn then [] else asks) ++ log.foldl asksStep [] := by
  induction log generalizing asks with
  | nil => simp
  | cons e log ih =>
    obtain ⟨seq, atMs, body⟩ := e
    rw [List.foldl_cons, List.foldl_cons, ih, ih (asksStep [] _)]
    cases body with
    | lifecycle event =>
      cases event with
      | askRecorded c q =>
        by_cases hturn : log.any beginsTurn = true <;> simp [asksStep, beginsTurn, hturn]
      | _ => simp [asksStep, beginsTurn]
    | llm | hook | compaction => simp [asksStep, beginsTurn]

/-- The client shows no question exactly if the log left none open. -/
theorem pendingAsks_eq_nil_iff (log : List AgentLogEntry) :
    (fold log).pendingAsks = [] ↔ resumed log = true := by
  rw [pendingAsks_fold]
  induction log with
  | nil => simp [resumed]
  | cons e log ih =>
    obtain ⟨seq, atMs, body⟩ := e
    rw [List.foldl_cons, foldl_asksStep, List.append_eq_nil_iff, ih]
    cases body with
    | lifecycle event => cases event <;> simp [asksStep, resumed]
    | llm | hook | compaction => simp [asksStep, resumed]

theorem tasks_eq_lastTasks (log : List AgentLogEntry) : (fold log).tasks = lastTasks log := by
  have hfrom : ∀ (log : List AgentLogEntry) (tasks : Option (List TaskRecord)),
      log.foldl tasksStep tasks = (lastTasks log).or tasks := by
    intro log
    induction log with
    | nil => exact fun tasks => rfl
    | cons e log ih =>
      intro tasks
      obtain ⟨seq, atMs, body⟩ := e
      rw [List.foldl_cons, ih, lastTasks]
      cases lastTasks log with
      | some ts => rfl
      | none =>
        cases body with
        | lifecycle event => cases event <;> rfl
        | llm | hook | compaction => rfl
  rw [tasks_fold, hfrom, Option.or_none]

/-- Behind a seed that brings nothing in flight the two agree exactly if the log it brings is
settled. -/
theorem agreed_seeded {st : AgentState} (hin : st.inbox = []) (hasks : st.asks = [])
    (seed : Option Message) : Agreed (s.applyEvent (.seeded st seed)) ↔ settled st = true := by
  have hst : Agreed st ↔ settled st = true := by
    simp only [settled, Bool.and_eq_true, decide_eq_true_eq, ← queued_eq_nil_iff,
      ← pendingAsks_eq_nil_iff, ← tasks_eq_lastTasks]
    constructor
    · intro h
      exact ⟨⟨h.queued.trans (by rw [hin]; rfl), h.pendingAsks.trans (by rw [hasks]; rfl)⟩,
        h.tasks⟩
    · rintro ⟨⟨hq, ha⟩, ht⟩
      exact ⟨hq.trans (by rw [hin]; rfl), ha.trans (by rw [hasks]; rfl), ht⟩
  cases seed with
  | none => exact hst
  | some m => exact (agreed_push m.createdAtMs rfl).trans hst

end Horsie.Client
