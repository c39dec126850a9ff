import Horsie.Agent.State
import Mathlib.Data.List.Induction

/-!
# The web client's fold

What a browser tab computes from the log entries of one agent (`fold`), and the messages it sent
that it still draws itself (`liveEchoes`). The status, the reasons and the progress line are part of
the fold; the entries' own rows in the transcript are not. Each register the server holds too is a
fold of its own over the entries (`queued_fold`, `pendingAsks_fold`, `tasks_fold`).
-/

namespace Horsie.Client

open Agent

inductive SessionStatusKind
  | provisioning
  | idle
  | running
  | awaitingInput
  | finished
  | failed
  | unrecoverable
deriving DecidableEq

/-- A question an agent is parked on, as the log has it. -/
structure AskLifecycle where
  toolCallId : Option String
  question : String
deriving DecidableEq

structure QueuedMessage where
  id : String
  text : String
deriving DecidableEq

structure Progression where
  stage : String
  detail : Option String
deriving DecidableEq

structure Folded where
  status : Option SessionStatusKind
  statusSeq : ℕ
  rosterSeq : ℕ
  reason : Option String
  error : Option String
  pendingAsks : List AskLifecycle
  queued : List QueuedMessage
  accepted : List String
  tasks : Option (List TaskRecord)
  tasksSeq : Int
  progression : Option Progression
deriving DecidableEq

def runtimeStage : RuntimeStatus → String
  | .acquiring => "runtime_acquiring"
  | .ready => "runtime_ready"
  | .failed => "runtime_failed"

def failure? : TurnOutcome → Option String
  | .failed error => some error
  | .ended | .stopped | .interrupted => none

namespace Folded

def initial : Folded where
  status := none
  statusSeq := 0
  rosterSeq := 0
  reason := none
  error := none
  pendingAsks := []
  queued := []
  accepted := []
  tasks := none
  tasksSeq := -1
  progression := none

/-- What the lifecycle entry at `seq` changes. -/
def observe (out : Folded) (seq : ℕ) : LifecycleEvent → Folded
  | .runtime status detail =>
    { out with
      progression := some ⟨runtimeStage status, detail⟩
      status :=
        if status = .failed then some .failed
        else if out.status.isNone then some .provisioning
        else out.status
      reason := if status = .failed then detail else out.reason
      statusSeq := out.statusSeq + 1 }
  | .preparing stage detail => { out with progression := some ⟨stage, detail⟩ }
  | .messageQueued id text =>
    { out with queued := out.queued ++ [⟨id, text⟩], accepted := out.accepted ++ [id] }
  | .turnBegan consumed _ =>
    -- A turn beginning ends the park either way: answered, or abandoned.
    { out with
      queued := out.queued.filter (·.id ∉ consumed)
      pendingAsks := []
      status := some .running
      statusSeq := out.statusSeq + 1
      error := none
      progression := none }
  | .turnEnded outcome =>
    { out with
      status := some (if (failure? outcome).isSome then .failed else .idle)
      error := failure? outcome
      reason := failure? outcome
      statusSeq := out.statusSeq + 1
      progression := none }
  | .askRecorded toolCallId question =>
    { out with
      pendingAsks := out.pendingAsks ++ [⟨toolCallId, question⟩]
      status := some .awaitingInput
      statusSeq := out.statusSeq + 1 }
  | .taskList tasks => { out with tasks := some tasks, tasksSeq := seq }
  | .subAgent id title status =>
    { out with
      progression := some ⟨"subagent_" ++ status, some s!"\"{title}\" ({id})"⟩
      rosterSeq := out.rosterSeq + 1 }
  | .step _ name status =>
    if status = "started" then
      { out with
        rosterSeq := out.rosterSeq + 1
        status := some .running
        statusSeq := out.statusSeq + 1
        progression := some ⟨"step_" ++ status, some name⟩ }
    else
      { out with
        rosterSeq := out.rosterSeq + 1
        status := some (if status = "failed" ∨ status = "run_failed" then .failed else .idle)
        statusSeq := out.statusSeq + 1
        progression := none }
  | .sessionFailed reason =>
    { out with
      status := some .unrecoverable
      reason := some reason
      error := some reason
      statusSeq := out.statusSeq + 1 }
  | .subSession _ _ _ | .compactionSkipped _ _ => out

/-- What one entry changes: entries that are no lifecycle record drive nothing. -/
def take (out : Folded) (e : AgentLogEntry) : Folded :=
  match e.body with
  | .lifecycle event => out.observe e.seq event
  | .llm _ | .hook _ | .compaction _ => out

end Folded

/-- Everything the session reports beside its messages, computed from the log. -/
def fold (entries : List AgentLogEntry) : Folded := entries.foldl Folded.take .initial

/-- A message this tab sent, shown until the server's own account of it arrives. -/
structure Echo where
  id : ℕ
  text : String
  artifacts : List ArtifactRef
  serverId : Option String
deriving DecidableEq

/-- The echoes this tab still has to draw itself. -/
def liveEchoes (accepted : List String) (optimistic : List Echo) : List Echo :=
  optimistic.filter fun o => !o.serverId.any fun id => decide (id ≠ "") && decide (id ∈ accepted)

/-! ## The registers -/

def queueStep (q : List QueuedMessage) (e : AgentLogEntry) : List QueuedMessage :=
  match e.body with
  | .lifecycle (.messageQueued id text) => q ++ [⟨id, text⟩]
  | .lifecycle (.turnBegan consumed _) => q.filter (·.id ∉ consumed)
  | .lifecycle _ | .llm _ | .hook _ | .compaction _ => q

/-- The pending questions behind one more entry. -/
def asksStep (asks : List AskLifecycle) (e : AgentLogEntry) : List AskLifecycle :=
  match e.body with
  | .lifecycle (.askRecorded toolCallId question) => asks ++ [⟨toolCallId, question⟩]
  | .lifecycle (.turnBegan _ _) => []
  | .lifecycle _ | .llm _ | .hook _ | .compaction _ => asks

def tasksStep (tasks : Option (List TaskRecord)) (e : AgentLogEntry) : Option (List TaskRecord) :=
  match e.body with
  | .lifecycle (.taskList ts) => some ts
  | .lifecycle _ | .llm _ | .hook _ | .compaction _ => tasks

/-- The message an entry says the server has got. -/
def acceptedBy (e : AgentLogEntry) : Option String :=
  match e.body with
  | .lifecycle (.messageQueued id _) => some id
  | .lifecycle _ | .llm _ | .hook _ | .compaction _ => none

theorem Folded.take_registers (out : Folded) (e : AgentLogEntry) :
    (out.take e).queued = queueStep out.queued e ∧
      (out.take e).pendingAsks = asksStep out.pendingAsks e ∧
      (out.take e).tasks = tasksStep out.tasks e ∧
      (out.take e).accepted = out.accepted ++ (acceptedBy e).toList := by
  obtain ⟨seq, atMs, body⟩ := e
  cases body with
  | lifecycle event =>
    cases event with
    | messageQueued id text => exact ⟨rfl, rfl, rfl, rfl⟩
    | step index name status =>
      have hkept : (out.observe seq (.step index name status)).queued = out.queued ∧
          (out.observe seq (.step index name status)).pendingAsks = out.pendingAsks ∧
          (out.observe seq (.step index name status)).tasks = out.tasks ∧
          (out.observe seq (.step index name status)).accepted = out.accepted := by
        unfold observe
        dsimp only
        split_ifs <;> exact ⟨rfl, rfl, rfl, rfl⟩
      exact ⟨hkept.1, hkept.2.1, hkept.2.2.1, hkept.2.2.2.trans (List.append_nil _).symm⟩
    | _ => exact ⟨rfl, rfl, rfl, (List.append_nil _).symm⟩
  | llm | hook | compaction => exact ⟨rfl, rfl, rfl, (List.append_nil _).symm⟩

theorem fold_snoc (log : List AgentLogEntry) (e : AgentLogEntry) :
    fold (log ++ [e]) = (fold log).take e := by
  simp only [fold, List.foldl_append, List.foldl_cons, List.foldl_nil]

theorem queued_fold (log : List AgentLogEntry) : (fold log).queued = log.foldl queueStep [] :=
  (List.foldl_hom Folded.queued fun out e => (out.take_registers e).1.symm).symm

theorem pendingAsks_fold (log : List AgentLogEntry) :
    (fold log).pendingAsks = log.foldl asksStep [] :=
  (List.foldl_hom Folded.pendingAsks fun out e => (out.take_registers e).2.1.symm).symm

theorem tasks_fold (log : List AgentLogEntry) : (fold log).tasks = log.foldl tasksStep none :=
  (List.foldl_hom Folded.tasks fun out e => (out.take_registers e).2.2.1.symm).symm

theorem accepted_fold (log : List AgentLogEntry) :
    (fold log).accepted = log.filterMap acceptedBy := by
  induction log using List.reverseRecOn with
  | nil => rfl
  | append_singleton log e ih =>
    rw [fold_snoc, ((fold log).take_registers e).2.2.2, ih, List.filterMap_append]
    cases h : acceptedBy e <;> simp [h]

end Horsie.Client
