import Horsie.Agent.Stream
import Horsie.Lib.Newest
import Horsie.Session.Runs

/-!
# What a copied history carries

A sub session that copies its source starts on the source's log, cut at the branch point: where the
log stood when the sub session was asked for. The source goes on meanwhile, and what it appends is
what the cut takes off, so that the copy is the log as it was at the branch point
(`snapshot_log`). Nobody asks whether the source was at rest then: calls, turns and delegated work
that were in flight are in the copy without their ends, which go to the source alone.
-/

namespace Horsie.Agent

open Lib

/-- What an entry says of turns: that one began, or that one ended. -/
def AgentLogBody.turn? : AgentLogBody → Option Bool
  | .lifecycle (.turnBegan _ _) => some true
  | .lifecycle (.turnEnded _) => some false
  | .llm _ | .hook _ | .lifecycle _ | .compaction _ => none

namespace AgentState

variable {s s' : AgentState}

/-- A history that stands on its own. -/
structure SelfContained (s : AgentState) : Prop where
  calls : ∀ m ∈ s.shown, ∀ id ∈ assistantCalls m, id ∈ answeredIds s.shown
  turns : ∀ before began after, s.log = before ++ began :: after → began.body.turn? = some true →
    ∃ ended ∈ after, ended.body.turn? = some false
  children : ∀ id ∈ s.children, s.childStatus id ≠ some "running"

/-- No call is without its result, the newest turn has ended, and no delegated work is running. -/
def atRest (s : AgentState) : Bool :=
  (missingToolResults s.shown [] 0).isEmpty &&
    decide (newest (·.body.turn?) s.log ≠ some true) && !s.hasOutstandingChildren

theorem missingToolResults_nil_iff {messages : List Message} {now : ℕ} :
    missingToolResults messages [] now = [] ↔
      ∀ m ∈ messages, ∀ id ∈ assistantCalls m, id ∈ answeredIds messages := by
  unfold missingToolResults
  rw [List.map_eq_nil_iff, List.filter_eq_nil_iff]
  constructor
  · intro h m hm id hid
    by_contra hno
    exact h id (List.mem_flatMap.mpr ⟨m, hm, hid⟩) (by simpa using hno)
  · intro h id hid
    obtain ⟨m, hm, hid⟩ := List.mem_flatMap.mp hid
    simp [h m hm id hid]

theorem atRest_iff : s.atRest = true ↔ s.SelfContained := by
  unfold atRest
  rw [Bool.and_eq_true, Bool.and_eq_true, List.isEmpty_iff, missingToolResults_nil_iff,
    decide_eq_true_iff, newest_ne_true_iff, Bool.not_eq_true', hasOutstandingChildren,
    List.any_eq_false]
  constructor
  · rintro ⟨⟨hcalls, hturns⟩, hchildren⟩
    exact ⟨hcalls, hturns, fun id hid => by simpa using hchildren id hid⟩
  · rintro ⟨hcalls, hturns, hchildren⟩
    exact ⟨⟨hcalls, hturns⟩, fun id hid => by simpa using hchildren id hid⟩

theorem atRest_congr (h : s'.log = s.log) : s'.atRest = s.atRest := by
  have hshown : s'.shown = s.shown := by rw [shown, h, shown]
  have hchildren : s'.hasOutstandingChildren = s.hasOutstandingChildren := by
    unfold hasOutstandingChildren children childStatus
    rw [h]
  rw [atRest, hshown, h, hchildren, atRest]

end AgentState

/-! ## The copy -/

section

variable {params : AgentParams} {b w : World} {tr : List (World × Label × World)}

theorem log_le_of_exec (hb : (snapshotSystem params).Reachable b)
    (hrun : (snapshotSystem params).Exec b tr w) : b.state.log <+: w.state.log := by
  induction hrun with
  | nil => exact List.prefix_rfl
  | snoc h hs ih => exact ih.trans (log_le (h.reachable hb).unrestrict hs.1)

theorem numbered_of_reachable (hw : (snapshotSystem params).Reachable w) : w.state.Numbered := by
  rw [state_eq_journal hw.unrestrict]
  exact (journal_written hw).numbered

theorem snapshot_log (hb : (snapshotSystem params).Reachable b)
    (hrun : (snapshotSystem params).Exec b tr w) :
    (w.state.snapshotAt b.state.nextSeq).log = b.state.log := by
  obtain ⟨later, hlater⟩ := log_le_of_exec hb hrun
  rw [(numbered_of_reachable (hrun.reachable hb)).snapshotAt_log, ← hlater,
    ← (numbered_of_reachable hb).length, List.take_left]

end

/-! ## Two sources -/

/-- What is sent to the source seeds nothing. -/
def Label.unseeding : Label → Bool
  | .load _ _ queued => queued.all AgentCommand.unseeded
  | .send c => c.unseeded
  | .emit _ _ | .finish _ | .prepared _ | .handle _ | .die _ => true

def sourceStep? (w : World) (l : Label) : Option World :=
  if l.unseeding then w.step? ⟨false, false, false⟩ l else none

theorem sourceStep?_sound (w : World) (l : Label) (w' : World) (h : sourceStep? w l = some w') :
    (snapshotSystem ⟨false, false, false⟩).Step w l w' := by
  obtain ⟨hplain, h⟩ := Option.ite_none_right_eq_some.mp h
  refine ⟨World.step?_sound h, ?_⟩
  cases l with
  | load env ready queued =>
    exact fun c hc => c.seedsWritten_of_unseeded (List.all_eq_true.mp hplain c hc)
  | send c => exact c.seedsWritten_of_unseeded hplain
  | emit | finish | prepared | handle | die => trivial

def sourceEnv : Env := ⟨0, "m", "a", "t", false⟩

def callingLabels : List Label :=
  [.load sourceEnv true [.queue (.enqueue (.user "u" "hello" []) false)], .handle sourceEnv,
    .handle sourceEnv,
    .emit 0 (.messageComplete ⟨"r", .assistant, [.toolCall ⟨"c", "bash", .null⟩], 0, none⟩),
    .handle sourceEnv]

def callingSource : World :=
  (System.steps? sourceStep? World.boot callingLabels).get (by decide +kernel)

def calledSource : World :=
  (System.steps? sourceStep? callingSource
    [.emit 0 (.toolComplete ⟨"c", "ok", false, [], 2, 0, 0, 0, 0⟩), .handle sourceEnv]).get
    (by decide +kernel)

/-- A message is answered with text, and the end of the turn is recorded. -/
def answeredSource : World :=
  (System.steps? sourceStep? World.boot
    [.load sourceEnv true [.queue (.enqueue (.user "u" "hello" []) false)], .handle sourceEnv,
      .handle sourceEnv, .finish ⟨0, .completed "done", none⟩, .handle sourceEnv,
      .send (.log (.recordLifecycle (.turnEnded .ended) 0)), .handle sourceEnv]).get
    (by decide +kernel)

/-- Another message comes. -/
def resumedSource : World :=
  (System.steps? sourceStep? answeredSource
    [.send (.queue (.enqueue (.user "v" "again" []) false)), .handle sourceEnv]).get
    (by decide +kernel)

end Horsie.Agent

namespace Horsie.Session

open Lib

variable {params : Agent.AgentParams} {b w : Agent.World}
  {tr : List (Agent.World × Agent.Label × Agent.World)} {s : SessionState} {env : Env}
  {parent message title id source : String} {choice : RequestedRuntime} {runtime : RuntimeChoice}
  {sourceSeq : ℕ}

/-- Copied at a branch point that the session accepts, at any later time, a history stands on its
own exactly where the source was at rest when it was asked where its log stands. -/
theorem copied_self_contained_iff
    (hcreate : .subSessionCreated id source sourceSeq .copy message title runtime ∈
      (s.handleSubSession env (.create parent .copy message title choice)).events)
    (hb : (Agent.snapshotSystem params).Reachable b)
    (hhead : env.logHead parent = some b.state.nextSeq)
    (hrun : (Agent.snapshotSystem params).Exec b tr w) :
    (w.state.snapshotAt sourceSeq).SelfContained ↔ b.state.atRest = true := by
  have hseq : sourceSeq = b.state.nextSeq := by
    rw [SessionState.handleSubSession, hhead] at hcreate
    cases hbranch : s.branchable env.id parent message with
    | some why =>
      rw [hbranch] at hcreate
      cases hcreate
    | none =>
      rw [hbranch] at hcreate
      cases List.mem_singleton.mp hcreate
      rfl
  rw [hseq, ← Agent.AgentState.atRest_iff,
    Agent.AgentState.atRest_congr (Agent.snapshot_log hb hrun)]

/-- What a session reads that is asked to branch its main agent, whose log stands at `n`. -/
def branchEnv (n : ℕ) : Env := { Env.plain "1" with id := "0", logHead := fun _ => some n }

theorem branched_main (n : ℕ) : .subSessionCreated "1" "0" n .copy "go" "t" .inherit ∈
    (SessionState.empty.handleSubSession (branchEnv n)
      (.create "0" .copy "go" "t" .inherit)).events := by
  have hbranch : SessionState.empty.branchable (branchEnv n).id "0" "go" = none := by
    show SessionState.empty.branchable "0" "0" "go" = none
    decide +kernel
  rw [SessionState.handleSubSession, hbranch]
  exact List.mem_singleton_self _

/-- A source that has answered is branched, and goes on before it is copied. -/
theorem copied_self_contained_answered :
    (Agent.resumedSource.state.snapshotAt
      Agent.answeredSource.state.nextSeq).SelfContained := by
  obtain ⟨tr, hb, -⟩ := System.exec_of_steps? (M := Agent.snapshotSystem ⟨false, false, false⟩)
    Agent.sourceStep?_sound (show _ = some Agent.answeredSource from (Option.some_get _).symm)
  obtain ⟨tr', hrun, -⟩ := System.exec_of_steps? (M := Agent.snapshotSystem ⟨false, false, false⟩)
    Agent.sourceStep?_sound (show _ = some Agent.resumedSource from (Option.some_get _).symm)
  exact (copied_self_contained_iff (branched_main _) (hb.reachable (.init rfl)) rfl hrun).mpr
    (by decide +kernel)

/-- A source is branched while it waits for a tool: the copy has the call and the turn, and neither
the result nor the end. -/
theorem call_copied : ¬ ∀ (params : Agent.AgentParams) (b w : Agent.World)
    (tr : List (Agent.World × Agent.Label × Agent.World)) (s : SessionState) (env : Env)
    (parent message title id source : String) (choice : RequestedRuntime)
    (runtime : RuntimeChoice) (sourceSeq : ℕ),
    .subSessionCreated id source sourceSeq .copy message title runtime ∈
      (s.handleSubSession env (.create parent .copy message title choice)).events →
    (Agent.snapshotSystem params).Reachable b → env.logHead parent = some b.state.nextSeq →
    (Agent.snapshotSystem params).Exec b tr w →
    (w.state.snapshotAt sourceSeq).SelfContained := by
  intro h
  obtain ⟨tr, hb, -⟩ := System.exec_of_steps? (M := Agent.snapshotSystem ⟨false, false, false⟩)
    Agent.sourceStep?_sound (show _ = some Agent.callingSource from (Option.some_get _).symm)
  obtain ⟨tr', hrun, -⟩ := System.exec_of_steps? (M := Agent.snapshotSystem ⟨false, false, false⟩)
    Agent.sourceStep?_sound (show _ = some Agent.calledSource from (Option.some_get _).symm)
  have hself := h _ _ _ _ _ _ _ _ _ _ _ _ _ _ (branched_main _) (hb.reachable (.init rfl)) rfl
    hrun
  have hopen : ((Agent.calledSource.state.snapshotAt
      Agent.callingSource.state.nextSeq).shown.flatMap Agent.assistantCalls,
      Agent.answeredIds (Agent.calledSource.state.snapshotAt
        Agent.callingSource.state.nextSeq).shown) = (["c"], []) := by
    decide +kernel
  obtain ⟨hcalls, hanswers⟩ := Prod.mk.inj hopen
  have hmem : "c" ∈ (Agent.calledSource.state.snapshotAt
      Agent.callingSource.state.nextSeq).shown.flatMap Agent.assistantCalls := by
    rw [hcalls]
    exact List.mem_singleton_self _
  obtain ⟨m, hm, hc⟩ := List.mem_flatMap.mp hmem
  have hanswered := hself.calls m hm "c" hc
  rw [hanswers] at hanswered
  cases hanswered

example : "c" ∈ Agent.answeredIds Agent.calledSource.state.shown := by decide +kernel

end Horsie.Session
