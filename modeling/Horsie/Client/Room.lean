import Horsie.Agent.World
import Horsie.Client.Agreement
import Horsie.Session.Actor

/-!
# A session's agents and a browser tab

The agents of a session, each with its own journal, and one tab that draws one of them. An agent may
be seeded with a snapshot of another's history, which the session carries from the one to the other.
The tab echoes what is typed before it sends it, and hands the echo the id the session accepted the
message under. The session records on its agents only what no agent records by itself.
-/

namespace Horsie.Client

open Agent Lib

deriving instance DecidableEq for AgentState

/-! ## The agents -/

inductive SessionAgentKind
  | main
  | sub
  | step
  | subSession
deriving DecidableEq

/-- What an agent is spawned with: a step owes a structured result, a subagent a report once its
own delegated work is done. -/
def SessionAgentKind.params (kind : SessionAgentKind) : AgentParams where
  requiresResult := decide (kind = .step)
  interactive := true
  parkOnOutstandingWork := decide (kind = .sub)

structure Member where
  kind : SessionAgentKind
  world : World

def snapshot? : Reply → Option AgentState
  | .snapshot state => some state
  | .answer _ | .cancelled | .armed _ | .timers _ | .timersCancelled _ | .taskList _ | .seeded =>
    none

namespace Member

/-- The snapshots a step of this agent answers. A process may die behind its answer. -/
def snapshots (m : Member) (l : Label) : List AgentState :=
  match l, m.world.mailbox with
  | .handle env, ⟨sender, .seed (.snapshot atSeq)⟩ :: _
  | .die env, ⟨sender, .seed (.snapshot atSeq)⟩ :: _ =>
    (m.world.effect m.kind.params env ⟨sender, .seed (.snapshot atSeq)⟩).replies.filterMap snapshot?
  | _, _ => []

/-- Whether this item is durable in the agent's journal. -/
def hasReceived (m : Member) (item : Incoming) : Bool :=
  m.world.journal.any fun e =>
    match e with
    | .received i _ => decide (i = item)
    | .seeded _ _ | .inputMessage _ | .messageComplete _ | .messageAborted _ | .toolComplete _
    | .hookRan _ _ _ | .runComplete _ _ _ _ | .runAborted _ _ _ | .runCancelled _ | .timerArmed _ _
    | .timerCancelled _ _ | .timerFired _ _ _ | .parked _ | .nudged _ | .taskListChanged _ _
    | .lifecycleRecorded _ _ | .compacted _ | .turnBegan _ _ _ | .askRecorded _ _ => false

end Member

def commands : Label → List AgentCommand
  | .load _ _ queued => queued
  | .send c => [c]
  | .emit _ _ | .finish _ | .prepared _ | .handle _ | .die _ => []

/-! ## The tab -/

/-- What changes the tab's own echoes. -/
inductive Action
  | reset
  | optimistic (id : ℕ) (text : String) (artifacts : List ArtifactRef)
  | removeOptimistic (id : ℕ)
  | ackOptimistic (id : ℕ) (serverId : String)
deriving DecidableEq

def reducer (optimistic : List Echo) : Action → List Echo
  | .reset => []
  | .optimistic id text artifacts => optimistic ++ [⟨id, text, artifacts, none⟩]
  | .removeOptimistic id => optimistic.filter (·.id ≠ id)
  | .ackOptimistic id serverId =>
    optimistic.map fun o => if o.id = id then { o with serverId := some serverId } else o

/-- A tab, the agent it draws and the echoes it holds. -/
structure Tab where
  agent : ℕ
  optimistic : List Echo

/-- A message on its way: the agent it is for, the echo it left, and what it was queued as, which is
nothing for a request to branch. -/
structure Request where
  agent : ℕ
  echo : ℕ
  item : Option Incoming

/-! ## The session -/

structure Room where
  members : List Member
  snapshots : List AgentState
  tab : Tab
  optimisticSeq : ℕ
  requests : List Request

inductive Happening
  | spawn (kind : SessionAgentKind)
  | agent (i : ℕ) (l : Label)
  | view (i : ℕ)
  | send (text : String) (artifacts : List ArtifactRef) (id : String)
  | answer (k : ℕ)
  | fail (k : ℕ)

namespace Room

def start : Room := ⟨[], [], ⟨0, []⟩, 0, []⟩

/-- What the session may tell an agent: a record that no agent makes by itself, and a seed that is
empty or a snapshot it was answered. -/
def MayTell (r : Room) : AgentCommand → Prop
  | .log (.recordLifecycle event _) => registers event = false
  | .seed (.seedFrom st _ _) => st = .initial ∨ st ∈ r.snapshots
  | .queue _ | .run _ | .timer _ | .taskList _ | .read | .log (.recordDelta _)
  | .log (.hooksRan _) | .seed (.snapshot _) | .shutdown => True

instance (r : Room) : DecidablePred r.MayTell
  | .log (.recordLifecycle event _) => inferInstanceAs (Decidable (registers event = false))
  | .seed (.seedFrom st _ _) => inferInstanceAs (Decidable (st = .initial ∨ st ∈ r.snapshots))
  | .queue _ | .run _ | .timer _ | .taskList _ | .read | .log (.recordDelta _)
  | .log (.hooksRan _) | .seed (.snapshot _) | .shutdown => inferInstanceAs (Decidable True)

/-- What a message is queued as: a request to branch is answered by the session itself. -/
def incoming (id text : String) (artifacts : List ArtifactRef) : Option Incoming :=
  match Session.SessionState.subSessionRequest (trim text) with
  | some _ => none
  | none => some (Session.SessionState.queuedMessage id text artifacts)

/-- The agent `i` is in this world now. -/
def put (r : Room) (i : ℕ) (m : Member) (w : World) : Room :=
  { r with members := r.members.set i { m with world := w } }

/-- The tab echoes a message and sends it; the request is queued as this item. -/
def echo (r : Room) (text : String) (artifacts : List ArtifactRef) (item : Option Incoming) :
    Room :=
  { r with
    tab := ⟨r.tab.agent,
      reducer r.tab.optimistic (.optimistic r.optimisticSeq text artifacts)⟩
    optimisticSeq := r.optimisticSeq + 1
    requests := r.requests ++ [⟨r.tab.agent, r.optimisticSeq, item⟩] }

/-- The session takes the message and queues it. -/
def post (r : Room) (m : Member) (text : String) (artifacts : List ArtifactRef) (id : String) :
    Room :=
  match incoming id text artifacts with
  | none => r.echo text artifacts none
  | some item =>
    (r.echo text artifacts (some item)).put r.tab.agent m
      (m.world.tell ⟨.client, .queue (.enqueue item true)⟩)

/-- An answer is there once what was queued is durable. -/
def answered (r : Room) (q : Request) : Bool :=
  match q.item with
  | none => true
  | some item => r.members[q.agent]?.any (·.hasReceived item)

/-- The answer reaches the tab: the echo takes the id of what was queued, or goes with a branch. -/
def settle (r : Room) (k : ℕ) (q : Request) : Room :=
  { r with
    tab := { r.tab with
      optimistic :=
        match q.item with
        | some item => reducer r.tab.optimistic (.ackOptimistic q.echo item.id)
        | none => reducer r.tab.optimistic (.removeOptimistic q.echo) }
    requests := r.requests.eraseIdx k }

def drop (r : Room) (k : ℕ) (q : Request) : Room :=
  { r with
    tab := { r.tab with optimistic := reducer r.tab.optimistic (.removeOptimistic q.echo) }
    requests := r.requests.eraseIdx k }

/-- One step. Ids of messages are never empty. -/
inductive Step (r : Room) : Happening → Room → Prop
  | spawn {kind : SessionAgentKind} :
      Step r (.spawn kind) { r with members := r.members ++ [⟨kind, .boot⟩] }
  | agent {i : ℕ} {m : Member} {l : Label} {w : World} (hm : r.members[i]? = some m)
      (hc : ∀ c ∈ commands l, r.MayTell c) (hs : World.Step m.kind.params m.world l w) :
      Step r (.agent i l) { r.put i m w with snapshots := r.snapshots ++ m.snapshots l }
  | view {i : ℕ} : Step r (.view i) { r with tab := ⟨i, reducer r.tab.optimistic .reset⟩ }
  | send {m : Member} {text : String} {artifacts : List ArtifactRef} {id : String}
      (hm : r.members[r.tab.agent]? = some m) (hs : m.world.stopped = false) (hid : id ≠ "") :
      Step r (.send text artifacts id) (r.post m text artifacts id)
  | answer {k : ℕ} {q : Request} (hk : r.requests[k]? = some q) (hq : r.answered q = true) :
      Step r (.answer k) (r.settle k q)
  | fail {k : ℕ} {q : Request} (hk : r.requests[k]? = some q) : Step r (.fail k) (r.drop k q)

/-- The step `l` leads to, where an agent's is one `World.step?` can take. -/
def step? (r : Room) : Happening → Option Room
  | .spawn kind => some { r with members := r.members ++ [⟨kind, .boot⟩] }
  | .agent i l =>
    match r.members[i]? with
    | none => none
    | some m =>
      if ∀ c ∈ commands l, r.MayTell c then
        (m.world.step? m.kind.params l).map fun w =>
          { r.put i m w with snapshots := r.snapshots ++ m.snapshots l }
      else none
  | .view i => some { r with tab := ⟨i, reducer r.tab.optimistic .reset⟩ }
  | .send text artifacts id =>
    match r.members[r.tab.agent]? with
    | none => none
    | some m =>
      if m.world.stopped = false ∧ id ≠ "" then some (r.post m text artifacts id) else none
  | .answer k =>
    match r.requests[k]? with
    | none => none
    | some q => if r.answered q = true then some (r.settle k q) else none
  | .fail k =>
    match r.requests[k]? with
    | none => none
    | some q => some (r.drop k q)

theorem step?_sound (r : Room) (l : Happening) (r' : Room) (h : r.step? l = some r') :
    Step r l r' := by
  cases l with
  | spawn kind => exact Option.some.inj h ▸ .spawn
  | agent i l =>
    simp only [step?] at h
    split at h
    · cases h
    · rename_i m hm
      obtain ⟨hc, h⟩ := Option.ite_none_right_eq_some.mp h
      obtain ⟨w, hw, rfl⟩ := Option.map_eq_some_iff.mp h
      exact .agent hm hc (World.step?_sound hw)
  | view i => exact Option.some.inj h ▸ .view
  | send text artifacts id =>
    simp only [step?] at h
    split at h
    · cases h
    · rename_i m hm
      obtain ⟨⟨hs, hid⟩, h⟩ := Option.ite_none_right_eq_some.mp h
      exact Option.some.inj h ▸ .send hm hs hid
  | answer k =>
    simp only [step?] at h
    split at h
    · cases h
    · rename_i q hk
      obtain ⟨hq, h⟩ := Option.ite_none_right_eq_some.mp h
      exact Option.some.inj h ▸ .answer hk hq
  | fail k =>
    simp only [step?] at h
    split at h
    · cases h
    · rename_i q hk
      exact Option.some.inj h ▸ .fail hk

end Room

def roomSystem : System Room Happening where
  Init r := r = Room.start
  Step := Room.Step

end Horsie.Client
