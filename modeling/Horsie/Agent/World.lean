import Horsie.Agent.Turns
import Horsie.Lib.Transition

/-!
# One agent, its runs and its journal

The transition system of one agent: the actor with its mailbox, the run and preparation tasks it
spawned, and the journal. A mailbox is handled in order, one command at a time, and the events of
one handler are one write, so the process dies between writes or, having answered its callers,
just before one. Loading starts a fresh incarnation from the fold of the journal; whatever the
earlier one had spawned holds a mailbox nobody reads any more.

A run task is known by what it may send: coarse events, of which a tool result is for a call of
the newest message it sent that has none yet, and one report at its end.
-/

namespace Horsie.Agent

/-- Who put a command into the mailbox. -/
inductive Sender
  | client
  | self
  | run (id : ℕ)
  | prepare
deriving DecidableEq

structure Mail where
  sender : Sender
  cmd : AgentCommand

/-- A run task still executing, with the calls of its newest message that have no result yet. -/
structure LiveRun where
  task : RunTask
  pending : List String
deriving DecidableEq

/-- The calls left open by sending an event, if a run with these calls open may send it. -/
def emits (pending : List String) : AgentDomainEvent → Option (List String)
  | .messageComplete m => if m.role = .assistant then some m.callIds else none
  | .toolComplete c => if c.toolCallId ∈ pending then some (pending.erase c.toolCallId) else none
  | .compacted _ => some []
  | .runComplete _ _ _ _ | .runAborted _ _ _ => some pending
  | .lifecycleRecorded (.compactionSkipped _ _) _ => some pending
  | .lifecycleRecorded _ _ | .seeded _ _ | .inputMessage _ | .messageAborted _ | .hookRan _ _ _
  | .runCancelled _ | .timerArmed _ _ | .timerCancelled _ _ | .timerFired _ _ _ | .parked _
  | .nudged _ | .taskListChanged _ _ | .received _ _ | .turnBegan _ _ _ | .askRecorded _ _ => none

/-- Whether a run with these calls open may end so: the calls that stopped it got no result. -/
def endsWith (pending : List String) : RunOutcome → Prop
  | .stopped calls => (calls.map (·.toolCallId)).Subperm pending
  | .completed _ | .cancelled | .failed _ _ | .alreadyReported => True

instance (pending : List String) : DecidablePred (endsWith pending)
  | .stopped calls => inferInstanceAs (Decidable ((calls.map (·.toolCallId)).Subperm pending))
  | .completed _ | .cancelled | .failed _ _ | .alreadyReported => inferInstanceAs (Decidable True)

/-- What the start hooks of a turn came to. -/
inductive HookAnswer
  | ran (records : List HookRecord) (message : Option String)
  | failed (message : String) (terminal : Bool)

/-- What the prepare task sends back. A rewritten prompt replaces the turn's input. -/
def HookAnswer.prepared (turn : Turn) : HookAnswer → PreparedStart
  | .ran records message =>
    { turn := { turn with message := message.or turn.message }
      records := records
      abandon := (startBlocked records).map .blocked }
  | .failed message terminal =>
    { turn := turn, records := [], abandon := some (.failed message terminal) }

/-- The commands that come from outside the actor and its tasks. -/
def AgentCommand.external : AgentCommand → Bool
  | .queue (.enqueue _ _) | .queue (.answer _) => true
  | .queue .drain | .queue (.startPrepared _) => false
  | .run (.cancel _) => true
  | .run (.persistProgress _) | .run (.runFinished _) => false
  | .timer _ | .taskList _ | .read | .log _ | .seed _ | .shutdown => true

structure World where
  state : AgentState
  journal : List AgentDomainEvent
  actor : AgentActor
  mailbox : List Mail
  runs : List LiveRun
  prepares : List Turn
  stopped : Bool
  acknowledged : List AskAnswer

def Reply.accepts : Reply → Bool
  | .answer (.ok _) => true
  | .answer (.error _) | .cancelled | .armed _ | .timers _ | .timersCancelled _ | .taskList _
  | .snapshot _ | .seeded => false

def acknowledgedBy : AgentCommand → Effect → List AskAnswer
  | .queue (.answer answers), e => if e.replies.any Reply.accepts then answers else []
  | .queue _, _ | .run _, _ | .timer _, _ | .taskList _, _ | .read, _ | .log _, _ | .seed _, _
  | .shutdown, _ => []

/-- The steps of the system. -/
inductive Label
  | load (env : Env) (ready : Bool) (queued : List AgentCommand)
  | send (cmd : AgentCommand)
  | emit (run : ℕ) (event : AgentDomainEvent)
  | finish (report : RunReport)
  | prepared (answer : HookAnswer)
  | handle (env : Env)
  | die (env : Env)

namespace World

/-- An agent nothing has happened to. -/
def boot : World where
  state := .initial
  journal := []
  actor := .new false
  mailbox := []
  runs := []
  prepares := []
  stopped := true
  acknowledged := []

def tell (w : World) (mail : Mail) : World := { w with mailbox := w.mailbox ++ [mail] }

/-- A fresh incarnation. -/
def load (w : World) (params : AgentParams) (env : Env) (ready : Bool)
    (queued : List AgentCommand) : World :=
  let e := (AgentActor.new ready).onRecoveryComplete params env w.state
  { w with
    actor := e.actor
    mailbox := queued.map (⟨.client, ·⟩) ++ e.tells.map (⟨.self, ·⟩)
    runs := e.runs.map (⟨·, []⟩)
    prepares := []
    stopped := false }

/-- What handling `mail` does. -/
def effect (w : World) (params : AgentParams) (env : Env) (mail : Mail) : Effect :=
  w.actor.handleCommand params env w.state mail.cmd

/-- The command at the head of the mailbox has been handled with effect `e`. -/
def perform (w : World) (mail : Mail) (rest : List Mail) (e : Effect) : World where
  state := w.state.applyAll e.events
  journal := w.journal ++ e.events
  actor := e.actor.onEventsPersisted e.events
  mailbox := rest ++ e.tells.map (⟨.self, ·⟩)
  runs := w.runs ++ e.runs.map (⟨·, []⟩)
  prepares := w.prepares ++ e.prepares
  stopped := e.stop
  acknowledged := w.acknowledged ++ acknowledgedBy mail.cmd e

/-- The process dies after the handler of `mail` answered its callers. -/
def die (w : World) (mail : Mail) (e : Effect) : World :=
  { w with
    actor := .new false
    mailbox := []
    runs := []
    prepares := []
    stopped := true
    acknowledged := w.acknowledged ++ acknowledgedBy mail.cmd e }

inductive Step (params : AgentParams) (w : World) : Label → World → Prop
  | load {env : Env} {ready : Bool} {queued : List AgentCommand}
      (hq : ∀ c ∈ queued, c.external = true) :
      Step params w (.load env ready queued) (w.load params env ready queued)
  | send {cmd : AgentCommand} (hs : w.stopped = false) (hc : cmd.external = true) :
      Step params w (.send cmd) (w.tell ⟨.client, cmd⟩)
  | emit {pre post : List LiveRun} {r : LiveRun} {event : AgentDomainEvent}
      {pending : List String} (hs : w.stopped = false) (hr : w.runs = pre ++ r :: post)
      (he : emits r.pending event = some pending) :
      Step params w (.emit r.task.id event)
        ({ w with runs := pre ++ { r with pending } :: post }.tell
          ⟨.run r.task.id, .run (.persistProgress [event])⟩)
  | finish {pre post : List LiveRun} {r : LiveRun} {report : RunReport}
      (hs : w.stopped = false) (hr : w.runs = pre ++ r :: post) (hid : report.runId = r.task.id)
      (he : endsWith r.pending report.outcome) :
      Step params w (.finish report)
        ({ w with runs := pre ++ post }.tell ⟨.run r.task.id, .run (.runFinished report)⟩)
  | prepared {pre post : List Turn} {turn : Turn} {answer : HookAnswer}
      (hs : w.stopped = false) (hp : w.prepares = pre ++ turn :: post) :
      Step params w (.prepared answer)
        ({ w with prepares := pre ++ post }.tell
          ⟨.prepare, .queue (.startPrepared (answer.prepared turn))⟩)
  | handle {env : Env} {mail : Mail} {rest : List Mail} (hs : w.stopped = false)
      (hm : w.mailbox = mail :: rest) :
      Step params w (.handle env) (w.perform mail rest (w.effect params env mail))
  | die {env : Env} {mail : Mail} {rest : List Mail} (hs : w.stopped = false)
      (hm : w.mailbox = mail :: rest) :
      Step params w (.die env) (w.die mail (w.effect params env mail))

/-- The step `l` leads to, where it is one the first run or preparation can take. -/
def step? (params : AgentParams) (w : World) : Label → Option World
  | .load env ready queued =>
    if ∀ c ∈ queued, c.external = true then some (w.load params env ready queued) else none
  | .send cmd =>
    if w.stopped = false ∧ cmd.external = true then some (w.tell ⟨.client, cmd⟩) else none
  | .emit id event =>
    match w.runs with
    | [] => none
    | r :: post =>
      match emits r.pending event with
      | none => none
      | some pending =>
        if w.stopped = false ∧ r.task.id = id then
          some ({ w with runs := { r with pending } :: post }.tell
            ⟨.run r.task.id, .run (.persistProgress [event])⟩)
        else none
  | .finish report =>
    match w.runs with
    | [] => none
    | r :: post =>
      if w.stopped = false ∧ report.runId = r.task.id ∧ endsWith r.pending report.outcome then
        some ({ w with runs := post }.tell ⟨.run r.task.id, .run (.runFinished report)⟩)
      else none
  | .prepared answer =>
    match w.prepares with
    | [] => none
    | turn :: post =>
      if w.stopped = false then
        some ({ w with prepares := post }.tell
          ⟨.prepare, .queue (.startPrepared (answer.prepared turn))⟩)
      else none
  | .handle env =>
    match w.mailbox with
    | [] => none
    | mail :: rest =>
      if w.stopped = false then some (w.perform mail rest (w.effect params env mail)) else none
  | .die env =>
    match w.mailbox with
    | [] => none
    | mail :: _ =>
      if w.stopped = false then some (w.die mail (w.effect params env mail)) else none

theorem step?_sound {params : AgentParams} {w w' : World} {l : Label}
    (h : w.step? params l = some w') : Step params w l w' := by
  cases l with
  | load env ready queued =>
    obtain ⟨hq, h⟩ := Option.ite_none_right_eq_some.mp h
    exact Option.some.inj h ▸ .load hq
  | send cmd =>
    obtain ⟨⟨hs, hc⟩, h⟩ := Option.ite_none_right_eq_some.mp h
    exact Option.some.inj h ▸ .send hs hc
  | emit id event =>
    simp only [step?] at h
    cases hr : w.runs with
    | nil => simp [hr] at h
    | cons r post =>
      cases he : emits r.pending event with
      | none => simp [hr, he] at h
      | some pending =>
        simp only [hr, he] at h
        obtain ⟨⟨hs, hid⟩, hw⟩ := Option.ite_none_right_eq_some.mp h
        have step := @Step.emit params w [] post r event pending hs hr he
        rw [hid] at step hw
        exact Option.some.inj hw ▸ step
  | finish report =>
    simp only [step?] at h
    cases hr : w.runs with
    | nil => simp [hr] at h
    | cons r post =>
      simp only [hr] at h
      obtain ⟨⟨hs, hid, he⟩, h⟩ := Option.ite_none_right_eq_some.mp h
      exact Option.some.inj h ▸ @Step.finish params w [] post r report hs hr hid he
  | prepared answer =>
    simp only [step?] at h
    cases hp : w.prepares with
    | nil => simp [hp] at h
    | cons turn post =>
      simp only [hp] at h
      obtain ⟨hs, h⟩ := Option.ite_none_right_eq_some.mp h
      exact Option.some.inj h ▸ @Step.prepared params w [] post turn _ hs hp
  | handle env =>
    simp only [step?] at h
    cases hm : w.mailbox with
    | nil => simp [hm] at h
    | cons mail rest =>
      simp only [hm] at h
      obtain ⟨hs, h⟩ := Option.ite_none_right_eq_some.mp h
      exact Option.some.inj h ▸ .handle hs hm
  | die env =>
    simp only [step?] at h
    cases hm : w.mailbox with
    | nil => simp [hm] at h
    | cons mail rest =>
      simp only [hm] at h
      obtain ⟨hs, h⟩ := Option.ite_none_right_eq_some.mp h
      exact Option.some.inj h ▸ .die hs hm

/-- The world a list of steps leads to, where each can be taken and meets `ok`. -/
def stepsIf? (params : AgentParams) (ok : World → Label → Bool) (w : World) :
    List Label → Option World
  | [] => some w
  | l :: ls => if ok w l then (w.step? params l).bind (stepsIf? params ok · ls) else none

def steps? (params : AgentParams) (w : World) (ls : List Label) : Option World :=
  w.stepsIf? params (fun _ _ => true) ls

end World

def agentSystem (params : AgentParams) : Lib.System World Label where
  Init w := w = World.boot
  Step := World.Step params

variable {ls : List Label} {params : AgentParams}

theorem exec_stepsIf? {ok : World → Label → Bool} {w w' : World}
    (h : w.stepsIf? params ok ls = some w') :
    ∃ tr, (agentSystem params).Exec w tr w' ∧ tr.map (·.2.1) = ls ∧
      ∀ x ∈ tr, ok x.1 x.2.1 = true := by
  induction ls generalizing w with
  | nil =>
    cases h
    exact ⟨[], .nil, rfl, fun x hx => absurd hx List.not_mem_nil⟩
  | cons l ls ih =>
    obtain ⟨hok, h⟩ := Option.ite_none_right_eq_some.mp h
    obtain ⟨v, hv, h⟩ := Option.bind_eq_some_iff.mp h
    obtain ⟨tr, hexec, hmap, hall⟩ := ih h
    exact ⟨_, (Lib.System.Exec.single (World.step?_sound hv)).trans hexec, by simp [hmap],
      List.forall_mem_cons.mpr ⟨hok, hall⟩⟩

theorem exec_steps? {w w' : World}
    (h : w.steps? params ls = some w') :
    ∃ tr, (agentSystem params).Exec w tr w' ∧ tr.map (·.2.1) = ls := by
  obtain ⟨tr, hexec, hmap, -⟩ := exec_stepsIf? h
  exact ⟨tr, hexec, hmap⟩

theorem reachable_boot : (agentSystem params).Reachable World.boot :=
  .init rfl

theorem reachable_steps?
    (h : (World.boot.steps? params ls).isSome) :
    (agentSystem params).Reachable ((World.boot.steps? params ls).get h) := by
  obtain ⟨tr, hexec, -⟩ := exec_steps? (Option.some_get h).symm
  exact hexec.reachable reachable_boot

end Horsie.Agent
