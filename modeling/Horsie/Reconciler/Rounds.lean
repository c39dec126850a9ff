import Horsie.Lib.Transition

/-!
# Reconcilers of a runtime

Each slot has a map of its own of the calls in flight, a transport of its own with its waiters, and
a task that asks the runtime in rounds what it executes. Any number of slots, of one node or of
several, use one runtime. A call the runtime reports and the slot does not track is cancelled; a
call the slot tracks and the runtime does not report is given up after a grace; a ping that fails
ends all calls that were tracked when it was sent.

Time is in seconds. The model numbers the calls and the slots, the code does not. Replies stay where
every slot can take them, so that they may also be late, be taken twice or be lost.
-/

namespace Horsie.Reconciler

open Horsie.Lib

/-- How often an active runtime is asked. -/
def pingInterval : ℕ := 10

/-- How long an id the runtime no longer reports is given. -/
def vanishedGrace : ℕ := 30

/-- Where the caller of a call stands: it is tracked, its waiter is registered, its request is
published, and it is untracked or the caller is gone. -/
inductive Stage
  | tracked
  | registered
  | published
  | over
deriving DecidableEq

structure Call where
  slot : ℕ
  callId : String
  stage : Stage
  /-- The sending end of its channel was used or is gone. -/
  resolved : Bool
deriving DecidableEq

def Call.open (c : Call) : Bool := decide (c.stage ≠ .over)

def Call.waits (c : Call) : Bool := c.open && !c.resolved

/-- The request is not published. -/
def Call.unsent (c : Call) : Bool := decide (c.stage = .tracked ∨ c.stage = .registered)

def Call.resolve (c : Call) : Call := { c with resolved := true }

inductive Inbound
  | request (callId : String) (call : ℕ)
  | cancel (callId : String)
deriving DecidableEq

/-- A task of the runtime, up to the removal of its handle. -/
structure Task where
  callId : String
  call : ℕ
  replied : Bool
deriving DecidableEq

/-- What the runtime reports to a ping, and how many tasks it had registered by then. -/
structure Pong where
  asker : ℕ
  probe : ℕ
  executing : List String
  arrivals : ℕ
deriving DecidableEq

/-- What was outstanding when a ping was sent. -/
structure Asked where
  outstanding : List String
  calls : List ℕ
deriving DecidableEq

/-- Where a reconciler stands in its loop. -/
inductive Phase
  | sleeping (since : ℕ)
  | pinging (asked : Asked)
  | cancelling (asked : Asked) (pong : Pong) (todo : List String)
  | judging (asked : Asked) (pong : Pong) (now : ℕ) (todo : List String)
  | failing (asked : Asked) (todo : List String)
  | stopped
deriving DecidableEq

structure Slot where
  /-- The keys of `InFlight`. -/
  inFlight : List String
  pending : String → Option ℕ
  phase : Phase
  vanished : String → Option ℕ
  probe : ℕ
  judgedAt : ℕ

/-- A call that was given up, or whose task was aborted: whether it was executed and waited for, and
what was outstanding if it was for a ping that failed. -/
structure Struck where
  call : ℕ
  executing : Bool
  waiting : Bool
  failed : Option (List ℕ)
deriving DecidableEq

structure World where
  clock : ℕ
  calls : List Call
  slots : ℕ → Slot
  inbound : List Inbound
  pings : List (ℕ × ℕ)
  pongs : List Pong
  spawned : Option (String × ℕ)
  tasks : List Task
  handles : List (String × ℕ)
  arrivals : List String
  replies : List String
  /-- The rounds that each call was outstanding in since the runtime executed it. -/
  rounds : ℕ → ℕ
  struck : List Struck
  failures : List (List ℕ)

namespace World

def init : World where
  clock := 0
  calls := []
  slots _ := ⟨[], fun _ => none, .sleeping 0, fun _ => none, 0, 0⟩
  inbound := []
  pings := []
  pongs := []
  spawned := none
  tasks := []
  handles := []
  arrivals := []
  replies := []
  rounds _ := 0
  struck := []
  failures := []

def executes (w : World) (i : ℕ) : Bool := w.tasks.any fun task => decide (task.call = i)

def waits (w : World) (i : ℕ) : Bool := (w.calls[i]?).any Call.waits

/-! ## Operations -/

def setSlot (w : World) (s : ℕ) (slot : Slot) : World :=
  { w with slots := Function.update w.slots s slot }

def setPhase (w : World) (s : ℕ) (phase : Phase) : World :=
  w.setSlot s { w.slots s with phase }

def setVanished (w : World) (s : ℕ) (callId : String) (since : Option ℕ) : World :=
  w.setSlot s { w.slots s with vanished := Function.update (w.slots s).vanished callId since }

def setStage (w : World) (i : ℕ) (stage : Stage) : World :=
  { w with calls := w.calls.modify i ({ · with stage }) }

/-- The waiter of an id is taken out of its table, and its caller is woken. -/
def resolve (w : World) (s : ℕ) (callId : String) : World :=
  { w.setSlot s
      { w.slots s with pending := Function.update (w.slots s).pending callId none } with
    calls := ((w.slots s).pending callId).elim w.calls fun i => w.calls.modify i Call.resolve }

/-- A waiter is put into its table. -/
def setPending (w : World) (s : ℕ) (callId : String) (i : ℕ) : World :=
  w.setSlot s
    { w.slots s with pending := Function.update (w.slots s).pending callId (some i) }

/-- `RuntimeTransport::abandon`. -/
def abandon (w : World) (s : ℕ) (callId : String) (failed : Option (List ℕ)) : World :=
  { w.resolve s callId with
    struck := w.struck ++ ((w.slots s).pending callId).toList.map fun i =>
      ⟨i, w.executes i, w.waits i, failed⟩ }

/-- `CancelCall`: the task of the id's handle is aborted. -/
def abort (w : World) (callId : String) : World :=
  { w with
    tasks := w.tasks.filter fun task => decide ((callId, task.call) ∉ w.handles)
    handles := w.handles.filter fun x => decide (x.1 ≠ callId)
    replies := w.replies ++ [callId]
    struck := w.struck ++ (w.tasks.filter fun task => decide ((callId, task.call) ∈ w.handles)).map
      fun task => ⟨task.call, true, w.waits task.call, none⟩ }

/-- The calls whose ids are in flight. -/
def outstanding (w : World) (s : ℕ) : List ℕ :=
  (List.range w.calls.length).filter fun i =>
    (w.calls[i]?).any fun c => decide (c.slot = s ∧ c.callId ∈ (w.slots s).inFlight)

/-! ## Steps -/

inductive Label
  /-- `track`, for a new call of a slot. -/
  | request (s : ℕ) (callId : String)
  | register (i : ℕ)
  | publish (i : ℕ) (sent : Bool)
  | untrack (i : ℕ)
  | drop (i : ℕ)
  /-- The runtime takes a message; `refuse` is for a request of an agent it was not given. -/
  | receive (k : ℕ) (refuse : Bool)
  | loseInbound (k : ℕ)
  /-- The runtime's loop registers the task it spawned. -/
  | insertHandle
  | reply (k : ℕ)
  | finish (k : ℕ)
  | deliver (s k : ℕ)
  | elapse (seconds : ℕ)
  | ping (s : ℕ)
  | pong (k : ℕ)
  | accept (s k : ℕ)
  /-- The reconciler comes to the next id that was reported. -/
  | cancel (s : ℕ)
  | judge (s : ℕ)
  | fail (s : ℕ)
  /-- The reconciler comes to the next id that was outstanding, after a ping that failed. -/
  | giveUp (s : ℕ)
  /-- `RuntimeManager::forget`, which stops the reconciler. -/
  | forget (s : ℕ)
deriving DecidableEq

/-- The runtime takes a message. -/
def receive (w : World) (refuse : Bool) : Inbound → World
  | .request callId i =>
    if refuse then { w with replies := w.replies ++ [callId] }
    else
      { w with
        tasks := w.tasks ++ [⟨callId, i, false⟩]
        spawned := some (callId, i)
        rounds := Function.update w.rounds i 0 }
  | .cancel callId => w.abort callId

def endRound (w : World) (s : ℕ) (asked : Asked) (now : ℕ) : World :=
  { w.setSlot s
      { w.slots s with
        phase := .sleeping w.clock
        vanished := fun callId =>
          if callId ∈ (w.slots s).inFlight then (w.slots s).vanished callId else none
        judgedAt := now } with
    rounds := fun i =>
      if i ∈ asked.calls then (if w.executes i then 0 else w.rounds i + 1) else w.rounds i }

def judgeOne (w : World) (s : ℕ) (pong : Pong) (now : ℕ) (callId : String) : World :=
  if callId ∈ pong.executing then w.setVanished s callId none
  else
    match (w.slots s).vanished callId with
    | none => w.setVanished s callId (some now)
    | some since =>
      if vanishedGrace ≤ now - since then (w.abandon s callId none).setVanished s callId none
      else w

def step? (w : World) : Label → Option World
  | .request s callId =>
    some
      { w.setSlot s
          { w.slots s with
            inFlight :=
              if callId ∈ (w.slots s).inFlight then (w.slots s).inFlight
              else (w.slots s).inFlight ++ [callId] } with
        calls := w.calls ++ [⟨s, callId, .tracked, false⟩] }
  | .register i =>
    match w.calls[i]? with
    | some ⟨s, callId, .tracked, _⟩ =>
      some (((w.resolve s callId).setStage i .registered).setPending s callId i)
    | _ => none
  | .publish i sent =>
    match w.calls[i]? with
    | some ⟨s, callId, .registered, _⟩ =>
      if sent then
        some { w.setStage i .published with inbound := w.inbound ++ [.request callId i] }
      else
        some
          { (w.resolve s callId).setStage i .published with
            calls := (((w.resolve s callId).setStage i .published).calls).modify i Call.resolve }
    | _ => none
  | .untrack i =>
    match w.calls[i]? with
    | some ⟨s, callId, .published, true⟩ =>
      some
        ((w.setStage i .over).setSlot s
          { w.slots s with
            inFlight := (w.slots s).inFlight.filter fun x => decide (x ≠ callId) })
    | _ => none
  | .drop i =>
    if (w.calls[i]?).any Call.open then some (w.setStage i .over) else none
  | .receive k refuse =>
    match w.inbound[k]? with
    | some message =>
      if w.spawned = none then
        some ({ w with inbound := w.inbound.eraseIdx k }.receive refuse message)
      else none
    | none => none
  | .loseInbound k =>
    if k < w.inbound.length then some { w with inbound := w.inbound.eraseIdx k } else none
  | .insertHandle =>
    match w.spawned with
    | some (callId, i) =>
      some
        { w with
          spawned := none
          handles := (w.handles.filter fun x => decide (x.1 ≠ callId)) ++ [(callId, i)]
          arrivals := w.arrivals ++ [callId] }
    | none => none
  | .reply k =>
    match w.tasks[k]? with
    | some ⟨callId, i, false⟩ =>
      some
        { w with
          tasks := w.tasks.set k ⟨callId, i, true⟩
          replies := w.replies ++ [callId] }
    | _ => none
  | .finish k =>
    match w.tasks[k]? with
    | some ⟨callId, _, true⟩ =>
      some
        { w with
          tasks := w.tasks.eraseIdx k
          handles := w.handles.filter fun x => decide (x.1 ≠ callId) }
    | _ => none
  | .deliver s k =>
    match w.replies[k]? with
    | some callId => some (w.resolve s callId)
    | none => none
  | .elapse seconds => some { w with clock := w.clock + seconds }
  | .ping s =>
    match w.slots s with
    | ⟨inFlight, pending, .sleeping since, vanished, probe, judgedAt⟩ =>
      if since + pingInterval ≤ w.clock then
        if inFlight = [] then
          some (w.setSlot s ⟨inFlight, pending, .sleeping w.clock, fun _ => none, probe, judgedAt⟩)
        else
          some
            { w.setSlot s
                ⟨inFlight, pending, .pinging ⟨inFlight, w.outstanding s⟩, vanished, probe + 1,
                  judgedAt⟩ with
              pings := w.pings ++ [(s, probe + 1)] }
      else none
    | _ => none
  | .pong k =>
    match w.pings[k]? with
    | some (s, probe) =>
      some
        { w with
          pings := w.pings.eraseIdx k
          pongs := w.pongs ++ [⟨s, probe, w.handles.map Prod.fst, w.arrivals.length⟩] }
    | none => none
  | .accept s k =>
    match w.pongs[k]?, (w.slots s).phase with
    | some pong, .pinging asked =>
      -- every slot numbers its pings alike
      if pong.probe = (w.slots s).probe then
        some (w.setPhase s (.cancelling asked pong pong.executing))
      else none
    | _, _ => none
  | .cancel s =>
    match (w.slots s).phase with
    | .cancelling asked pong (callId :: todo) =>
      some
        { w.setPhase s (.cancelling asked pong todo) with
          inbound :=
            if callId ∈ (w.slots s).inFlight then w.inbound else w.inbound ++ [.cancel callId] }
    | .cancelling asked pong [] =>
      some (w.setPhase s (.judging asked pong w.clock asked.outstanding))
    | _ => none
  | .judge s =>
    match (w.slots s).phase with
    | .judging asked pong now (callId :: todo) =>
      some ((w.judgeOne s pong now callId).setPhase s (.judging asked pong now todo))
    | .judging asked _ now [] => some (w.endRound s asked now)
    | _ => none
  | .fail s =>
    match (w.slots s).phase with
    | .pinging asked => some (w.setPhase s (.failing asked asked.outstanding))
    | _ => none
  | .giveUp s =>
    match (w.slots s).phase with
    | .failing asked (callId :: todo) =>
      some ((w.abandon s callId (some asked.calls)).setPhase s (.failing asked todo))
    | .failing asked [] =>
      some
        { w.setSlot s
            { w.slots s with phase := .sleeping w.clock, vanished := fun _ => none } with
          failures := w.failures ++ [asked.calls] }
    | _ => none
  | .forget s => some (w.setPhase s .stopped)

inductive Stepped (w : World) : Label → World → Prop
  | request (s : ℕ) (callId : String) : Stepped w (.request s callId)
      { w.setSlot s
          { w.slots s with
            inFlight :=
              if callId ∈ (w.slots s).inFlight then (w.slots s).inFlight
              else (w.slots s).inFlight ++ [callId] } with
        calls := w.calls ++ [⟨s, callId, .tracked, false⟩] }
  | register {i s callId resolved} (hi : w.calls[i]? = some ⟨s, callId, .tracked, resolved⟩) :
      Stepped w (.register i) (((w.resolve s callId).setStage i .registered).setPending s callId i)
  | publish {i s callId resolved} (hi : w.calls[i]? = some ⟨s, callId, .registered, resolved⟩) :
      Stepped w (.publish i true)
        { w.setStage i .published with inbound := w.inbound ++ [.request callId i] }
  | publishFailed {i s callId resolved}
      (hi : w.calls[i]? = some ⟨s, callId, .registered, resolved⟩) :
      Stepped w (.publish i false)
        { (w.resolve s callId).setStage i .published with
          calls := (((w.resolve s callId).setStage i .published).calls).modify i Call.resolve }
  | untrack {i s callId} (hi : w.calls[i]? = some ⟨s, callId, .published, true⟩) :
      Stepped w (.untrack i)
        ((w.setStage i .over).setSlot s
          { w.slots s with inFlight := (w.slots s).inFlight.filter fun x => decide (x ≠ callId) })
  | drop {i} (hopen : (w.calls[i]?).any Call.open = true) :
      Stepped w (.drop i) (w.setStage i .over)
  | refuse {k callId i} (hk : w.inbound[k]? = some (.request callId i)) :
      Stepped w (.receive k true)
        { w with inbound := w.inbound.eraseIdx k, replies := w.replies ++ [callId] }
  | spawn {k callId i} (hk : w.inbound[k]? = some (.request callId i)) (hnone : w.spawned = none) :
      Stepped w (.receive k false)
        { w with
          inbound := w.inbound.eraseIdx k
          tasks := w.tasks ++ [⟨callId, i, false⟩]
          spawned := some (callId, i)
          rounds := Function.update w.rounds i 0 }
  | abort {k refuse callId} (hk : w.inbound[k]? = some (.cancel callId))
      (hnone : w.spawned = none) : Stepped w (.receive k refuse)
        (World.abort { w with inbound := w.inbound.eraseIdx k } callId)
  | loseInbound (k : ℕ) : Stepped w (.loseInbound k) { w with inbound := w.inbound.eraseIdx k }
  | insertHandle {callId i} (hspawned : w.spawned = some (callId, i)) :
      Stepped w .insertHandle
        { w with
          spawned := none
          handles := (w.handles.filter fun x => decide (x.1 ≠ callId)) ++ [(callId, i)]
          arrivals := w.arrivals ++ [callId] }
  | reply {k callId i} (hk : w.tasks[k]? = some ⟨callId, i, false⟩) :
      Stepped w (.reply k)
        { w with tasks := w.tasks.set k ⟨callId, i, true⟩, replies := w.replies ++ [callId] }
  | finish {k callId i} (hk : w.tasks[k]? = some ⟨callId, i, true⟩) :
      Stepped w (.finish k)
        { w with
          tasks := w.tasks.eraseIdx k
          handles := w.handles.filter fun x => decide (x.1 ≠ callId) }
  | deliver (s k : ℕ) (callId : String) : Stepped w (.deliver s k) (w.resolve s callId)
  | elapse (seconds : ℕ) : Stepped w (.elapse seconds) { w with clock := w.clock + seconds }
  | idle {s since} (hphase : (w.slots s).phase = .sleeping since)
      (hwake : since + pingInterval ≤ w.clock) (hempty : (w.slots s).inFlight = []) :
      Stepped w (.ping s) (w.setSlot s
        { w.slots s with phase := .sleeping w.clock, vanished := fun _ => none })
  | ping {s since} (hphase : (w.slots s).phase = .sleeping since)
      (hwake : since + pingInterval ≤ w.clock) : Stepped w (.ping s)
        { w.setSlot s
            { w.slots s with
              phase := .pinging ⟨(w.slots s).inFlight, w.outstanding s⟩
              probe := (w.slots s).probe + 1 } with
          pings := w.pings ++ [(s, (w.slots s).probe + 1)] }
  | pong {k s probe} (hk : w.pings[k]? = some (s, probe)) : Stepped w (.pong k)
      { w with
        pings := w.pings.eraseIdx k
        pongs := w.pongs ++ [⟨s, probe, w.handles.map Prod.fst, w.arrivals.length⟩] }
  | accept {s k pong asked} (hk : w.pongs[k]? = some pong)
      (hphase : (w.slots s).phase = .pinging asked) (hprobe : pong.probe = (w.slots s).probe) :
      Stepped w (.accept s k) (w.setPhase s (.cancelling asked pong pong.executing))
  | cancel {s asked pong callId todo}
      (hphase : (w.slots s).phase = .cancelling asked pong (callId :: todo)) :
      Stepped w (.cancel s)
        { w.setPhase s (.cancelling asked pong todo) with
          inbound :=
            if callId ∈ (w.slots s).inFlight then w.inbound else w.inbound ++ [.cancel callId] }
  | cancelled {s asked pong} (hphase : (w.slots s).phase = .cancelling asked pong []) :
      Stepped w (.cancel s) (w.setPhase s (.judging asked pong w.clock asked.outstanding))
  | judge {s asked pong now callId todo}
      (hphase : (w.slots s).phase = .judging asked pong now (callId :: todo)) :
      Stepped w (.judge s)
        ((w.judgeOne s pong now callId).setPhase s (.judging asked pong now todo))
  | endRound {s asked pong now} (hphase : (w.slots s).phase = .judging asked pong now []) :
      Stepped w (.judge s) (w.endRound s asked now)
  | fail {s asked} (hphase : (w.slots s).phase = .pinging asked) :
      Stepped w (.fail s) (w.setPhase s (.failing asked asked.outstanding))
  | giveUp {s asked callId todo} (hphase : (w.slots s).phase = .failing asked (callId :: todo)) :
      Stepped w (.giveUp s)
        ((w.abandon s callId (some asked.calls)).setPhase s (.failing asked todo))
  | gaveUp {s asked} (hphase : (w.slots s).phase = .failing asked []) : Stepped w (.giveUp s)
      { w.setSlot s
          { w.slots s with phase := .sleeping w.clock, vanished := fun _ => none } with
        failures := w.failures ++ [asked.calls] }
  | forget (s : ℕ) : Stepped w (.forget s) (w.setPhase s .stopped)

theorem Stepped.of_step? {w w' : World} {l : Label} (hs : w.step? l = some w') :
    w.Stepped l w' := by
  cases l with
  | ping s =>
    dsimp only [step?] at hs
    split at hs
    · rename_i hslot
      obtain ⟨hwake, hs⟩ := Option.ite_none_right_eq_some.mp hs
      have hphase := congrArg Slot.phase hslot
      have hin := congrArg Slot.inFlight hslot
      split_ifs at hs with hempty
      · cases hs
        have hidle := Stepped.idle hphase hwake (hin.trans hempty)
        rwa [hslot] at hidle
      · cases hs
        have hping := Stepped.ping hphase hwake
        rwa [hslot] at hping
    · cases hs
  | receive k refuse =>
    dsimp only [step?] at hs
    split at hs
    · rename_i message hk
      split_ifs at hs with hnone
      cases hs
      cases message with
      | request callId i =>
        cases refuse with
        | true => exact .refuse hk
        | false => exact .spawn hk hnone
      | cancel callId => exact .abort hk hnone
    · cases hs
  | request s callId => exact Option.some.inj hs ▸ .request s callId
  | publish i sent =>
    cases sent <;>
    · dsimp only [step?] at hs
      split at hs
      · rename_i hi
        cases hs
        first | exact .publish hi | exact .publishFailed hi
      · cases hs
  | cancel s =>
    dsimp only [step?] at hs
    split at hs
    · rename_i hphase
      exact Option.some.inj hs ▸ .cancel hphase
    · rename_i hphase
      exact Option.some.inj hs ▸ .cancelled hphase
    · cases hs
  | _ =>
    dsimp only [step?] at hs
    repeat' split at hs
    all_goals cases hs
    all_goals constructor
    all_goals assumption

end World

def reconciliation : System World World.Label := .ofStep? .init World.step?

namespace World

/-! ## The property and its condition -/

/-- How many rounds a call may be outstanding in that the runtime does not execute. -/
def maxRounds : ℕ := 4

structure Safe (w : World) : Prop where
  spared : ∀ e ∈ w.struck, e.failed = none → ¬ (e.executing = true ∧ e.waiting = true)
  /-- A call that is not executed is given up in time. -/
  bounded : ∀ i, w.waits i = true → w.rounds i ≤ maxRounds
  attended : ∀ (i : ℕ) (c : Call), w.calls[i]? = some c → c.waits = true →
    (w.slots c.slot).phase ≠ .stopped
  ended : ∀ asked ∈ w.failures, ∀ i ∈ asked, w.waits i = false
  others : ∀ e ∈ w.struck, ∀ asked, e.failed = some asked → e.call ∈ asked

def awaited (w : World) (callId : String) : Bool :=
  w.calls.all fun c => decide (c.callId ≠ callId ∨ c.stage ≠ .tracked)

/-- Each call has an id of its own and a reconciler; no task ends before it is registered; a pong
answers the reconciler's own ping; a call that is reported is not another slot's; what is given up
is registered, and did not reach the runtime after the pong; and no slot is forgotten that has calls
outstanding. -/
def careful (w : World) : Label → Bool
  | .request s callId =>
    w.calls.all (fun c => decide (c.callId ≠ callId)) && decide ((w.slots s).phase ≠ .stopped)
  | .finish k => !(w.tasks[k]?).any fun task => decide (w.spawned = some (task.callId, task.call))
  | .accept s k => (w.pongs[k]?).all fun pong => decide (pong.asker = s)
  | .cancel s =>
    match (w.slots s).phase with
    | .cancelling _ _ (callId :: _) =>
      w.calls.all fun c => decide (c.callId ≠ callId ∨ c.slot = s) || !c.open
    | _ => true
  | .judge s =>
    match (w.slots s).phase with
    | .judging _ pong now (callId :: _) =>
      decide (callId ∈ pong.executing) || ((w.slots s).vanished callId).all fun since =>
        decide (now - since < vanishedGrace) ||
          w.awaited callId && decide (callId ∉ w.arrivals.drop pong.arrivals) &&
            (w.spawned.all fun x => decide (x.1 ≠ callId))
    | _ => true
  | .giveUp s =>
    match (w.slots s).phase with
    | .failing _ (callId :: _) => w.awaited callId
    | _ => true
  | .forget s => w.calls.all fun c => decide (c.slot ≠ s) || !c.open
  | _ => true

end World

end Horsie.Reconciler
