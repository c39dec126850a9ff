import Horsie.Session.Command
import Horsie.Session.Title

/-!
# The session actor

What handling each command does, as a function of the state the session journaled. A turn boundary
ends in `flushThenDrain`: deliveries that are owed and decisions of the drivers are carried out,
each on the state the one before it left, until nothing is decided any more.
-/

namespace Horsie.Session

open Lib
open Agent (Value Incoming AgentOutcome AskAnswer ArtifactRef TurnOutcome)

namespace SessionState

variable (s : SessionState) (env : Env)

/-! ## Boundaries -/

/-- A title from what a person first said, if the supervisor takes it. -/
def titleFrom (text : String) : List SessionDomainEvent :=
  if s.forest.mainTitle.isSome || !env.renames then []
  else ((deriveTitle text).map .renamed).toList

def stepMessageId (index attempt : ℕ) : String :=
  "step:" ++ toString index ++ ":" ++ toString attempt

/-- One execution of one step begins: its agent is started and handed the input, and then the
execution is journaled. -/
def startStep (st : StepStart) : Effect :=
  match (s.forest.workflow st.run).bind (·.graph.step st.step), env.spawns st.agent with
  | some _, true =>
    if env.tells st.agent then
      { events :=
          [.stepStarted st.run st.index st.step st.agent st.attempt st.origin st.via st.input]
        sent :=
          [.spawn st.agent (some st.run),
            .tell st.agent
              (.queue (.enqueue (.user (stepMessageId st.index st.attempt) st.input []) false))] }
    else
      { events := [.runFailed st.run ("step '" ++ st.step ++ "' could not be started")]
        sent := [.spawn st.agent (some st.run)] }
  | some _, false | none, _ =>
    .persist [.runFailed st.run ("step '" ++ st.step ++ "' is no longer in this workflow")]

/-- A finished child's result is put in the queue of the agent that is owed it. -/
def deliver (d : Delivery) : Effect :=
  let agent := d.recipient.agentId env.id
  if env.spawns agent && env.tells agent then
    { events :=
        [match (s.forest.entry d.child).map RunEntry.state with
          | some (.workflow _) => .runNotified d.child
          | some (.sub _) | some (.main _) | some (.subSession _) | none =>
            .subAgentNotified d.child]
      sent :=
        [.spawn agent none, .tell agent (.queue (.enqueue (.subAgent d.child d.part) false))] }
  else {}

def perform : AgentAction → Effect
  | .deliver d => s.deliver env d
  | .startStep st => s.startStep env st
  | .finish run output => .persist [.runFinished run output]
  | .fail run error => .persist [.runFailed run error]

def performAll : SessionState → List AgentAction → Effect
  | _, [] => {}
  | s, a :: as =>
    let e := s.perform env a
    e.andThen (performAll (s.applyAll e.events) as)

/-- As many rounds, as long as something comes of them. -/
def flushRounds : ℕ → SessionState → Effect
  | 0, _ => {}
  | rounds + 1, s =>
    let e := performAll env s (s.nextActions env)
    if e.events.isEmpty then e else e.andThen (flushRounds rounds (s.applyAll e.events))

def flushThenDrain : Effect := flushRounds env 8 s

/-- Journal `events`, having let the boundary they make start what it can. -/
def persistAndAdvance (events : List SessionDomainEvent) : Effect :=
  (Effect.persist events).andThen ((s.applyAll events).flushThenDrain env)

/-! ## Stopping -/

def cancelDescendants (agent : String) : Effect :=
  (s.forest.descendantEntries agent).foldl (fun e id => e.andThen (cancelEntry id)) {}
where
  cancelEntry (id : String) : Effect :=
    match (s.forest.entry id).map RunEntry.state with
    | some (.sub sub) =>
      if sub.status = .running then
        { events := [.subAgentFailed id stoppedError], sent := [.cancel id] }
      else {}
    | some (.workflow w) =>
      if w.run.status.isTerminal then {}
      else
        { events :=
            (w.run.current.toList.map fun index => .stepCancelled id index) ++
              [.runFailed id stoppedError]
          sent := (w.run.currentAgent.toList.map .cancel) }
    | some (.main _) | some (.subSession _) | none => {}

/-- Which agent a stop names, on a workflow session the step in flight. -/
def stopTarget (agent : String) : Option AgentKey :=
  if agent = "main" then
    match s.forest.currentRootStepAgent with
    | some step => some (.step step)
    | none => some .main
  else s.agentKeyOf agent

def stopBoundary : AgentKey → Option SessionDomainEvent
  | .main =>
    s.forest.root.bind fun root =>
      if s.forest.mainTurn = some .running then some (.turnStopped root) else none
  | .step id =>
    (s.forest.executionOfAgent id).bind fun (run, index) =>
      (s.forest.workflow run).bind fun w =>
        if w.run.current = some index then some (.stepCancelled run index) else none
  | .subSession id =>
    (s.forest.subSession id).bind fun r =>
      if r.status = .running then some (.subSessionTurnEnded id .stopped) else none
  | .sub id =>
    (s.forest.sub id).bind fun r =>
      if r.status = .running then some (.subAgentFailed id stoppedError) else none

def onStop (agent : String) : Effect :=
  match s.stopTarget agent with
  | none => .answer (.refused ("no such agent: " ++ agent))
  | some key =>
    match s.stopBoundary key with
    | none => .answer .done
    | some stopped =>
      let below : Effect :=
        match key with
        | .sub id | .step id => s.cancelDescendants id
        | .main | .subSession _ => {}
      let boundary := s.persistAndAdvance env (below.events ++ [stopped])
      { boundary with
        sent := [.cancel (key.agentId env.id)] ++ below.sent ++ boundary.sent
        reply := some .done }

/-! ## Reports -/

def onMainOutcome : TurnEnd → Effect
  | .concluded _ => s.persistAndAdvance env [.turnEnded env.id]
  | .asked => s.persistAndAdvance env [.askRecorded env.id]
  | .interrupted =>
    -- a report about anything but a live turn is history
    if s.forest.mainTurn = some .running then s.persistAndAdvance env [.turnInterrupted env.id]
    else {}
  | .failed error terminal =>
    s.persistAndAdvance env [if terminal then .sessionFailed error else .turnFailed env.id error]
  | .parked =>
    s.persistAndAdvance env
      [.turnFailed env.id "agent parked; timers are not supported in sessions"]

/-- A step's report, whatever its execution has become meanwhile. -/
def onStepOutcome (run : String) (index : ℕ) (agent : String) : TurnEnd → Effect
  | .concluded output => s.persistAndAdvance env [.stepConcluded run index output]
  | .asked => .persist [.askRecorded agent]
  | .failed error _ => s.persistAndAdvance env [.stepFailed run index error]
  | .parked | .interrupted => {}

def onSubSessionOutcome (id : String) : TurnEnd → Effect
  | .concluded _ => s.persistAndAdvance env [.subSessionTurnEnded id .ended]
  | .asked => s.persistAndAdvance env [.subSessionStatusChanged id .awaitingInput]
  | .failed error terminal =>
    s.persistAndAdvance env
      [if terminal then .sessionFailed error else .subSessionTurnEnded id (.failed error)]
  | .parked =>
    s.persistAndAdvance env
      [.subSessionTurnEnded id (.failed "agent parked; timers are not supported in sessions")]
  | .interrupted =>
    if (s.forest.subSession id).any (·.status = .running) then
      s.persistAndAdvance env [.subSessionTurnEnded id .interrupted]
    else {}

def onSubAgentOutcome (id : String) (turn : TurnEnd) : Effect :=
  if (s.forest.sub id).isNone then {}
  else
    match turn with
    | .concluded output =>
      s.persistAndAdvance env [.subAgentCompleted id (output.asStr.getD output.toText)]
    | .failed error _ => s.persistAndAdvance env [.subAgentFailed id error]
    | .asked =>
      s.persistAndAdvance env [.subAgentFailed id "subagent asked the user; not supported"]
    -- the node stays running until what it waits for wakes it
    | .parked => s.persistAndAdvance env []
    | .interrupted => {}

def onAgentStarted (agent : String) : Effect :=
  match s.agentKeyOf agent with
  | some .main => .persist [.turnBegan agent]
  | some (.sub _) => .persist [.subAgentRunning agent]
  | some (.subSession _) => .persist [.subSessionStatusChanged agent .running]
  | some (.step _) | none => {}

def onTurnEnd (agent : String) (turn : TurnEnd) : Effect :=
  match s.agentKeyOf agent with
  | some .main => s.onMainOutcome env turn
  | some (.step _) =>
    match s.forest.executionOfAgent agent with
    | some (run, index) => s.onStepOutcome env run index agent turn
    | none => {}
  | some (.subSession _) => s.onSubSessionOutcome env agent turn
  | some (.sub _) => s.onSubAgentOutcome env agent turn
  | none => {}

/-! ## Sub sessions -/

/-- The task that seeds a sub session, if there is anything to seed it between. -/
def seedWith (id : String) (seed : Seed) : List Sent :=
  match (s.forest.ownerOfAgent id).bind (·.2.parent), s.forest.subSession id with
  | some parent, some r =>
    if env.spawns parent && env.resident id then
      [.spawn parent none,
        .seed ⟨id, parent, seed, r.sourceSeq, .user ("sub_session-message:" ++ id) r.message []⟩]
    else []
  | some _, none | none, _ => []

/-- A copy and an empty history are handed over at once; a summary is a turn of the source. -/
def startSeeding (id : String) : List Sent :=
  match (s.forest.ownerOfAgent id).bind (·.2.parent), s.forest.subSession id with
  | some parent, some r =>
    match r.seed with
    | .copy => s.seedWith env id .copy
    | .fresh => s.seedWith env id .fresh
    | .summary =>
      if env.spawns parent then
        [.spawn parent none,
          .laterTell parent
            (.queue (.enqueue (.subSession ("sub_session-summarise:" ++ id) id) false))]
      else []
  | some _, none | none, _ => []

/-- What every sub session must be true of, and why it is not. -/
def branchable (main parent message : String) : Option String :=
  if isBlank message then some "a sub session needs a message saying what it should do"
  else if s.forest.rootIsWorkflow then some "a workflow run cannot be branched"
  else if parent ≠ main && (s.forest.subSession parent).isNone then
    some "only a session can be branched"
  else none

/-- Where a sub session that asked for this runs. -/
def requestedChoice : RequestedRuntime → RuntimeChoice
  | .own _ => .pending
  | .without => .without
  | .inherit => .inherit

def handleSubSession : SubSessionCommand → Effect
  | .create parent seed message title choice =>
    match s.branchable env.id parent message, env.logHead parent with
    | some why, _ => .answer (.refused why)
    | none, none => .answer (.refused "the session to branch is not available")
    | none, some sourceSeq =>
      { events :=
          [.subSessionCreated env.fresh parent sourceSeq seed message title
            (requestedChoice choice)]
        sent := [.later (.subSession (.finishCreate env.fresh choice true)) true] }
  | .finishCreate id choice persisted =>
    if !persisted then .answer (.refused "persist the sub session")
    else if !env.spawns id then .answer (.refused "could not start the sub session")
    else
      { sent :=
          [.spawn id none] ++
            (match choice with
              | .own vendor => [.self (.lifecycle (.provision id (some vendor)))]
              | .without | .inherit => []) ++
            s.startSeeding env id
        reply := some (.id id) }
  | .summarised subSessions result =>
    .send ((subSessions.filter fun id => (s.forest.subSession id).isSome).flatMap fun id =>
      match result with
      | .ok summary => s.seedWith env id (.summary summary)
      | .error error => [.self (.subSession (.seedFailed id error))])
  | .seeded id =>
    if (s.forest.subSession id).isNone then {} else s.persistAndAdvance env [.subSessionSeeded id]
  | .seedFailed id _ =>
    if (s.forest.subSession id).isNone then {}
    else .persist [.subSessionStatusChanged id .failed]
  | .reseedInterrupted =>
    .send ((s.forest.seedingSubSessions.filter fun id => env.spawns id).flatMap fun id =>
      .spawn id none :: s.startSeeding env id)

/-! ## Messages -/

/-- What a built-in command is given. -/
def argsOf (text : String) : String :=
  trim (String.ofList (text.toList.dropWhile fun c => !isWhite c))

def subSessionRequest (text : String) : Option (SeedMode × String) :=
  match invoked text with
  | some "fork" => some (.copy, argsOf text)
  | some "summary-n-fork" => some (.summary, argsOf text)
  | some _ | none => none

def queuedMessage (id text : String) (artifacts : List ArtifactRef) : Incoming :=
  if invoked (trim text) = some "compact" then
    .compact id (if isBlank (argsOf (trim text)) then none else some (argsOf (trim text)))
  else .user id text artifacts

/-- Resolve a selector: nobody named is the main agent, on a workflow the step in flight. -/
def resolveAgent (agent : Option String) : Option AgentKey :=
  let key : Option AgentKey :=
    match agent with
    | none | some "main" =>
      match s.forest.currentRootStepAgent with
      | some step => some (.step step)
      | none => if s.isWorkflow then none else some .main
    | some id => s.agentKeyOf id
  key.filter fun k => env.spawns (k.agentId env.id)

def onAnswer (agent : Option String) (answers : List AskAnswer) : Effect :=
  match s.resolveAgent env agent with
  | none => .answer .notFound
  | some key =>
    .send [.spawn (key.agentId env.id) none,
      .tell (key.agentId env.id) (.queue (.answer answers))]

def onUserMessage (agent : Option String) (text : String) (artifacts : List ArtifactRef) : Effect :=
  match s.fatal with
  | some why => .answer (.unrecoverable why)
  | none =>
    if s.isWorkflow && toMain agent then
      .answer (.refused "this session is a workflow run; name a step agent to message it")
    else
      match s.resolveAgent env agent with
      | none => .answer .notFound
      | some key =>
        let target := key.agentId env.id
        match subSessionRequest (trim text) with
        | some (seed, message) =>
          .send [.spawn target none,
            .later (.subSession (.create target seed message
              ((deriveTitle message).getD "Sub session") .inherit)) false]
        | none =>
          let provision : List Sent :=
            match s.runtimeFor env.id with
            | .on _ ⟨_, _, .failed _ _⟩ => [.self (.lifecycle (.provision env.id none))]
            | .on _ _ | .without | .pending => []
          (Effect.send ([.spawn target none,
            .tell target (.queue (.enqueue (queuedMessage env.fresh text artifacts) true))] ++
              provision)).andThen
            (s.persistAndAdvance env (s.titleFrom env text))

def handleTurn : TurnCommand → Effect
  | .userMessage agent text artifacts => s.onUserMessage env agent text artifacts
  | .stop agent => s.onStop env agent
  | .answer agent answers => s.onAnswer env agent answers

/-! ## Runs -/

/-- An execution of the session's own run is executed again, behind the others. What is in flight
is cancelled first, with all it delegated. -/
def onRetryStep (index : ℕ) : Effect :=
  match s.forest.root, s.forest.rootWorkflow with
  | some run, some w =>
    match w.run.steps[index]? with
    | none => .answer (.refused ("no step execution at index " ++ toString index))
    | some target =>
      let cancelled : Effect :=
        match w.run.current with
        | none => {}
        | some current =>
          let below : Effect :=
            match w.run.steps[current]? with
            | some step =>
              (Effect.send [.cancel step.agent]).andThen (s.cancelDescendants step.agent)
            | none => {}
          below.andThen (.persist [.stepCancelled run current])
      let next := s.applyAll cancelled.events
      let (newIndex, attempt) :=
        match next.forest.workflow run with
        | some w => (w.run.steps.length, w.run.attemptsOf target.step + 1)
        | none => (0, 1)
      { cancelled.andThen (next.startStep env
          { run := run
            index := newIndex
            step := target.step
            agent := WorkflowRunSpec.stepAgentId env.newV5 run newIndex
            attempt := attempt
            origin := target.origin
            via := target.via
            input := target.input }) with
        reply := some .done }
  | some _, none | none, _ => .answer (.refused "this session is not a workflow run")

def reconciledSteps : List SessionDomainEvent :=
  s.forest.inFlightSteps.map fun (run, index, _) => .stepCancelled run index

def handleRun : RunCommand → Effect
  | .create parent graph =>
    match s.forest.depthOfAgent parent with
    | none => .answer (.refused "caller is not a known agent")
    | some depth =>
      if depth ≥ maxDepth then
        .answer (.refused ("max delegation depth " ++ toString maxDepth ++ " reached"))
      else if s.forest.liveRunCount ≥ maxLiveRuns then
        .answer (.refused (toString maxLiveRuns ++ " workflow runs already live in this session"))
      else
        { events := [.runCreated env.fresh parent graph]
          sent := [.later (.run (.finishCreate env.fresh true)) true] }
  | .finishCreate id persisted =>
    if persisted then { s.flushThenDrain env with reply := some (.id id) }
    else .answer (.refused "persist workflow run")
  | .advance => s.flushThenDrain env
  | .retryStep index => s.onRetryStep env index
  | .reconcileInterrupted => .persist s.reconciledSteps

/-! ## Subagents -/

/-- What recovery fails: every subagent that is running as the command is handled. -/
def reconciledSubs : List SessionDomainEvent :=
  s.forest.interruptedSubs.map fun id => .subAgentFailed id interruptedError

def handleSubAgent : SubAgentCommand → Effect
  | .spawn caller title task agentType =>
    match s.forest.depthOfAgent caller, env.maxSubagents caller with
    | none, _ => .answer (.refused "caller is not a known agent")
    | some depth, cap =>
      if depth ≥ maxDepth then
        .answer (.refused ("max subagent depth " ++ toString maxDepth ++ " reached"))
      else
        match cap with
        | none => .answer (.refused "caller is not a known agent")
        | some max =>
          if s.forest.activeSubCount ≥ max then
            .answer (.refused (toString max ++ " subagents already active"))
          else
            { events := [.subAgentSpawned env.fresh caller title task agentType]
              sent := [.later (.subAgent (.finishSpawn env.fresh task agentType true)) true] }
  | .finishSpawn id task _ persisted =>
    if !persisted then .answer (.refused "persist subagent")
    else if !env.spawns id then .answer (.refused "could not start the subagent")
    else
      { sent :=
          [.spawn id none,
            .tell id (.queue (.enqueue (.user ("task:" ++ id) task []) false))]
        reply := some (.id id) }
  | .reconcile => .persist s.reconciledSubs

/-! ## Runtimes -/

def handleLifecycle : LifecycleCommand → Effect
  | .provision owner vendor =>
    match s.provisions env.id owner vendor env.fresh with
    | none => {}
    | some (runtime, vendor, requested) =>
      { events := started runtime owner vendor requested env.now
        sent := [.create runtime vendor env.now] }
  | .narrateProvisioning runtime detail =>
    if (s.runtimes.lookup runtime).any (·.provisioning.isInFlight) then
      .persist [.provisioningProgress runtime detail]
    else {}
  | .finishProvisioning runtime error terminal =>
    s.persistAndAdvance env
      [match error with
        | none => .provisioningSucceeded runtime
        | some error => .provisioningFailed runtime error terminal]
  | .prepareOffload =>
    if s.busy then .answer (.refused "busy") else { reply := some .done, stop := true }
  | .delete => { reply := some .done, stop := true }

/-! ## Hooks -/

/-- Whether an agent has a turn of its own in flight. -/
def isWorking : AgentKey → Bool
  | .main => s.forest.mainTurn = some .running
  | .sub id => (s.forest.sub id).any (·.status = .running)
  | .step id =>
    (s.forest.executionOfAgent id).any fun (run, index) =>
      (s.forest.workflow run).any (·.run.current = some index)
  | .subSession id => (s.forest.subSession id).any (·.status = .running)

def handleHooks : HookCommand → Effect
  | .ran key records => .send [.tell (key.agentId env.id) (.log (.hooksRan records))]
  | .halt key reason =>
    if env.resident (key.agentId env.id) && s.isWorking key then
      (Effect.send [.cancel (key.agentId env.id)]).andThen
        (s.onTurnEnd env (key.agentId env.id) (.failed reason false))
    else {}
  | .continueAfterStop key reason =>
    .send [.tell (key.agentId env.id) (.queue (.enqueue (.continue_ env.fresh reason) false))]

/-! ## Loading -/

def repairLifecycle : Option SessionCommand :=
  if s.fatal.isSome then none
  else
    (s.runtimes.toPairs.find? fun r =>
      match r.2.provisioning with
      | .inFlight _ | .failed _ _ => true
      | .never | .ready _ => false).map fun r => .lifecycle (.provision r.2.owner none)

def repairSubAgents : Option SessionCommand :=
  if s.forest.interruptedSubs.isEmpty then none else some (.subAgent .reconcile)

def repairRuns : Option SessionCommand :=
  if s.forest.hasStepInFlight then some (.run .reconcileInterrupted)
  else if s.forest.workflows.any fun w => w.2.run.status = .pending then some (.run .advance)
  else none

def repairSubSessions : Option SessionCommand :=
  if s.forest.hasSeedingSubSessions then some (.subSession .reseedInterrupted) else none

/-- The repairs a session sends itself as it is loaded. Its turns are repaired by their agents. -/
def repairs : List SessionCommand :=
  s.repairLifecycle.toList ++ s.repairSubAgents.toList ++ s.repairRuns.toList ++
    s.repairSubSessions.toList

/-- A session takes up its spec: its main agent is started, and it sends itself its repairs. -/
def adopt : List Sent :=
  (if s.isWorkflow then [] else [.spawn env.id none]) ++ s.repairs.map .self

/-- A session whose journal says what it is takes that up. -/
def onRecoveryComplete : List Sent := if s.spec.isSome then s.adopt env else []

/-! ## The session itself -/

def handleCore : CoreCommand → Effect
  | .deleteAgent id =>
    if (s.forest.sub id).isSome || (s.forest.subSession id).isSome then
      { events := [.agentDeleted id]
        sent := (s.forest.descendantAgents id).map .retire ++ [.retire id]
        reply := some .done }
    else
      .answer (.refused (if id = env.id then
          "the main agent is the session; delete the session instead"
        else "no such subagent or sub session: " ++ id))
  | .setTitle title =>
    match normalizeSessionTitle title with
    | .ok name =>
      if env.renames then { events := [.renamed name], reply := some .done }
      else .answer (.refused "persist session title")
    | .error _ => .answer (.refused "title")
  | .titleSet name => .persist [.renamed name]
  | .create spec name message =>
    let creating := s.spec.isNone
    let first : List Sent :=
      (if creating then [.self (.lifecycle (.provision env.id none))] else []) ++
        (message.map fun (text, artifacts) =>
          .self (.turn (.userMessage none text artifacts))).toList
    if creating then
      let events := SessionDomainEvent.specRecorded env.id spec :: (name.map .renamed).toList
      { events := events, sent := first ++ (s.applyAll events).adopt env }
    else .send first
  | .progress key stage detail =>
    .send [.tell (key.agentId env.id) (.log (.recordLifecycle (.preparing stage detail) env.now))]

/-! ## Every command -/

def onAgentOutcome (agent : String) (outcome : AgentOutcome) : Effect :=
  match outcome with
  | .usageRecorded _ _ _ => .persist [.usageRecorded (if agent = env.id then "main" else agent)]
  | .started => s.onAgentStarted agent
  | .seedSummary subSessions result => s.handleSubSession env (.summarised subSessions result)
  | .concluded output => s.onTurnEnd env agent (.concluded output)
  | .asked _ => s.onTurnEnd env agent .asked
  | .parked => s.onTurnEnd env agent .parked
  | .interrupted => s.onTurnEnd env agent .interrupted
  | .failed error _ terminal => s.onTurnEnd env agent (.failed error terminal)

def refuseUntilTold : SessionCommand → Effect
  | .turn (.userMessage _ _ _) => .answer .notFound
  | .turn (.stop _) => .answer (.refused "no such session")
  | .turn (.answer _ _) | .lifecycle _ | .run _ | .subAgent _ | .subSession _ | .hooks _ | .core _
  | .read | .agentOutcome _ _ => {}

def handle : SessionCommand → Effect
  | .lifecycle c => s.handleLifecycle env c
  | .turn c => s.handleTurn env c
  | .run c => s.handleRun env c
  | .subAgent c => s.handleSubAgent env c
  | .subSession c => s.handleSubSession env c
  | .hooks c => s.handleHooks env c
  | .core c => s.handleCore env c
  | .read => {}
  | .agentOutcome agent outcome => s.onAgentOutcome env agent outcome

/-- A session that was not told what it is takes nothing but that. -/
def handleCommand (c : SessionCommand) : Effect :=
  match s.spec, c with
  | none, .core (.create spec name message) => s.handleCore env (.create spec name message)
  | none, c => refuseUntilTold c
  | some _, c => s.handle env c

theorem handleCommand_of_told {s : SessionState} {env : Env} {c : SessionCommand}
    (h : s.spec.isSome) : s.handleCommand env c = s.handle env c := by
  obtain ⟨spec, hs⟩ := Option.isSome_iff_exists.mp h
  unfold SessionState.handleCommand
  rw [hs]

end SessionState

end Horsie.Session
