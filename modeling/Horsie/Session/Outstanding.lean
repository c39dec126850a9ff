import Horsie.Session.Host

/-!
# Outstanding work is kept twice

What an agent delegated and is still running stands in the run forest, and in the agent's own log,
which the session feeds with the news of its children. The agent decides by its log whether it may
conclude. The two agree (`World.Tallies`) exactly as long as everything that changes which children
run reaches the parent (`World.Accounts`): a child that is woken, a child that is deleted and a run
whose step fails reach it not.
-/

namespace Horsie.Session

open Lib
open Agent (LifecycleEvent runtimeReadiness)

/-! ## The two views -/

namespace SessionState

/-- Whether `child` is a subagent or an invoked run of `agent` that is not over. -/
def runs (s : SessionState) (agent child : String) : Bool :=
  match s.forest.entry child with
  | some ⟨some parent, .sub r⟩ => decide (parent = agent) && decide (r.status = .running)
  | some ⟨some parent, .workflow w⟩ => decide (parent = agent) && !w.run.status.isTerminal
  | some ⟨some _, .main _⟩ | some ⟨some _, .subSession _⟩ | some ⟨none, _⟩ | none => false

/-- The agent that is told the news of a child of `parent`. -/
def reader (s : SessionState) (main parent : String) : Option String :=
  (s.parentKey parent).map (·.agentId main)

/-- What an event tells `agent` of `child`, if it tells it anything: that it runs, or that it is
over. -/
def tidings (s : SessionState) (main agent child : String) : SessionDomainEvent → Option Bool
  | .subAgentSpawned id parent _ _ _ | .runCreated id parent _ =>
    if id = child ∧ s.reader main parent = some agent then some true else none
  | .subAgentCompleted id _ | .subAgentFailed id _ =>
    if id = child ∧ (s.forest.sub id).isSome ∧
        ((s.forest.ownerOfAgent id).bind (·.2.parent)).bind (s.reader main) = some agent then
      some false
    else none
  | .runFinished run _ | .runFailed run _ =>
    if run = child ∧ (s.forest.workflow run).isSome ∧
        ((s.forest.entry run).bind (·.parent)).bind (s.reader main) = some agent then some false
    else none
  | .specRecorded _ _ | .renamed _ | .runtimeRequested _ _ _ | .provisioningStarted _ _
  | .provisioningProgress _ _ | .provisioningSucceeded _ | .provisioningFailed _ _ _
  | .turnBegan _ | .askRecorded _ | .turnEnded _ | .turnFailed _ _ | .turnStopped _
  | .turnInterrupted _ | .sessionFailed _ | .agentDeleted _ | .usageRecorded _ | .subAgentRunning _
  | .subAgentNotified _ | .stepStarted _ _ _ _ _ _ _ _ | .stepConcluded _ _ _ | .stepFailed _ _ _
  | .stepCancelled _ _ | .runNotified _ | .subSessionCreated _ _ _ _ _ _ _ | .subSessionSeeded _
  | .subSessionStatusChanged _ _ | .subSessionTurnEnded _ _ => none

end SessionState

def hasRunning (child : String) (e : LifecycleEvent) : Option Bool :=
  (newsOf child e).map fun status => decide (status = "running")

def leaves (records : List LifecycleEvent) (child : String) : Option Bool :=
  newest (hasRunning child) records

namespace World

/-- The log of an agent once it has handled its mailbox. -/
def view (w : World) (agent : String) : List LifecycleEvent :=
  w.logs agent ++ (w.resident? agent).elim [] (·.mailbox)

/-- Whether the log of `agent` reports `child` as still running. -/
def reports (w : World) (agent child : String) : Bool :=
  childStatus (w.view agent) child = some "running"

def knows (w : World) (agent : String) : Bool := w.state.forest.isKnownAgent agent

/-- The children the log of an agent reports as running, once its mailbox is handled, are those
that run in the forest. -/
def Tallies (w : World) : Prop :=
  ∀ agent, w.knows agent = true → ∀ child, w.reports agent child = w.state.runs agent child

/-- What a batch tells `agent` of `child` last. An agent without an actor is told nothing. -/
def heard (u : World) (events : List SessionDomainEvent) (agent child : String) : Option Bool :=
  if (u.resident? agent).isSome then
    newest (u.state.tidings u.id agent child) events
  else none

/-- What a handler did is right for an agent and a child: what the agent is told of the child last
is how the child is left. If it is told nothing, the child is left as it was, and as the log has it
of an agent that is new or lost what was in its mailbox. -/
structure Tells (w u : World) (events : List SessionDomainEvent) (agent child : String) : Prop where
  told : ∀ b ∈ u.heard events agent child, u.state.runs agent child = b
  untold : u.heard events agent child = none → w.knows agent = true → u.view agent = w.view agent →
    u.state.runs agent child = w.state.runs agent child
  fresh : u.heard events agent child = none →
    (w.knows agent = false ∨ u.view agent ≠ w.view agent) →
    u.state.runs agent child = u.reports agent child

/-- Everything that changes which children run is told, no news is lost with a mailbox, and no
history is copied that reports work of its source as running. -/
def Accounts (w : World) : Label → Prop
  | .handle acts => ∀ agent, (w.perform acts).knows agent = true → ∀ child,
      w.Tells (w.perform acts) (batch acts) agent child
  | .record _ => True
  | .seed agent cut => ∀ run ∈ w.state.forest.entry agent, ∀ parent ∈ run.parent,
      w.knows agent = true → ∀ child, leaves (w.view agent) child = none →
        leaves ((w.logs parent).take cut) child ≠ some true
  | .unload => ∀ agent, w.knows agent = true → ∀ child,
      (leaves (w.logs agent) child).getD false = w.reports agent child

end World

/-! ## What is routed -/

theorem childStatus_running (records : List LifecycleEvent) (child : String) :
    decide (childStatus records child = some "running") = (leaves records child).getD false := by
  have h : leaves records child =
      (childStatus records child).map fun status => decide (status = "running") :=
    (map_newest _ records).symm
  rw [h]
  cases childStatus records child with
  | none => rfl
  | some status => simp

/-- The child a record speaks of, if it speaks of one. -/
def childOf : LifecycleEvent → Option String
  | .subAgent id _ _ => some id
  | .runtime _ _ | .preparing _ _ | .messageQueued _ _ | .turnBegan _ _ | .turnEnded _
  | .askRecorded _ _ | .subSession _ _ _ | .step _ _ _ | .taskList _ | .sessionFailed _
  | .compactionSkipped _ _ => none

theorem childStatus_of_notMem {records : List LifecycleEvent} {child : String}
    (h : child ∉ records.filterMap childOf) : childStatus records child = none := by
  apply newest_eq_none
  intro e he
  cases e with
  | subAgent id title status =>
    refine if_neg fun hid => h ?_
    exact List.mem_filterMap.mpr ⟨_, he, congrArg some hid⟩
  | _ => rfl

theorem SessionState.runs_of_notMem {s : SessionState} {child : String}
    (h : child ∉ s.forest.entries.keys) (agent : String) : s.runs agent child = false := by
  unfold SessionState.runs RunForest.entry
  rw [AList.lookup_eq_none.mpr h]

/-- Agents the forest does not know and children nobody speaks of need no look. -/
instance (w : World) : Decidable w.Tallies :=
  decidable_of_iff (∀ agent ∈ w.state.forest.agents.keys,
      ∀ child ∈ (w.view agent).filterMap childOf ++ w.state.forest.entries.keys,
        w.reports agent child = w.state.runs agent child) <| by
    refine forall_congr' fun agent => imp_congr ?_ (forall_congr' fun child => ?_)
    · exact AList.lookup_isSome.symm
    · constructor
      · intro h
        by_cases hc : child ∈ (w.view agent).filterMap childOf ++ w.state.forest.entries.keys
        · exact h hc
        · rw [List.mem_append, not_or] at hc
          rw [World.reports, childStatus_of_notMem hc.1, SessionState.runs_of_notMem hc.2]
          rfl
      · exact fun h _ => h

theorem leaves_nil (child : String) : leaves [] child = none := rfl

theorem leaves_append (xs ys : List LifecycleEvent) (child : String) :
    leaves (xs ++ ys) child = (leaves ys child).or (leaves xs child) := newest_append xs ys

section

variable {s : SessionState} {main agent child : String}

theorem leaves_reaching_quiet {entries : List (AgentKey × LifecycleEvent)}
    (h : ∀ x ∈ entries, ∀ child, newsOf child x.2 = none) :
    leaves (reaching main agent entries) child = none := by
  apply newest_eq_none
  intro e he
  obtain ⟨x, hx, rfl⟩ := mem_reaching he
  rw [hasRunning, h x hx]
  rfl

theorem leaves_childEntry {parent id title status : String} :
    leaves (reaching main agent (s.childEntry parent id title status)) child =
      if id = child ∧ s.reader main parent = some agent then some (decide (status = "running"))
      else none := by
  unfold SessionState.childEntry SessionState.reader reaching
  cases s.parentKey parent with
  | none => simp [leaves_nil]
  | some key =>
    by_cases hk : key.agentId main = agent
    · by_cases hid : id = child <;> simp [leaves, hasRunning, newsOf, hk, hid]
    · simp [leaves_nil, hk]

theorem stepEntry_quiet {run status : String} {index : ℕ} :
    ∀ x ∈ s.stepEntry run index status, ∀ child, newsOf child x.2 = none := by
  intro x hx
  unfold SessionState.stepEntry at hx
  split at hx
  · cases hx
  · obtain rfl := List.mem_singleton.mp hx
    exact fun _ => rfl

theorem lastStepEntry_quiet {run status : String} :
    ∀ x ∈ s.lastStepEntry run status, ∀ child, newsOf child x.2 = none := by
  intro x hx
  unfold SessionState.lastStepEntry at hx
  split at hx
  · cases hx
  · split at hx
    · cases hx
    · exact stepEntry_quiet x hx

theorem leaves_runReport {run last status : String} (hstatus : status ≠ "running") :
    leaves (reaching main agent (s.lastStepEntry run last ++ s.runReportEntry run status)) child =
      if run = child ∧ (s.forest.workflow run).isSome ∧
        ((s.forest.entry run).bind (·.parent)).bind (s.reader main) = some agent then some false
      else none := by
  rw [reaching_append, leaves_append, leaves_reaching_quiet lastStepEntry_quiet, Option.or_none]
  unfold SessionState.runReportEntry RunForest.workflow
  cases s.forest.entry run with
  | none => simp [reaching, leaves_nil]
  | some e =>
    obtain ⟨parent, state⟩ := e
    cases parent with
    | none => simp [reaching, leaves_nil]
    | some parent =>
      cases state with
      | workflow w => simp [leaves_childEntry, hstatus, RunState.workflow?]
      | _ => simp [reaching, leaves_nil, RunState.workflow?]

theorem leaves_terminalSubagent {id : String} {error : Option String} :
    leaves (reaching main agent (s.terminalSubagent id error)) child =
      if id = child ∧ (s.forest.sub id).isSome ∧
        ((s.forest.ownerOfAgent id).bind (·.2.parent)).bind (s.reader main) = some agent then
        some false
      else none := by
  unfold SessionState.terminalSubagent
  cases s.forest.sub id with
  | none => simp [reaching, leaves_nil]
  | some record =>
    rw [reaching_append, leaves_append, leaves_reaching_quiet (by simp [newsOf]), Option.none_or]
    cases (s.forest.ownerOfAgent id).bind (·.2.parent) with
    | none => simp [reaching, leaves_nil]
    | some parent =>
      rw [Option.toList_some, List.flatMap_singleton, leaves_childEntry]
      cases error <;> simp

theorem leaves_routedTo (event : SessionDomainEvent) :
    leaves (routedTo main agent s event) child = s.tidings main agent child event := by
  unfold routedTo
  cases event with
  | subAgentSpawned | runCreated => exact leaves_childEntry
  | subAgentCompleted | subAgentFailed => exact leaves_terminalSubagent
  | runFinished | runFailed => exact leaves_runReport (by decide)
  | stepConcluded | stepFailed | stepCancelled => exact leaves_reaching_quiet stepEntry_quiet
  | stepStarted | subSessionTurnEnded => exact leaves_reaching_quiet (by simp [route, newsOf])
  | provisioningStarted | provisioningProgress | provisioningSucceeded | provisioningFailed
  | turnEnded | turnFailed | turnStopped | turnInterrupted | sessionFailed | subSessionCreated =>
    apply leaves_reaching_quiet
    intro x hx child
    obtain ⟨key, -, rfl⟩ := List.mem_map.mp hx
    rfl
  | _ => rfl

end

namespace World

/-! ## What one step does -/

variable {w t : World} {agent : String}

theorem find?_map_id {residents : List Resident} {f : Resident → Resident}
    (hf : ∀ r, (f r).id = r.id) (agent : String) :
    (residents.map f).find? (·.id = agent) = (residents.find? (·.id = agent)).map f := by
  rw [List.find?_map]
  congr 2
  funext r
  simp [hf]

theorem resident?_recordLifecycle (w : World) (events : List SessionDomainEvent) (agent : String) :
    (w.recordLifecycle events).resident? agent =
      (w.resident? agent).map fun r =>
        { r with mailbox := r.mailbox ++ w.records events r.id } := by
  exact find?_map_id (f := fun r => { r with mailbox := r.mailbox ++ w.records events r.id })
    (fun _ => rfl) agent

theorem view_recordLifecycle (w : World) (events : List SessionDomainEvent) (agent : String) :
    (w.recordLifecycle events).view agent =
      w.view agent ++ if (w.resident? agent).isSome then w.records events agent else [] := by
  unfold view
  rw [resident?_recordLifecycle]
  cases h : w.resident? agent with
  | none => simp [recordLifecycle]
  | some r => simp [recordLifecycle, (of_resident? h).2]

theorem reports_recordLifecycle (w : World) (events : List SessionDomainEvent)
    (agent child : String) : (w.recordLifecycle events).reports agent child =
      (w.heard events agent child).getD (w.reports agent child) := by
  unfold reports heard
  rw [childStatus_running, childStatus_running, view_recordLifecycle, leaves_append]
  split_ifs
  · have hrecords : leaves (w.records events agent) child =
        newest (w.state.tidings w.id agent child) events := by
      rw [leaves, records, newest_flatMap]
      exact newest_congr fun e _ => leaves_routedTo e
    rw [hrecords]
    cases newest (w.state.tidings w.id agent child) events <;> rfl
  · rfl

/-- The entries an agent holds, handled or not, are the same after it handled one. -/
theorem step?_record (h : w.step? (.record agent) = some t) :
    t.state = w.state ∧ ∀ other, t.view other = w.view other := by
  simp only [step?] at h
  split at h
  · rename_i id ready event rest hr
    cases h
    obtain ⟨hmem, hid⟩ := of_resident? hr
    refine ⟨rfl, fun other => ?_⟩
    have hfind : ∀ other, (w.residents.map fun s => if s.id = agent then
        (⟨agent, (runtimeReadiness event).getD ready, rest⟩ : Resident) else s).find?
          (·.id = other) = (w.resident? other).map _ :=
      find?_map_id fun s => by split_ifs with hs; exacts [hs.symm, rfl]
    unfold view
    rw [resident?, hfind]
    by_cases ho : other = agent
    · subst ho
      have hid' : id = other := hid
      simp [write, hr, hid']
    · cases hw : w.resident? other with
      | none => simp [write, ho]
      | some s => simp [write, ho, (of_resident? hw).2]
  · cases h
  · cases h

/-- What the session does keeps the two in agreement exactly if the agents are told. -/
theorem handle_tallies (h : w.Tallies) (acts : List Act) :
    (w.handle acts).Tallies ↔ w.Accounts (.handle acts) := by
  unfold Tallies Accounts handle
  refine forall₂_congr fun agent hagent => forall_congr' fun child => ?_
  rw [reports_recordLifecycle]
  show _ = (w.perform acts).state.runs agent child ↔ _
  rcases hheard : (w.perform acts).heard (batch acts) agent child with _ | b
  · rw [Option.getD_none]
    by_cases hw : w.knows agent = true ∧ (w.perform acts).view agent = w.view agent
    · have hreports : (w.perform acts).reports agent child = w.state.runs agent child := by
        rw [← h agent hw.1 child, reports, reports, hw.2]
      rw [hreports]
      constructor
      · exact fun heq => ⟨by simp [hheard], fun _ _ _ => heq.symm, fun _ hor => by
          rcases hor with hn | hn
          · rw [hw.1] at hn
            cases hn
          · exact absurd hw.2 hn⟩
      · exact fun hs => (hs.untold hheard hw.1 hw.2).symm
    · have hor : w.knows agent = false ∨ (w.perform acts).view agent ≠ w.view agent := by
        rw [not_and_or, Bool.not_eq_true] at hw
        exact hw
      constructor
      · exact fun heq => ⟨by simp [hheard], fun _ h1 h2 => absurd ⟨h1, h2⟩ hw, fun _ _ => heq.symm⟩
      · exact fun hs => (hs.fresh hheard hor).symm
  · rw [Option.getD_some]
    constructor
    · exact fun heq => ⟨by simp [hheard, ← heq], by simp [hheard], by simp [hheard]⟩
    · exact fun hs => (hs.told b hheard).symm

theorem step_tallies {l : Label} (h : w.Tallies) (hs : w.step? l = some t) :
    t.Tallies ↔ w.Accounts l := by
  cases l with
  | handle acts =>
    cases hs
    exact handle_tallies h acts
  | record agent =>
    obtain ⟨hstate, hview⟩ := step?_record hs
    refine iff_of_true (fun other hother child => ?_) trivial
    unfold reports
    rw [hview, hstate]
    refine h other ?_ child
    rwa [knows, hstate] at hother
  | seed agent cut =>
    simp only [step?] at hs
    split at hs
    · rename_i parent run hentry
      split_ifs at hs with hempty
      cases hs
      have hother : ∀ other, other ≠ agent →
          (w.write agent ((w.logs parent).take cut)).view other = w.view other := by
        intro other ho
        simp [view, write, ho, resident?]
      have hview : (w.write agent ((w.logs parent).take cut)).view agent =
          (w.logs parent).take cut ++ w.view agent := by
        simp [view, write, hempty.2, resident?]
      simp only [Accounts, hentry, Option.mem_def, Option.some.injEq, forall_eq']
      constructor
      · intro ht hk child hnone hcopied
        have hchild := ht agent hk child
        have hbefore := h agent hk child
        rw [reports, childStatus_running, hview, leaves_append, hnone, hcopied] at hchild
        rw [reports, childStatus_running, hnone] at hbefore
        exact Bool.false_ne_true (hbefore.trans hchild.symm)
      · intro hcopied other hk child
        by_cases ho : other = agent
        · subst ho
          have hbefore := h other hk child
          rw [reports, childStatus_running] at hbefore ⊢
          rw [hview, leaves_append]
          cases hl : leaves (w.view other) child with
          | some b =>
            rw [hl] at hbefore
            exact hbefore
          | none =>
            rw [hl] at hbefore
            refine Eq.trans ?_ hbefore
            have hne := hcopied hk child hl
            cases hc : leaves ((w.logs parent).take cut) child with
            | none => rfl
            | some b =>
              cases b with
              | false => rfl
              | true => exact absurd hc hne
        · rw [reports, hother other ho]
          exact h other hk child
    · cases hs
    · cases hs
  | unload =>
    cases hs
    unfold Tallies Accounts
    refine forall₂_congr fun agent hagent => forall_congr' fun child => ?_
    rw [h agent hagent child]
    unfold reports view
    rw [childStatus_running]
    simp [resident?]

end World

def delegating : List Label :=
  [.handle [.emit (.specRecorded "s" ⟨.agent, none⟩), .spawn "s" none],
    .handle [.emit (.subAgentSpawned "c" "s" "dig" "Dig here." none)], .record "s",
    .handle [.spawn "c" none]]

def reporting : List Label :=
  [.handle [.emit (.subAgentCompleted "c" "gold"), .emit (.subAgentNotified "c")], .record "s",
    .record "c"]

/-- The steps to states in which the two views agree. -/
def World.KeepsTally (w : World) (l : Label) : Prop := ∀ t ∈ w.step? l, t.Tallies

instance (w : World) (l : Label) : Decidable (w.KeepsTally l) :=
  inferInstanceAs (Decidable (∀ t ∈ w.step? l, t.Tallies))

end Horsie.Session
