import Horsie.Agent.Barrier
import Horsie.Agent.Delivery
import Horsie.Agent.LogOrder
import Horsie.Client.Room

/-!
# What an agent's step does to what the client shows

An agent of a session is interactive, so no load starts a run, and while a turn is in flight no
question is pending (`Member.Sound`). Hence whatever a handler journals keeps the agreement of the
two folds, a seed apart (`handle_events`), and a message that was received stays acknowledged in the
client's fold (`Member.Sound.accepted`).
-/

namespace Horsie.Client

open Agent Lib

variable {s : AgentState} {es : List AgentDomainEvent}

/-! ## Events that keep the agreement -/

/-- Events that keep the agreement, one after the other: no seed, no record of what an agent
records by itself, and questions only where none are pending. -/
def Smooth : AgentState → List AgentDomainEvent → Prop
  | _, [] => True
  | s, e :: es =>
    (∀ st seed, e ≠ .seeded st seed) ∧
      (∀ event atMs, e = .lifecycleRecorded event atMs → registers event = false) ∧
      (∀ asks atMs, e = .askRecorded asks atMs → s.asks = []) ∧ Smooth (s.applyEvent e) es

theorem Smooth.agreed (hes : Smooth s es) (h : Agreed s) : Agreed (s.applyAll es) := by
  induction es generalizing s with
  | nil => exact h
  | cons e es ih =>
    obtain ⟨hseed, hrecord, hasks, hes⟩ := hes
    exact ih hes (agreed_applyEvent h hseed hrecord hasks)

/-- Whether an event keeps the agreement wherever it is journaled. -/
def smooth : AgentDomainEvent → Bool
  | .seeded _ _ | .askRecorded _ _ => false
  | .lifecycleRecorded event _ => !registers event
  | .inputMessage _ | .messageComplete _ | .messageAborted _ | .toolComplete _ | .hookRan _ _ _
  | .runComplete _ _ _ _ | .runAborted _ _ _ | .runCancelled _ | .timerArmed _ _
  | .timerCancelled _ _ | .timerFired _ _ _ | .parked _ | .nudged _ | .taskListChanged _ _
  | .compacted _ | .received _ _ | .turnBegan _ _ _ => true

theorem smooth_of_forall (h : ∀ e ∈ es, smooth e = true) : Smooth s es := by
  induction es generalizing s with
  | nil => trivial
  | cons e es ih =>
    obtain ⟨he, hes⟩ := List.forall_mem_cons.mp h
    refine ⟨?_, ?_, ?_, ih hes⟩
    · rintro st seed rfl
      cases he
    · rintro event atMs rfl
      simpa [smooth] using he
    · rintro asks atMs rfl
      cases he

theorem smooth_of_own {e : AgentDomainEvent} (h : e.own = true) : smooth e = true := by
  cases e <;> first | rfl | cases h

theorem Smooth.seedless (hes : Smooth s es) : ∀ e ∈ es, ∀ st seed, e ≠ .seeded st seed := by
  induction es generalizing s with
  | nil => exact fun e he => absurd he List.not_mem_nil
  | cons e es ih => exact List.forall_mem_cons.mpr ⟨hes.1, ih hes.2.2.2⟩

/-! ## The pending questions -/

theorem asks_applyEvent_own {e : AgentDomainEvent} (he : e.own = true) (h : s.asks = []) :
    (s.applyEvent e).asks = [] := by
  cases e with
  | received item atMs => rw [AgentState.applyEvent_received_asks, h]
  | turnBegan => rfl
  | _ => first | exact (s.applyEvent_of_not_queues rfl).2.trans h | cases he

theorem asks_applyAll_own (hes : ∀ e ∈ es, e.own = true) (h : s.asks = []) :
    (s.applyAll es).asks = [] := by
  induction es generalizing s with
  | nil => exact h
  | cons e es ih =>
    obtain ⟨he, hes⟩ := List.forall_mem_cons.mp hes
    exact ih hes (asks_applyEvent_own he h)

theorem asks_applyAll_began (hes : ∀ e ∈ es, e.own = true)
    (hbegan : ∃ c an t, .turnBegan c an t ∈ es) : (s.applyAll es).asks = [] := by
  obtain ⟨c, an, t, hmem⟩ := hbegan
  obtain ⟨pre, post, rfl⟩ := List.append_of_mem hmem
  rw [AgentState.applyAll_append, AgentState.applyAll_cons]
  exact asks_applyAll_own (fun e he => hes e (by simp [he])) rfl

/-! ## The messages the client knows of -/

theorem accepted_subset_of_initial {l l' : List AgentLogEntry} (h : l <+: l') :
    (fold l).accepted ⊆ (fold l').accepted := by
  rw [accepted_fold, accepted_fold]
  obtain ⟨rest, rfl⟩ := h
  rw [List.filterMap_append]
  exact List.subset_append_left _ _

theorem accepted_of_received (hes : ∀ e ∈ es, ∀ st seed, e ≠ .seeded st seed) {id text : String}
    {artifacts : List ArtifactRef} {atMs : ℕ}
    (h : .received (.user id text artifacts) atMs ∈ es) :
    id ∈ (fold (s.applyAll es).log).accepted := by
  obtain ⟨pre, post, rfl⟩ := List.append_of_mem h
  rw [AgentState.applyAll_append, AgentState.applyAll_cons]
  have hhere : id ∈ (fold ((s.applyAll pre).applyEvent
      (.received (.user id text artifacts) atMs)).log).accepted := by
    show id ∈ (fold ((s.applyAll pre).log ++ [⟨_, atMs, _⟩])).accepted
    rw [accepted_fold, List.filterMap_append]
    exact List.mem_append_right _ (List.mem_singleton_self id)
  exact accepted_subset_of_initial
    (AgentState.applyAll_log _ fun e he => hes e (by simp [he])) hhere

/-! ## What is sent to an agent -/

/-- A command whose seed brings nothing in flight, and whose record no agent makes by itself. -/
def Tame : AgentCommand → Prop
  | .log (.recordLifecycle event _) => registers event = false
  | .seed (.seedFrom st _ _) => st.inbox = [] ∧ st.asks = []
  | .queue _ | .run _ | .timer _ | .taskList _ | .read | .log (.recordDelta _)
  | .log (.hooksRan _) | .seed (.snapshot _) | .shutdown => True

/-- What holds of an agent of a session after every step. -/
structure Member.Sound (m : Member) : Prop where
  reachable : (agentSystem m.kind.params).Reachable m.world
  calm : m.world.actor.busy = true → m.world.state.asks = []
  tame : ∀ mail ∈ m.world.mailbox, Tame mail.cmd
  accepted : ∀ id text artifacts atMs,
    .received (.user id text artifacts) atMs ∈ m.world.journal →
      id ∈ (fold m.world.state.log).accepted

def seed? (m : Member) : Option (AgentState × Option Message × Incoming) :=
  match m.world.mailbox with
  | ⟨_, .seed (.seedFrom st seed message)⟩ :: _ =>
    if m.world.state.log.isEmpty && m.world.state.inbox.isEmpty then some (st, seed, message)
    else none
  | ⟨_, .queue _⟩ :: _ | ⟨_, .run _⟩ :: _ | ⟨_, .timer _⟩ :: _ | ⟨_, .taskList _⟩ :: _
  | ⟨_, .read⟩ :: _ | ⟨_, .log _⟩ :: _ | ⟨_, .seed (.snapshot _)⟩ :: _ | ⟨_, .shutdown⟩ :: _ | [] =>
    none

variable {m : Member} {mail : Mail} {rest : List Mail}

theorem seed?_eq_some {st : AgentState} {seed : Option Message} {message : Incoming}
    (hm : m.world.mailbox = mail :: rest) (h : seed? m = some (st, seed, message)) :
    mail.cmd = .seed (.seedFrom st seed message) ∧ m.world.state.log = [] ∧
      m.world.state.inbox = [] := by
  unfold seed? at h
  rw [hm] at h
  split at h
  · rename_i hmail
    split_ifs at h with hempty
    cases hmail
    simp only [Option.some.injEq, Prod.mk.injEq] at h
    obtain ⟨rfl, rfl, rfl⟩ := h
    simpa using hempty
  all_goals cases h

theorem seed?_eq_none {st : AgentState} {seed : Option Message} {message : Incoming}
    (hm : m.world.mailbox = mail :: rest) (h : seed? m = none)
    (hc : mail.cmd = .seed (.seedFrom st seed message)) :
    ¬ (m.world.state.log = [] ∧ m.world.state.inbox = []) := by
  obtain ⟨sender, cmd⟩ := mail
  subst hc
  rintro ⟨hlog, hin⟩
  unfold seed? at h
  rw [hm] at h
  simp [hlog, hin] at h

/-- What an agent journals: a seed and the message that rides along, or events that keep the
agreement and leave no question pending where a turn is in flight behind them. -/
theorem handle_events (h : m.Sound) (hm : m.world.mailbox = mail :: rest) (env : Env) :
    (∃ st seed message, seed? m = some (st, seed, message) ∧ st.inbox = [] ∧ st.asks = [] ∧
      (m.world.effect m.kind.params env mail).events =
        [.seeded st seed, .received message env.now]) ∨
    seed? m = none ∧ Smooth m.world.state (m.world.effect m.kind.params env mail).events := by
  have hmem : mail ∈ m.world.mailbox := hm ▸ List.mem_cons_self
  have htame := h.tame mail hmem
  have hwrites := m.world.actor.handleCommand_writes m.kind.params env m.world.state mail.cmd
  cases hseed : seed? m with
  | some p =>
    obtain ⟨st, seed, message⟩ := p
    obtain ⟨hc, hlog, hin⟩ := seed?_eq_some hm hseed
    rw [hc] at htame
    refine .inl ⟨st, seed, message, rfl, htame.1, htame.2, ?_⟩
    simp [World.effect, hc, AgentActor.handleCommand, AgentActor.handleSeed, hlog, hin]
  | none =>
    refine .inr ⟨rfl, ?_⟩
    unfold World.effect
    generalize (m.world.actor.handleCommand m.kind.params env m.world.state mail.cmd).events = es
      at hwrites ⊢
    cases hwrites with
    | own hown => exact smooth_of_forall fun e he => smooth_of_own (hown e he)
    | asked report asks rest hc hrun he hrest =>
      have hbusy : m.world.actor.busy = true := by
        obtain ⟨run, hrun, -⟩ := Option.map_eq_some_iff.mp hrun
        simp [AgentActor.busy, hrun]
      rw [he]
      exact ⟨by simp, by simp, fun _ _ _ => h.calm hbusy,
        smooth_of_forall fun e he => smooth_of_own (hrest e he)⟩
    | recorded event atMs rest hc he hrest =>
      rw [hc] at htame
      rw [he]
      refine smooth_of_forall (List.forall_mem_cons.mpr ⟨?_, ?_⟩)
      swap
      · exact fun e he => smooth_of_own (hrest e he)
      have hevent : registers event = false := htame
      simp [smooth, hevent]
    | hooks records ms he =>
      rw [he]
      refine smooth_of_forall fun e he => ?_
      rcases List.mem_append.mp he with he | he
      · obtain ⟨i, hi, rfl⟩ := List.mem_mapIdx.mp he
        rfl
      · obtain ⟨message, -, rfl⟩ := List.mem_map.mp he
        rfl
    | progress hc =>
      refine smooth_of_forall fun e he => ?_
      rcases (mailed h.reachable mail hmem).progress_events hc with
        ⟨ms, rfl⟩ | ⟨e', pending, pending', rfl, hemits⟩
      · obtain ⟨message, -, rfl⟩ := List.mem_map.mp he
        rfl
      · rw [List.mem_singleton.mp he]
        cases e' with
        | lifecycleRecorded event atMs => cases event <;> first | rfl | cases hemits
        | _ => first | rfl | cases hemits
    | seeded st seed message hc hlog hin he => exact absurd ⟨hlog, hin⟩ (seed?_eq_none hm hseed hc)

/-! ## A turn in flight -/

/-- What handling a command leaves of the pending questions: none, where none are pending and no
run ends on questions, or behind a turn that begins. -/
theorem handle_asks (h : m.Sound) (hm : m.world.mailbox = mail :: rest) (env : Env) :
    (m.world.state.asks = [] →
        (∀ report, mail.cmd = .run (.runFinished report) →
          m.world.actor.runId ≠ some report.runId) →
        (m.world.state.applyAll (m.world.effect m.kind.params env mail).events).asks = []) ∧
      ((m.world.effect m.kind.params env mail).Begins →
        (m.world.state.applyAll (m.world.effect m.kind.params env mail).events).asks = []) := by
  have hmem : mail ∈ m.world.mailbox := hm ▸ List.mem_cons_self
  have htame := h.tame mail hmem
  have hplain := plain_mailbox h.reachable mail hmem
  have hwrites := m.world.actor.handleCommand_writes m.kind.params env m.world.state mail.cmd
  unfold Effect.Begins World.effect
  generalize (m.world.actor.handleCommand m.kind.params env m.world.state mail.cmd).events = es
    at hwrites ⊢
  have hquiet : (∀ e ∈ es, e.queues = false) →
      (m.world.state.asks = [] → (m.world.state.applyAll es).asks = []) ∧
        ¬ ∃ c an t, .turnBegan c an t ∈ es := by
    intro hes
    refine ⟨fun hasks => (m.world.state.applyAll_of_not_queues hes).2.trans hasks, ?_⟩
    rintro ⟨c, an, t, hbegan⟩
    exact AgentActor.not_began_of_queues hes c an t hbegan
  -- One event in front of what the agent makes by itself begins no turn.
  have hbehind : ∀ {e : AgentDomainEvent} {rest : List AgentDomainEvent},
      (∀ x ∈ rest, x.own = true) → e.isTurnBegan = false →
      (∃ c an t, .turnBegan c an t ∈ e :: rest) →
        (m.world.state.applyAll (e :: rest)).asks = [] := by
    rintro e rest hrest he ⟨c, an, t, hbegan⟩
    rw [AgentState.applyAll_cons]
    rcases List.mem_cons.mp hbegan with rfl | hbegan
    · cases he
    · exact asks_applyAll_began hrest ⟨c, an, t, hbegan⟩
  cases hwrites with
  | own hown => exact ⟨fun hasks _ => asks_applyAll_own hown hasks, asks_applyAll_began hown⟩
  | asked report asks rest hc hrun he hrest =>
    exact ⟨fun _ hnot => absurd hrun (hnot report hc), he ▸ hbehind hrest rfl⟩
  | recorded event atMs rest hc he hrest =>
    rw [he]
    refine ⟨fun hasks _ => ?_, hbehind hrest rfl⟩
    rw [AgentState.applyAll_cons]
    exact asks_applyAll_own hrest hasks
  | hooks records ms he =>
    obtain ⟨hkept, hnone⟩ := hquiet (by
      rw [he]
      refine List.forall_mem_append.mpr ⟨AgentActor.hookEvents_not_queues _ _ _, fun e he => ?_⟩
      obtain ⟨message, -, rfl⟩ := List.mem_map.mp he
      rfl)
    exact ⟨fun hasks _ => hkept hasks, fun hbegan => absurd hbegan hnone⟩
  | progress hc =>
    obtain ⟨hkept, hnone⟩ := hquiet (hplain es hc)
    exact ⟨fun hasks _ => hkept hasks, fun hbegan => absurd hbegan hnone⟩
  | seeded st seed message hc hlog hin he =>
    rw [hc] at htame
    have hseeded : (m.world.state.applyAll es).asks = [] := by
      rw [he, AgentState.applyAll_cons, AgentState.applyAll_cons, AgentState.applyAll_nil,
        AgentState.applyEvent_received_asks]
      cases seed <;> exact htame.2
    exact ⟨fun _ _ => hseeded, fun _ => hseeded⟩

/-- A turn that is in flight behind a handler leaves no question pending. -/
theorem calm_handle (h : m.Sound) (hm : m.world.mailbox = mail :: rest) (env : Env)
    (hbusy : (m.world.effect m.kind.params env mail).actor.busy = true) :
    (m.world.state.applyAll (m.world.effect m.kind.params env mail).events).asks = [] := by
  obtain ⟨hkept, hbegan⟩ := handle_asks h hm env
  have hfence := fence h.reachable
  by_cases hp : mail.isPrepared = true
  · refine hkept (h.calm ?_) fun report hreport => ?_
    · simp [AgentActor.busy, hfence.prepared_head hm hp]
    · simp [Mail.isPrepared, hreport] at hp
  by_cases hb : (m.world.actor.cleared mail.cmd).busy = false
  · rcases effect_idle_or h.reachable env hm (Bool.eq_false_iff.mpr hp) hb with hidle | hbegins
    · rw [hidle] at hbusy
      cases hbusy
    · exact hbegan hbegins
  · have hnot : ∀ report, mail.cmd = .run (.runFinished report) →
        m.world.actor.runId ≠ some report.runId := by
      intro report hcmd hrun
      have hprep := hfence.preparing hrun
      refine hb ?_
      simp [hcmd, AgentActor.cleared, hrun, AgentActor.busy, hprep]
    refine hkept (h.calm ?_) hnot
    have hcleared : m.world.actor.cleared mail.cmd = m.world.actor := by
      unfold AgentActor.cleared
      split
      · rename_i report hcmd
        rw [if_neg (hnot report hcmd)]
      · rename_i p hcmd
        exact absurd (by simp [Mail.isPrepared, hcmd]) hp
      all_goals rfl
    rw [hcleared] at hb
    simpa using hb

/-! ## A step of an agent -/

theorem sound_boot (kind : SessionAgentKind) : Member.Sound ⟨kind, .boot⟩ :=
  ⟨reachable_boot, (fun h => by cases h), fun mail h => absurd h List.not_mem_nil,
    fun _ _ _ _ h => absurd h List.not_mem_nil⟩

theorem accepted_handle (h : m.Sound) (hm : m.world.mailbox = mail :: rest) (env : Env) :
    (fold m.world.state.log).accepted ⊆ (fold (m.world.state.applyAll
        (m.world.effect m.kind.params env mail).events).log).accepted ∧
      ∀ id text artifacts atMs, .received (.user id text artifacts) atMs ∈
          (m.world.effect m.kind.params env mail).events →
        id ∈ (fold (m.world.state.applyAll
          (m.world.effect m.kind.params env mail).events).log).accepted := by
  rcases handle_events h hm env with ⟨st, seed, message, hseed, -, -, he⟩ | ⟨-, hsmooth⟩
  · obtain ⟨-, hlog, -⟩ := seed?_eq_some hm hseed
    rw [he, hlog, AgentState.applyAll_cons]
    refine ⟨List.nil_subset _, fun id text artifacts atMs hmem => ?_⟩
    rcases List.mem_cons.mp hmem with hmem | hmem
    · cases hmem
    · exact accepted_of_received (by simp) hmem
  · exact ⟨accepted_subset_of_initial (AgentState.applyAll_log _ hsmooth.seedless),
      fun _ _ _ _ hmem => accepted_of_received hsmooth.seedless hmem⟩

variable {l : Label} {w : World}

theorem Member.Sound.step (h : m.Sound)
    (hc : ∀ c ∈ commands l, Tame c) (hs : World.Step m.kind.params m.world l w) :
    Member.Sound { m with world := w } := by
  have hreach : (agentSystem m.kind.params).Reachable w := h.reachable.step hs
  have htold : ∀ {mail : Mail}, Tame mail.cmd → ∀ mail' ∈ m.world.mailbox ++ [mail],
      Tame mail'.cmd := fun hmail =>
    List.forall_mem_append.mpr ⟨h.tame, by simpa using hmail⟩
  cases hs with
  | @load env ready queued hq =>
    refine ⟨hreach, fun hbusy => ?_, ?_, h.accepted⟩
    · rcases AgentActor.onRecoveryComplete_cases (AgentActor.new ready) m.kind.params env
        m.world.state with ⟨-, hactor, -⟩ | ⟨hself, -⟩
      · have hidle : (m.world.load m.kind.params env ready queued).actor = AgentActor.new ready :=
          hactor
        rw [hidle] at hbusy
        cases hbusy
      · simp [AgentActor.selfContinues, SessionAgentKind.params] at hself
    · refine List.forall_mem_append.mpr ⟨fun mail hmail => ?_, fun mail hmail => ?_⟩
      · obtain ⟨c, hmem, rfl⟩ := List.mem_map.mp hmail
        exact hc c hmem
      · obtain ⟨c, hmem, rfl⟩ := List.mem_map.mp hmail
        rw [AgentActor.onRecoveryComplete_tells _ _ _ _ c hmem]
        trivial
  | send => exact ⟨hreach, h.calm, htold (hc _ (List.mem_singleton_self _)), h.accepted⟩
  | emit | finish | prepared => exact ⟨hreach, h.calm, htold trivial, h.accepted⟩
  | @handle env mail rest _ hm =>
    obtain ⟨hkept, hnew⟩ := accepted_handle h hm env
    refine ⟨hreach, fun hbusy => calm_handle h hm env hbusy, ?_,
      fun id text artifacts atMs hmem => ?_⟩
    · refine List.forall_mem_append.mpr ⟨fun mail' hmail => ?_, fun mail' hmail => ?_⟩
      · exact h.tame mail' (hm ▸ List.mem_cons_of_mem _ hmail)
      · obtain ⟨c, hmem, rfl⟩ := List.mem_map.mp hmail
        rw [((fence h.reachable).launch m.kind.params env hm).modest c hmem]
        trivial
    · rcases List.mem_append.mp hmem with hmem | hmem
      · exact hkept (h.accepted id text artifacts atMs hmem)
      · exact hnew id text artifacts atMs hmem
  | die =>
    exact ⟨hreach, (fun hbusy => by cases hbusy),
      fun mail hmail => absurd hmail List.not_mem_nil, h.accepted⟩

/-- The client knows of every message it knew of before. -/
theorem Member.Sound.accepted_step (h : m.Sound)
    (hs : World.Step m.kind.params m.world l w) :
    (fold m.world.state.log).accepted ⊆ (fold w.state.log).accepted := by
  cases hs with
  | @handle env mail rest _ hm => exact (accepted_handle h hm env).1
  | load | send | emit | finish | prepared | die => exact List.Subset.refl _

theorem Member.received_of_hasReceived {item : Incoming} (h : m.hasReceived item = true) :
    ∃ atMs, .received item atMs ∈ m.world.journal := by
  obtain ⟨e, he, hitem⟩ := List.any_eq_true.mp h
  cases e with
  | received i atMs =>
    obtain rfl := of_decide_eq_true hitem
    exact ⟨atMs, he⟩
  | _ => cases hitem

/-- Whether a step keeps the two folds agreed: it takes no seed, or one whose log is settled. -/
def Member.settles (m : Member) : Label → Bool
  | .handle _ => (seed? m).all fun p => settled p.1
  | .load _ _ _ | .send _ | .emit _ _ | .finish _ | .prepared _ | .die _ => true

theorem agreed_step (h : m.Sound) (hagreed : Agreed m.world.state)
    (hs : World.Step m.kind.params m.world l w) : Agreed w.state ↔ m.settles l = true := by
  cases hs with
  | @handle env mail rest _ hm =>
    show Agreed (m.world.state.applyAll (m.world.effect m.kind.params env mail).events) ↔
      (seed? m).all (fun p => settled p.1) = true
    rcases handle_events h hm env with ⟨st, seed, message, hseed, hin, hasks, he⟩ | ⟨hseed, hsmooth⟩
    · rw [he, hseed]
      have hreceived : Agreed ((m.world.state.applyEvent (.seeded st seed)).applyEvent
          (.received message env.now)) ↔ Agreed (m.world.state.applyEvent (.seeded st seed)) :=
        (agreed_receive message env.now).trans (agreed_congr rfl rfl rfl rfl)
      exact hreceived.trans (agreed_seeded hin hasks seed)
    · rw [hseed]
      exact iff_of_true (hsmooth.agreed hagreed) rfl
  | load | send | emit | finish | prepared | die => exact iff_of_true hagreed rfl

end Horsie.Client
