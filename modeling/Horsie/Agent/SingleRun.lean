import Horsie.Agent.World

/-!
# At most one run

`Fence` ties the tasks and the mailbox to the actor's bookkeeping: the live run tasks and the
reports still to be handled are exactly the run the actor has installed, and the same for the
preparation. It holds of every reachable world, so a run is started only when none is in flight
(`single_run`).
-/

namespace Horsie.Agent

def Mail.report? (m : Mail) : Option ℕ :=
  match m.cmd with
  | .run (.runFinished report) => some report.runId
  | .run (.cancel _) | .run (.persistProgress _) | .queue _ | .timer _ | .taskList _ | .read
  | .log _ | .seed _ | .shutdown => none

def Mail.isPrepared (m : Mail) : Bool :=
  match m.cmd with
  | .queue (.startPrepared _) => true
  | .queue (.enqueue _ _) | .queue (.answer _) | .queue .drain | .run _ | .timer _ | .taskList _
  | .read | .log _ | .seed _ | .shutdown => false

/-- The bookkeeping `a` of an actor accounts for its run tasks, its prepare tasks and what they
left in the mailbox. -/
structure FenceAt (a : AgentActor) (runs : List LiveRun) (prepares : List Turn)
    (mailbox : List Mail) : Prop where
  reports : runs.map (·.task.id) ++ mailbox.filterMap Mail.report? = a.runId.toList
  prepares : prepares.length + mailbox.countP Mail.isPrepared = a.preparing.toNat
  apart : a.preparing = true → a.runId = none
  senders : ∀ m ∈ mailbox, ∀ k, m.sender = .run k → a.runId = some k
  last : mailbox.Pairwise fun m x => m.report?.isSome → ∀ k, x.sender ≠ .run k

def Fence (w : World) : Prop := FenceAt w.actor w.runs w.prepares w.mailbox

section

variable {a : AgentActor} {runs : List LiveRun} {prepares : List Turn} {mailbox : List Mail}

/-- A command that is neither a report nor a preparation, from no run, changes nothing. -/
theorem FenceAt.append (h : FenceAt a runs prepares mailbox) {ms : List Mail}
    (hr : ∀ m ∈ ms, m.report? = none) (hp : ∀ m ∈ ms, m.isPrepared = false)
    (hs : ∀ m ∈ ms, ∀ k, m.sender ≠ .run k) : FenceAt a runs prepares (mailbox ++ ms) where
  reports := by
    rw [List.filterMap_append, List.filterMap_eq_nil_iff.mpr hr, List.append_nil]
    exact h.reports
  prepares := by
    have hzero : ms.countP Mail.isPrepared = 0 :=
      List.countP_eq_zero.mpr fun m hm => by simp [hp m hm]
    rw [List.countP_append, hzero]
    exact h.prepares
  apart := h.apart
  senders m hm k hk := by
    rcases List.mem_append.mp hm with hm | hm
    · exact h.senders m hm k hk
    · exact absurd hk (hs m hm k)
  last := List.pairwise_append.mpr
    ⟨h.last, List.pairwise_of_forall_mem_list fun _ _ x hx _ => hs x hx,
      fun _ _ x hx _ => hs x hx⟩

theorem FenceAt.live (h : FenceAt a runs prepares mailbox) {pre post : List LiveRun} {r : LiveRun}
    (hr : runs = pre ++ r :: post) :
    pre = [] ∧ post = [] ∧ mailbox.filterMap Mail.report? = [] ∧ a.runId = some r.task.id := by
  have hrep := h.reports
  rw [hr] at hrep
  cases hid : a.runId with
  | none =>
    rw [hid] at hrep
    simp at hrep
  | some k =>
    rw [hid] at hrep
    cases pre with
    | nil =>
      simp only [List.nil_append, List.map_cons, List.cons_append, Option.toList_some,
        List.cons.injEq, List.append_eq_nil_iff, List.map_eq_nil_iff] at hrep
      exact ⟨rfl, hrep.2.1, hrep.2.2, by rw [hrep.1]⟩
    | cons p pre => simp at hrep

theorem FenceAt.report_head {mail : Mail} {rest : List Mail}
    (h : FenceAt a runs prepares (mail :: rest)) {k : ℕ} (hk : mail.report? = some k) :
    a.runId = some k ∧ runs = [] ∧ rest.filterMap Mail.report? = [] := by
  have hrep := h.reports
  rw [List.filterMap_cons, hk] at hrep
  cases hid : a.runId with
  | none => simp [hid] at hrep
  | some j =>
    cases runs with
    | nil =>
      rw [hid] at hrep
      simp only [List.map_nil, List.nil_append, Option.toList_some, List.cons.injEq] at hrep
      exact ⟨by rw [hrep.1], rfl, hrep.2⟩
    | cons r runs => simp [hid] at hrep

theorem FenceAt.cleared {mail : Mail} {rest : List Mail}
    (h : FenceAt a runs prepares (mail :: rest)) :
    FenceAt (a.cleared mail.cmd) runs prepares rest := by
  have hlast := (List.pairwise_cons.mp h.last).2
  have hsend : ∀ m ∈ rest, ∀ k, m.sender = .run k → a.runId = some k := fun m hm =>
    h.senders m (List.mem_cons_of_mem _ hm)
  have hrep := h.reports
  have hprep := h.prepares
  rw [List.filterMap_cons] at hrep
  rw [List.countP_cons] at hprep
  have hother : mail.report? = none → mail.isPrepared = false → a.cleared mail.cmd = a →
      FenceAt (a.cleared mail.cmd) runs prepares rest := by
    intro hr hp ha
    rw [ha]
    rw [hr] at hrep
    rw [hp] at hprep
    exact ⟨hrep, by simpa using hprep, h.apart, hsend, hlast⟩
  obtain ⟨sender, cmd⟩ := mail
  match cmd with
  | .run (.runFinished report) =>
    have hcur := h.report_head rfl
    have hsilent := (List.pairwise_cons.mp h.last).1
    have hcl : a.cleared (.run (.runFinished report)) =
        { a with running := none, cancelAcks := 0 } := if_pos hcur.1
    simp only [hcl]
    refine ⟨?_, by simpa [Mail.isPrepared] using hprep, fun _ => rfl, fun m hm k hk =>
      absurd hk (hsilent m hm rfl k), hlast⟩
    rw [hcur.2.1, hcur.2.2]
    rfl
  | .queue (.startPrepared p) =>
    have hpr : a.preparing = true := by
      cases hpr : a.preparing with
      | true => rfl
      | false =>
        rw [hpr] at hprep
        simp [Mail.isPrepared] at hprep
    refine ⟨hrep, ?_, fun hf => absurd hf (by simp [AgentActor.cleared]), hsend, hlast⟩
    rw [hpr] at hprep
    simp only [Mail.isPrepared, if_true, Bool.toNat_true] at hprep
    simp only [AgentActor.cleared, Bool.toNat_false]
    omega
  | .queue (.enqueue _ _) | .queue (.answer _) | .queue .drain | .run (.cancel _)
  | .run (.persistProgress _) | .timer _ | .taskList _ | .read | .log _ | .seed _ | .shutdown =>
    exact hother rfl rfl rfl

theorem FenceAt.idle (h : FenceAt a runs prepares mailbox) (hb : a.busy = false) :
    runs = [] ∧ prepares = [] ∧ (∀ m ∈ mailbox, m.report? = none) ∧
      (∀ m ∈ mailbox, m.isPrepared = false) ∧ ∀ m ∈ mailbox, ∀ k, m.sender ≠ .run k := by
  obtain ⟨hrun, hprep⟩ := AgentActor.busy_eq_false.mp hb
  have hrep := h.reports
  have hpre := h.prepares
  rw [hrun, Option.toList_none, List.append_eq_nil_iff, List.map_eq_nil_iff] at hrep
  rw [hprep, Bool.toNat_false] at hpre
  have hcount : mailbox.countP Mail.isPrepared = 0 := by omega
  refine ⟨hrep.1, List.length_eq_zero_iff.mp (by omega), List.filterMap_eq_nil_iff.mp hrep.2,
    fun m hm => ?_, fun m hm k hk => ?_⟩
  · simpa using List.countP_eq_zero.mp hcount m hm
  · rw [h.senders m hm k hk] at hrun
    cases hrun

theorem FenceAt.launch {e : Effect} (h : FenceAt a runs prepares mailbox)
    (hl : AgentActor.Launch a e) :
    FenceAt e.actor (runs ++ e.runs.map (⟨·, []⟩)) (prepares ++ e.prepares) mailbox := by
  cases hl with
  | quiet _ hr hp hrun hprep hnext =>
    rw [hr, hp, List.map_nil, List.append_nil, List.append_nil]
    exact ⟨hrun ▸ h.reports, hprep ▸ h.prepares, by rw [hrun, hprep]; exact h.apart,
      fun m hm k hk => hrun ▸ h.senders m hm k hk, h.last⟩
  | ran task _ hr hp hb hid hrun hprep hnext =>
    obtain ⟨rfl, rfl, hrep, hpre, hsend⟩ := h.idle hb
    rw [hr, hp]
    refine ⟨?_, ?_, fun hf => absurd hf (by simp [hprep]), fun m hm k hk =>
      absurd hk (hsend m hm k), h.last⟩
    · rw [List.filterMap_eq_nil_iff.mpr hrep, hrun]
      simp [hid]
    · rw [List.countP_eq_zero.mpr fun m hm => by simp [hpre m hm], hprep]
      rfl
  | prepared turn _ hr hp hb hrun hprep hnext =>
    obtain ⟨rfl, rfl, hrep, hpre, hsend⟩ := h.idle hb
    rw [hr, hp]
    refine ⟨?_, ?_, fun _ => hrun, fun m hm k hk => absurd hk (hsend m hm k), h.last⟩
    · rw [List.filterMap_eq_nil_iff.mpr hrep, hrun]
      rfl
    · rw [List.countP_eq_zero.mpr fun m hm => by simp [hpre m hm], hprep]
      rfl

end

/-! ## The fence in every reachable world -/

variable {params : AgentParams} {w w' : World}

/-- A command from outside, or the actor's own drains and repairs, is no report. -/
theorem external_not_report {c : AgentCommand} (hc : c.external = true) (s : Sender) :
    (Mail.mk s c).report? = none ∧ (Mail.mk s c).isPrepared = false := by
  match c, hc with
  | .queue (.enqueue _ _), _ | .queue (.answer _), _ | .run (.cancel _), _ | .timer _, _
  | .taskList _, _ | .read, _ | .log _, _ | .seed _, _ | .shutdown, _ => exact ⟨rfl, rfl⟩

variable {mail : Mail} {rest : List Mail}

theorem Fence.prepared_head (h : Fence w)
    (hm : w.mailbox = mail :: rest) (hp : mail.isPrepared = true) : w.actor.preparing = true := by
  have h' : FenceAt w.actor w.runs w.prepares (mail :: rest) := hm ▸ h
  have hcount := h'.prepares
  rw [List.countP_cons, hp] at hcount
  cases hprep : w.actor.preparing with
  | true => rfl
  | false => simp [hprep] at hcount

theorem Fence.preparing_head (h : Fence w)
    (hm : w.mailbox = mail :: rest) :
    ∀ p, mail.cmd = .queue (.startPrepared p) → w.actor.runId = none := by
  intro p hp
  exact h.apart (h.prepared_head hm (by rw [Mail.isPrepared, hp]))

theorem Fence.preparing (h : Fence w) {k : ℕ} (hrun : w.actor.runId = some k) :
    w.actor.preparing = false := by
  cases hp : w.actor.preparing with
  | false => rfl
  | true => exact absurd (h.apart hp) (by simp [hrun])

/-- Handling the head of the mailbox launches at most one thing, and only when nothing is left in
flight. -/
theorem Fence.launch (h : Fence w) (params : AgentParams) (env : Env)
    (hm : w.mailbox = mail :: rest) :
    AgentActor.Launch (w.actor.cleared mail.cmd) (w.effect params env mail) :=
  w.actor.handleCommand_launch params env w.state mail.cmd (h.preparing_head hm)

theorem fence_perform (h : Fence w) {env : Env}
    (hm : w.mailbox = mail :: rest) :
    Fence (w.perform mail rest (w.effect params env mail)) := by
  have h' : FenceAt w.actor w.runs w.prepares (mail :: rest) := hm ▸ h
  have hl := h.launch params env hm
  have hnew : ∀ m ∈ (w.effect params env mail).tells.map (Mail.mk .self ·),
      m = ⟨.self, .queue .drain⟩ := by
    intro m hm
    obtain ⟨c, hc, rfl⟩ := List.mem_map.mp hm
    rw [hl.modest c hc]
  have hfence := (h'.cleared.launch hl).append
   
    (fun m hm => by rw [hnew m hm]; rfl) (fun m hm => by rw [hnew m hm]; rfl)
    (fun m hm k => by rw [hnew m hm]; simp)
  exact ⟨hfence.reports, hfence.prepares, hfence.apart, hfence.senders, hfence.last⟩

theorem fence_load (w : World) (params : AgentParams) (env : Env) (ready : Bool)
    {queued : List AgentCommand} (hq : ∀ c ∈ queued, c.external = true) :
    Fence (w.load params env ready queued) := by
  have hempty : FenceAt (AgentActor.new ready) [] [] [] :=
    ⟨rfl, rfl, fun hf => absurd hf (by simp [AgentActor.new]),
      fun m hm => absurd hm List.not_mem_nil, .nil⟩
  have hstart : FenceAt ((AgentActor.new ready).onRecoveryComplete params env w.state).actor
      (((AgentActor.new ready).onRecoveryComplete params env w.state).runs.map (⟨·, []⟩)) []
      [] := by
    rcases (AgentActor.new ready).onRecoveryComplete_cases params env w.state with
      ⟨-, ha, hr⟩ | ⟨-, ha, hr⟩
    · rw [ha, hr]
      exact hempty
    · rw [ha, hr]
      exact hempty.launch (AgentActor.startRun_launch rfl _ _ _ _ _)
  refine (hstart.append
    (fun m hm => ?_) (fun m hm => ?_) (fun m hm k => ?_) :)
  all_goals
    rcases List.mem_append.mp hm with hm | hm
    · obtain ⟨c, hc, rfl⟩ := List.mem_map.mp hm
      have := external_not_report (hq c hc) .client
      simp [this]
    · obtain ⟨c, hc, rfl⟩ := List.mem_map.mp hm
      rw [AgentActor.onRecoveryComplete_tells _ _ _ _ c hc]
      simp [Mail.report?, Mail.isPrepared]

theorem fence_step {l : Label} (h : Fence w) (hs : World.Step params w l w') : Fence w' := by
  cases hs with
  | load hq => exact fence_load w params _ _ hq
  | @send cmd _ hc =>
    have := external_not_report hc .client
    exact FenceAt.append h (by simp [this]) (by simp [this]) (by simp)
  | @emit pre post r event pending _ hr _ =>
    obtain ⟨rfl, rfl, hrep, hid⟩ := FenceAt.live h hr
    have hnone := List.filterMap_eq_nil_iff.mp hrep
    refine ⟨?_, ?_, h.apart, fun m hm k hk => ?_, ?_⟩
    · simp [World.tell, hrep, hid, Mail.report?]
    · simpa [World.tell, Mail.isPrepared] using h.prepares
    · rcases List.mem_append.mp hm with hm | hm
      · exact h.senders m hm k hk
      · rw [List.mem_singleton.mp hm] at hk
        cases hk
        exact hid
    · exact List.pairwise_append.mpr ⟨h.last, List.pairwise_singleton _ _,
        fun m hm _ _ hm' => absurd hm' (by simp [hnone m hm])⟩
  | @finish pre post r report _ hr hid _ =>
    obtain ⟨rfl, rfl, hrep, hrun⟩ := FenceAt.live h hr
    have hnone := List.filterMap_eq_nil_iff.mp hrep
    refine ⟨?_, ?_, h.apart, fun m hm k hk => ?_, ?_⟩
    · simp [World.tell, Mail.report?, hrep, hrun, hid]
    · simpa [World.tell, Mail.isPrepared] using h.prepares
    · rcases List.mem_append.mp hm with hm | hm
      · exact h.senders m hm k hk
      · rw [List.mem_singleton.mp hm] at hk
        cases hk
        exact hrun
    · exact List.pairwise_append.mpr ⟨h.last, List.pairwise_singleton _ _,
        fun m hm _ _ hm' => absurd hm' (by simp [hnone m hm])⟩
  | @prepared pre post turn answer _ hp =>
    have hcount := h.prepares
    rw [hp] at hcount
    simp only [List.length_append, List.length_cons] at hcount
    refine ⟨?_, ?_, h.apart, fun m hm k hk => ?_, ?_⟩
    · rw [World.tell, List.filterMap_append, List.filterMap_cons_none rfl]
      simpa using h.reports
    · simp only [World.tell, List.length_append, List.countP_append, List.countP_singleton,
        Mail.isPrepared, if_true]
      omega
    · rcases List.mem_append.mp hm with hm | hm
      · exact h.senders m hm k hk
      · rw [List.mem_singleton.mp hm] at hk
        cases hk
    · refine List.pairwise_append.mpr ⟨h.last, List.pairwise_singleton _ _, fun m _ x hx _ k => ?_⟩
      rw [List.mem_singleton.mp hx]
      simp
  | handle _ hm => exact fence_perform h hm
  | die _ _ =>
    exact ⟨rfl, rfl, fun hf => absurd hf (by simp [World.die, AgentActor.new]),
      fun m hm => absurd hm List.not_mem_nil, .nil⟩

theorem fence_boot : Fence World.boot :=
  ⟨rfl, rfl, fun hf => absurd hf (by simp [World.boot, AgentActor.new]),
    fun _ hm => absurd hm List.not_mem_nil, .nil⟩

theorem fence (hw : (agentSystem params).Reachable w) : Fence w := by
  refine hw.invariant (fun s hs => ?_) fun s l t _ h hs => ?_
  · rw [show s = World.boot from hs]
    exact fence_boot
  · exact fence_step h hs

/-! ## What a mailbox holds -/

/-- A command some sender puts into a mailbox. -/
inductive Mailed : Mail → Prop
  | client {c : AgentCommand} (h : c.external = true) : Mailed ⟨.client, c⟩
  | drain : Mailed ⟨.self, .queue .drain⟩
  | repair (s : AgentState) (now : ℕ) :
      Mailed ⟨.self, .run (.persistProgress
        ((missingToolResults s.promptMessages s.parkedCallIds now).map .inputMessage))⟩
  | progress {k : ℕ} {e : AgentDomainEvent} {pending pending' : List String}
      (h : emits pending e = some pending') : Mailed ⟨.run k, .run (.persistProgress [e])⟩
  | report {k : ℕ} {r : RunReport} (h : r.runId = k) : Mailed ⟨.run k, .run (.runFinished r)⟩
  | prepared (p : PreparedStart) : Mailed ⟨.prepare, .queue (.startPrepared p)⟩

theorem Mailed.progress_events {m : Mail} (h : Mailed m) {es : List AgentDomainEvent}
    (hc : m.cmd = .run (.persistProgress es)) :
    (∃ ms : List Message, es = ms.map .inputMessage) ∨
      ∃ e pending pending', es = [e] ∧ emits pending e = some pending' := by
  cases h with
  | client hc' =>
    dsimp only at hc
    simp [hc, AgentCommand.external] at hc'
  | drain | report | prepared => cases hc
  | repair s now =>
    cases hc
    exact .inl ⟨_, rfl⟩
  | @progress k e pending pending' he =>
    cases hc
    exact .inr ⟨e, pending, pending', rfl, he⟩

theorem mailed (hw : (agentSystem params).Reachable w) : ∀ m ∈ w.mailbox, Mailed m := by
  refine hw.invariant (I := fun w => ∀ m ∈ w.mailbox, Mailed m) (fun s hs => ?_)
    fun s l t hr h hs => ?_
  · rw [show s = World.boot from hs]
    exact fun m hm => absurd hm List.not_mem_nil
  · have hsnoc : ∀ {mail : Mail}, Mailed mail → ∀ m ∈ s.mailbox ++ [mail], Mailed m := by
      intro mail hmail m hm
      rcases List.mem_append.mp hm with hm | hm
      · exact h m hm
      · rwa [List.mem_singleton.mp hm]
    cases hs with
    | load hq =>
      intro m hm
      rcases List.mem_append.mp hm with hm | hm
      · obtain ⟨c, hc, rfl⟩ := List.mem_map.mp hm
        exact .client (hq c hc)
      · obtain ⟨c, hc, rfl⟩ := List.mem_map.mp hm
        rw [AgentActor.onRecoveryComplete_tells _ _ _ _ c hc]
        exact .repair _ _
    | send _ hc => exact hsnoc (.client hc)
    | emit _ _ he => exact hsnoc (.progress he)
    | finish _ _ hid _ => exact hsnoc (.report hid)
    | prepared _ _ => exact hsnoc (.prepared _)
    | @handle env mail rest _ hm =>
      intro m hmem
      rcases List.mem_append.mp hmem with hmem | hmem
      · exact h m (hm ▸ List.mem_cons_of_mem _ hmem)
      · obtain ⟨c, hc, rfl⟩ := List.mem_map.mp hmem
        rw [((fence hr).launch params env hm).modest c hc]
        exact .drain
    | die _ _ => exact fun m hm => absurd hm List.not_mem_nil

theorem handleFinished_stale (a : AgentActor) (params : AgentParams) (env : Env)
    (state : AgentState) {report : RunReport} (h : a.runId ≠ some report.runId) :
    a.handleFinished params env state report = { actor := a } := if_neg h

/-- In every reachable world at most one run task is live, and it is the run the actor has
installed. A handler starts a run only when no run task is live, none has its report still to be
handled, and the actor, the turn the command itself ends apart, is not busy; loading starts one
only in a fresh incarnation. What a run sends, batch or report, is of the installed run as long as
it is in the mailbox, and the report of any other run changes neither the state nor the actor. -/
theorem single_run (params : AgentParams) {w : World} (hw : (agentSystem params).Reachable w) :
    w.runs.length ≤ 1 ∧
    (∀ r ∈ w.runs, w.actor.runId = some r.task.id) ∧
    (∀ env mail rest, w.mailbox = mail :: rest → (w.effect params env mail).runs ≠ [] →
      w.runs = [] ∧ (∀ m ∈ rest, m.report? = none) ∧ (w.actor.cleared mail.cmd).busy = false) ∧
    (∀ env ready queued, ((w.load params env ready queued).runs).length ≤ 1) ∧
    (∀ mail ∈ w.mailbox, ∀ k, mail.sender = .run k → w.actor.runId = some k) ∧
    (∀ env (a : AgentActor) state report, a.runId ≠ some report.runId →
      (a.handleFinished params env state report).actor = a ∧
        state.applyAll (a.handleFinished params env state report).events = state) := by
  have h := fence hw
  have hlen : ∀ {a : AgentActor} {rs ps mb}, FenceAt a rs ps mb → rs.length ≤ 1 := by
    intro a rs ps mb hf
    have := congrArg List.length hf.reports
    rw [List.length_append, List.length_map] at this
    have : a.runId.toList.length ≤ 1 := by cases a.runId <;> simp
    omega
  refine ⟨hlen h, fun r hr => ?_, fun env mail rest hm hrun => ?_, fun env ready queued => ?_,
    h.senders, fun env a state report hk => ?_⟩
  · obtain ⟨pre, post, hsplit⟩ := List.append_of_mem hr
    exact (FenceAt.live h hsplit).2.2.2
  · have h' : FenceAt w.actor w.runs w.prepares (mail :: rest) := hm ▸ h
    cases h.launch params env hm with
    | quiet _ hr => exact absurd hr hrun
    | ran task _ _ _ hb =>
      obtain ⟨hruns, -, hrep, -⟩ := h'.cleared.idle hb
      exact ⟨hruns, hrep, hb⟩
    | prepared turn _ hr => exact absurd hr hrun
  · have hf : Fence (w.load params env ready []) := fence_load w params env ready (by simp)
    exact hlen hf
  · rw [handleFinished_stale a params env state hk]
    exact ⟨rfl, rfl⟩

/-- A user message that reached the agent and was drained. -/
def startedWorld : World :=
  (World.boot.steps? ⟨false, true, false⟩
    [.load ⟨0, "m0", "a0", "t0", false⟩ true [.queue (.enqueue (.user "u0" "hello" []) true)],
      .handle ⟨1, "m1", "a1", "t1", false⟩, .handle ⟨2, "m2", "a2", "t2", false⟩]).get (by decide)

theorem single_run_started :
    startedWorld.runs.map (·.task.id) = [0] ∧ startedWorld.runs.length ≤ 1 ∧
      ∀ r ∈ startedWorld.runs, startedWorld.actor.runId = some r.task.id :=
  have h := single_run _ (reachable_steps? (by decide) :
    (agentSystem ⟨false, true, false⟩).Reachable startedWorld)
  ⟨by decide, h.1, h.2.1⟩

end Horsie.Agent
