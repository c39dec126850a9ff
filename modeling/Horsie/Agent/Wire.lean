import Horsie.Agent.Answering
import Mathlib.Data.List.Dedup

/-!
# Every run is started on a well-formed history

`Wired` is what keeps the log of a running system tidy: what the questions, the turn in its start
hooks and the run in flight may still answer are pairwise different open calls of the newest
message. The mailbox plays the run in flight forward (`Plays`): what the run sent, in the order it
is handled, takes the calls open in the log to the calls open in the run.

The discipline is kept by every step that is `Orderly`. Under it every run starts on a history in
which each tool call has exactly one result, in the run of tool messages directly after it
(`wire_well_formed`). The steps that are not orderly journal something between a call and its
result.
-/

namespace Horsie.Agent

open AgentState (Grows Tidy)

/-! ## What a mailbox holds -/

/-- What a run sent: an event of its progress, or how it ended. -/
inductive Sent
  | event (e : AgentDomainEvent)
  | report (outcome : RunOutcome)

namespace Mail

def sent? (m : Mail) : Option Sent :=
  match m.sender, m.cmd with
  | .run _, .run (.persistProgress [e]) => some (.event e)
  | .run _, .run (.runFinished report) => some (.report report.outcome)
  | _, _ => none

def prepared? (m : Mail) : Option Turn :=
  match m.cmd with
  | .queue (.startPrepared prepared) => some prepared.turn
  | _ => none

/-- Whether this journals the results a reload found missing. -/
def isRepair (m : Mail) : Bool :=
  match m.sender, m.cmd with
  | .self, .run (.persistProgress _) => true
  | _, _ => false

/-- Progress and reports come from runs, one event at a time, and repairs from the agent itself. -/
def Genuine (m : Mail) : Prop :=
  match m.cmd with
  | .run (.runFinished _) => ∃ k, m.sender = .run k
  | .run (.persistProgress es) =>
    (∃ k e, m.sender = .run k ∧ es = [e]) ∨
      m.sender = .self ∧ ∃ ms : List Message, es = ms.map .inputMessage ∧ ∀ x ∈ ms, x.role = .tool
  | _ => ∀ k, m.sender ≠ .run k

theorem prepared?_eq_none (m : Mail) (h : m.isPrepared = false) : m.prepared? = none := by
  unfold isPrepared at h
  unfold prepared?
  split at h <;> simp_all

theorem sent?_eq_none (m : Mail) (h : ∀ k, m.sender ≠ .run k) : m.sent? = none := by
  cases hs : m.sender with
  | run k => exact absurd hs (h k)
  | client | self | prepare => simp [sent?, hs]

/-- A command that is neither progress, a report nor a preparation. -/
structure Bystander (m : Mail) : Prop where
  genuine : m.Genuine
  sent : m.sent? = none
  prepared : m.prepared? = none
  repair : m.isRepair = false
  sender : ∀ k, m.sender ≠ .run k

end Mail

/-- What a run sent, handled in order, takes the calls `o` to those the run leaves open. -/
def Plays (runs : List LiveRun) : List String → List Sent → Prop
  | o, [] => runs = [] ∧ o = [] ∨ ∃ r, runs = [r] ∧ r.pending = o
  | o, .event e :: rest => ∃ o', emits o e = some o' ∧ Plays runs o' rest
  | o, .report outcome :: rest => endsWith o outcome ∧ rest = [] ∧ runs = []

variable {o : List String}

theorem Plays.emit {r : LiveRun} {pending : List String} {e : AgentDomainEvent} {ss : List Sent}
    (h : Plays [r] o ss) (he : emits r.pending e = some pending) :
    Plays [{ r with pending }] o (ss ++ [.event e]) := by
  induction ss generalizing o with
  | nil =>
    rcases h with ⟨h, -⟩ | ⟨x, hx, rfl⟩
    · cases h
    · obtain rfl := List.singleton_inj.mp hx
      exact ⟨pending, he, .inr ⟨_, rfl, rfl⟩⟩
  | cons s ss ih =>
    cases s with
    | event e' =>
      obtain ⟨o', ho, h⟩ := h
      exact ⟨o', ho, ih h⟩
    | report outcome => exact absurd h.2.2 (by simp)

theorem Plays.finish {r : LiveRun} {outcome : RunOutcome} {ss : List Sent}
    (h : Plays [r] o ss) (he : endsWith r.pending outcome) :
    Plays [] o (ss ++ [.report outcome]) := by
  induction ss generalizing o with
  | nil =>
    rcases h with ⟨h, -⟩ | ⟨x, hx, rfl⟩
    · cases h
    · obtain rfl := List.singleton_inj.mp hx
      exact ⟨he, rfl, rfl⟩
  | cons s ss ih =>
    cases s with
    | event e' =>
      obtain ⟨o', ho, h⟩ := h
      exact ⟨o', ho, ih h⟩
    | report outcome => exact absurd h.2.2 (by simp)

theorem Plays.eq_nil (h : Plays [] o []) : o = [] := by
  rcases h with h | ⟨r, hr, -⟩
  · exact h.2
  · cases hr

/-! ## Orderly steps -/

/-- A provider's message makes only new calls, each once, and answers none. -/
structure Fresh (s : AgentState) (m : Message) : Prop where
  results : m.resultIds = []
  nodup : m.callIds.Nodup
  calls : ∀ c ∈ m.callIds, c ∉ toolExchange.allCalls s.shown
  answers : ∀ c ∈ m.callIds, c ∉ answeredIds s.shown

instance (s : AgentState) (m : Message) : Decidable (Fresh s m) :=
  decidable_of_iff (m.resultIds = [] ∧ m.callIds.Nodup ∧
      (∀ c ∈ m.callIds, c ∉ toolExchange.allCalls s.shown) ∧
      ∀ c ∈ m.callIds, c ∉ answeredIds s.shown)
    ⟨fun h => ⟨h.1, h.2.1, h.2.2.1, h.2.2.2⟩, fun h => ⟨h.results, h.nodup, h.calls, h.answers⟩⟩

/-- A provider's message is fresh, and no question is open. -/
def AgentDomainEvent.FreshFor (s : AgentState) : AgentDomainEvent → Prop
  | .messageComplete m => Fresh s m ∧ s.asks = []
  | _ => True

instance (s : AgentState) (e : AgentDomainEvent) : Decidable (e.FreshFor s) := by
  unfold AgentDomainEvent.FreshFor
  split <;> infer_instance

/-- No hook of these shows the model anything. -/
def Unseen (records : List HookRecord) : Prop := ∀ r ∈ records, r.action.injected? = none

instance (records : List HookRecord) : Decidable (Unseen records) :=
  inferInstanceAs (Decidable (∀ r ∈ records, r.action.injected? = none))

/-- Every call of the newest message has its result. -/
def AgentState.Closed (s : AgentState) : Prop :=
  ∀ c ∈ toolExchange.tailCalls s.shown, c ∈ answeredIds s.shown

instance (s : AgentState) : Decidable s.Closed :=
  inferInstanceAs (Decidable (∀ c ∈ toolExchange.tailCalls s.shown, c ∈ answeredIds s.shown))

namespace World

/-- The turns in their start hooks, or back from them. -/
def preparing (w : World) : List Turn := w.prepares ++ w.mailbox.filterMap Mail.prepared?

/-- The commands that journal nothing between a call and its result:
* progress of a run, when what its provider wrote is fresh;
* the repair of a reload, when the calls are open calls of the newest message;
* the report of a cancelled run, when the calls it left open are of the newest message;
* answers that answer no question twice;
* a prepared turn that carries results only if its hooks show nothing, and other hook records
  that show something only while nothing waits for the result of a call of the newest message;
* a seed that is tidy itself. -/
def OrderlyMail (w : World) (env : Env) (m : Mail) : Prop :=
  match m.cmd with
  | .run (.persistProgress es) =>
    if m.sender = .self then
      toolExchange.Fits w.state.shown (answeredIds (es.flatMap (·.shows)) ++
        (w.state.parkedCallIds ++ w.preparing.flatMap Turn.answering))
    else
      ∀ e ∈ es, e.FreshFor w.state
  | .run (.runFinished report) =>
    report.outcome = .cancelled → AgentActor.CancelsInPlace w.actor env w.state
  | .queue (.answer answers) => (answers.map (·.toolCallId)).Nodup
  | .queue (.startPrepared prepared) => prepared.turn.results = [] ∨ Unseen prepared.records
  | .log (.hooksRan records) =>
    Unseen records ∨ (w.actor.busy = true ∨ w.state.asks ≠ [] → w.state.Closed)
  | .seed (.seedFrom seeded seed _) =>
    w.state.log.isEmpty = true → w.state.inbox.isEmpty = true →
      w.actor.busy = false ∧ seeded.asks = [] ∧
        (seed.elim seeded seeded.pushMessage).Tidy []
  | .queue (.enqueue _ _) | .queue .drain | .run (.cancel _) | .timer _ | .taskList _ | .read
  | .log (.recordLifecycle _ _) | .log (.recordDelta _) | .seed (.snapshot _) | .shutdown => True

def Orderly (w : World) : Label → Prop
  | .handle env => ∀ m ∈ w.mailbox.head?, w.OrderlyMail env m
  | .load _ _ _ | .send _ | .emit _ _ | .finish _ | .prepared _ | .die _ => True

instance (w : World) (env : Env) (m : Mail) : Decidable (w.OrderlyMail env m) := by
  unfold OrderlyMail
  split <;> infer_instance

instance (w : World) (l : Label) : Decidable (w.Orderly l) := by
  unfold Orderly
  split <;> infer_instance

end World

/-! ## The invariant -/

/-- What keeps the log tidy while questions are open, a turn is in its hooks or a run in flight. -/
structure Wired (w : World) : Prop where
  genuine : ∀ m ∈ w.mailbox, m.Genuine
  order : w.mailbox.Pairwise fun x y => y.isRepair = true → ∀ k, x.sender ≠ .run k
  runs : ∀ r ∈ w.runs, r.task.WellFormed
  calm : w.actor.preparing = true → w.state.asks = []
  pledged : ∃ o, w.state.Tidy
      (w.state.parkedCallIds ++ w.preparing.flatMap Turn.answering ++ o) ∧
    Plays w.runs o (w.mailbox.filterMap Mail.sent?) ∧
    ((∃ m ∈ w.mailbox, m.isRepair = true) → o = [])

section

variable {params : AgentParams} {env : Env} {w : World} {mail : Mail} {rest : List Mail}

theorem bystander_drain (m : Mail) (h : m = ⟨.self, .queue .drain⟩) : m.Bystander := by
  subst h
  exact ⟨fun k => by simp, rfl, rfl, rfl, fun k => by simp⟩

theorem bystander_external {c : AgentCommand} (hc : c.external = true) :
    (Mail.mk .client c).Bystander := by
  match c, hc with
  | .queue (.enqueue _ _), _ | .queue (.answer _), _ | .run (.cancel _), _ | .timer _, _
  | .taskList _, _ | .read, _ | .log _, _ | .seed _, _ | .shutdown, _ =>
    exact ⟨fun k => by simp, rfl, rfl, rfl, fun k => by simp⟩

variable {ms : List Mail}

theorem bystander_append (h : ∀ m ∈ ms, m.Bystander) (box : List Mail) :
    (box ++ ms).filterMap Mail.sent? = box.filterMap Mail.sent? ∧
      (box ++ ms).filterMap Mail.prepared? = box.filterMap Mail.prepared? ∧
      ((∃ m ∈ box ++ ms, m.isRepair = true) → ∃ m ∈ box, m.isRepair = true) := by
  refine ⟨?_, ?_, ?_⟩
  · rw [List.filterMap_append, List.filterMap_eq_nil_iff.mpr fun m hm => (h m hm).sent,
      List.append_nil]
  · rw [List.filterMap_append, List.filterMap_eq_nil_iff.mpr fun m hm => (h m hm).prepared,
      List.append_nil]
  · rintro ⟨m, hm, hr⟩
    rcases List.mem_append.mp hm with hm | hm
    · exact ⟨m, hm, hr⟩
    · simp [(h m hm).repair] at hr

theorem bystander_order {box : List Mail} (h : ∀ m ∈ ms, m.Bystander)
    (ho : box.Pairwise fun x y => y.isRepair = true → ∀ k, x.sender ≠ .run k) :
    (box ++ ms).Pairwise fun x y => y.isRepair = true → ∀ k, x.sender ≠ .run k :=
  List.pairwise_append.mpr ⟨ho,
    List.pairwise_of_forall_mem_list fun _ _ y hy hr => by simp [(h y hy).repair] at hr,
    fun _ _ y hy hr => by simp [(h y hy).repair] at hr⟩

theorem genuine_append {box : List Mail} (hb : ∀ m ∈ box, m.Genuine)
    (h : ∀ m ∈ ms, m.Genuine) : ∀ m ∈ box ++ ms, m.Genuine := by
  intro m hm
  rcases List.mem_append.mp hm with hm | hm
  · exact hb m hm
  · exact h m hm

theorem bystander_tells (hfence : Fence w) (hm : w.mailbox = mail :: rest) :
    ∀ m ∈ (w.effect params env mail).tells.map (Mail.mk .self ·), m.Bystander := by
  intro m hmem
  obtain ⟨c, hc, rfl⟩ := List.mem_map.mp hmem
  exact bystander_drain _ (by rw [(hfence.launch params env hm).modest c hc])

/-- A handler that starts nothing, of a command that ends no turn, over a log that stays tidy. -/
theorem Wired.quiet (h : Wired w) (hfence : Fence w) (hm : w.mailbox = mail :: rest)
    (hsent : mail.sent? = none) (hprep : mail.prepared? = none)
    (hcleared : w.actor.cleared mail.cmd = w.actor)
    (hruns : (w.effect params env mail).runs = [])
    (hprepares : (w.effect params env mail).prepares = [])
    (hasks : (w.state.applyAll (w.effect params env mail).events).asks = w.state.asks)
    (hstate : ∀ o, Plays w.runs o (rest.filterMap Mail.sent?) → (mail.isRepair = true → o = []) →
      w.state.Tidy (w.state.parkedCallIds ++ w.preparing.flatMap Turn.answering ++ o) →
      (w.state.applyAll (w.effect params env mail).events).Tidy
        (w.state.parkedCallIds ++ w.preparing.flatMap Turn.answering ++ o)) :
    Wired (w.perform mail rest (w.effect params env mail)) := by
  have htells : ∀ m ∈ (w.effect params env mail).tells.map (Mail.mk .self ·), m.Bystander :=
    bystander_tells hfence hm
  obtain ⟨hs, hp, hr⟩ := bystander_append htells rest
  obtain ⟨o, htidy, hplays, hrepair⟩ := h.pledged
  rw [hm, List.filterMap_cons_none hsent] at hplays
  have hpreparing : (w.perform mail rest (w.effect params env mail)).preparing = w.preparing := by
    simp only [World.preparing, World.perform, hprepares, List.append_nil, hp, hm,
      List.filterMap_cons_none hprep]
  have hflag : (w.effect params env mail).actor.preparing = w.actor.preparing := by
    cases hfence.launch params env hm with
    | quiet _ _ _ _ h => exact h.trans (by rw [hcleared])
    | ran task _ h => simp [hruns] at h
    | prepared turn _ _ h => simp [hprepares] at h
  have hrestg : ∀ m ∈ rest, m.Genuine := fun m hmem =>
    h.genuine m (hm ▸ List.mem_cons_of_mem _ hmem)
  have horder := h.order
  rw [hm] at horder
  refine ⟨genuine_append hrestg fun m hmem => (htells m hmem).genuine,
    bystander_order htells (List.pairwise_cons.mp horder).2, ?_, fun hpf => ?_, o, ?_, ?_,
    fun hx => ?_⟩
  · simpa only [World.perform, hruns, List.map_nil, List.append_nil] using h.runs
  · exact hasks.trans (h.calm (hflag ▸ hpf))
  · have hparked : (w.perform mail rest (w.effect params env mail)).state.parkedCallIds =
        w.state.parkedCallIds := AgentState.parkedCallIds_congr hasks
    rw [hpreparing, hparked]
    exact hstate o hplays (fun hmr => hrepair ⟨mail, hm ▸ List.mem_cons_self, hmr⟩) htidy
  · simpa only [World.perform, hruns, List.map_nil, List.append_nil, hs] using hplays
  · obtain ⟨m, hmem, hmr⟩ := hr hx
    exact hrepair ⟨m, hm ▸ List.mem_cons_of_mem _ hmem, hmr⟩

theorem Wired.mute (h : Wired w) (hfence : Fence w) (hm : w.mailbox = mail :: rest)
    (hsender : ∀ k, mail.sender ≠ .run k) (hprep : mail.prepared? = none)
    (hcleared : w.actor.cleared mail.cmd = w.actor) {e : Effect}
    (he : w.effect params env mail = e) (hruns : e.runs = []) (hprepares : e.prepares = [])
    (hsilent : ∀ x ∈ e.events, x.silent = true) :
    Wired (w.perform mail rest (w.effect params env mail)) := by
  subst he
  obtain ⟨hg, ha⟩ := w.state.applyAll_silent hsilent
  exact h.quiet hfence hm (mail.sent?_eq_none hsender) hprep hcleared hruns hprepares ha
    fun o _ _ ht => ht.still hg

theorem Wired.idle (h : Wired w) (hfence : Fence w) (hm : w.mailbox = mail :: rest)
    (hbusy : (w.actor.cleared mail.cmd).busy = false)
    (hleaves : AgentActor.Leaves w.state (w.effect params env mail)) :
    Wired (w.perform mail rest (w.effect params env mail)) := by
  have htells : ∀ m ∈ (w.effect params env mail).tells.map (Mail.mk .self ·), m.Bystander :=
    bystander_tells hfence hm
  obtain ⟨hs, hp, -⟩ := bystander_append htells rest
  have h' : FenceAt w.actor w.runs w.prepares (mail :: rest) := hm ▸ hfence
  obtain ⟨hruns, hprepares, -, hnoprep, hsenders⟩ := h'.cleared.idle hbusy
  have hsents : rest.filterMap Mail.sent? = [] :=
    List.filterMap_eq_nil_iff.mpr fun m hmem => m.sent?_eq_none (hsenders m hmem)
  have hpreps : rest.filterMap Mail.prepared? = [] :=
    List.filterMap_eq_nil_iff.mpr fun m hmem => m.prepared?_eq_none (hnoprep m hmem)
  have hpreparing : (w.perform mail rest (w.effect params env mail)).preparing =
      (w.effect params env mail).prepares := by
    simp only [World.preparing, World.perform, hprepares, hp, hpreps, List.nil_append,
      List.append_nil]
  have hrestg : ∀ m ∈ rest, m.Genuine := fun m hmem =>
    h.genuine m (hm ▸ List.mem_cons_of_mem _ hmem)
  have horder := h.order
  rw [hm] at horder
  refine ⟨genuine_append hrestg fun m hmem => (htells m hmem).genuine,
    bystander_order htells (List.pairwise_cons.mp horder).2, ?_, fun hpf => ?_, [], ?_, ?_,
    fun _ => rfl⟩
  · intro r hr
    simp only [World.perform, hruns, List.nil_append, List.mem_map] at hr
    obtain ⟨task, ht, rfl⟩ := hr
    exact hleaves.runs task ht
  · refine hleaves.calm fun hnil => ?_
    have hpf : (w.effect params env mail).actor.preparing = true := hpf
    cases hfence.launch params env hm with
    | quiet _ _ _ _ hq => simp [hq, (AgentActor.busy_eq_false.mp hbusy).2] at hpf
    | ran task _ _ _ _ _ _ hq => simp [hq] at hpf
    | prepared turn _ _ hq => simp [hq] at hnil
  · rw [hpreparing, List.append_nil]
    exact hleaves.tidy
  · have hmb : (w.perform mail rest (w.effect params env mail)).mailbox.filterMap Mail.sent? = [] :=
      hs.trans hsents
    rw [hmb]
    have hrs : (w.perform mail rest (w.effect params env mail)).runs =
        (w.effect params env mail).runs.map (⟨·, []⟩) := by
      simp only [World.perform, hruns, List.nil_append]
    rw [hrs]
    cases hfence.launch params env hm with
    | quiet _ hr => exact .inl ⟨by rw [hr]; rfl, rfl⟩
    | ran task _ hr => exact .inr ⟨_, by rw [hr]; rfl, rfl⟩
    | prepared turn _ hr => exact .inl ⟨by rw [hr]; rfl, rfl⟩

/-! ## Progress of a run -/

variable {s : AgentState}

theorem progress_tidy {o o' : List String} {e : AgentDomainEvent}
    (h : s.Tidy (s.parkedCallIds ++ o)) (he : emits o e = some o') (hf : e.FreshFor s) :
    (s.applyEvent e).asks = s.asks ∧
      (s.applyEvent e).Tidy ((s.applyEvent e).parkedCallIds ++ o') := by
  have hasks : (s.applyEvent e).asks = s.asks := by
    refine (s.applyEvent_of_not_queues ?_).2
    cases e <;> first | rfl | simp [emits] at he
  refine ⟨hasks, ?_⟩
  rw [AgentState.parkedCallIds_congr hasks]
  have hgrow : Grows s (s.applyEvent e) e.shows := s.grows_applyEvent (by
    rintro st seed rfl
    simp [emits] at he)
  cases e with
  | messageComplete m =>
    obtain ⟨hfresh, hnone⟩ := hf
    simp only [emits] at he
    split_ifs at he with hrole
    cases he
    have hcalls : assistantCalls m = m.callIds := by simp [assistantCalls, hrole]
    have hnil : s.parkedCallIds = [] := by
      rw [AgentState.parkedCallIds, hnone]
      rfl
    rw [hnil, List.nil_append, ← hcalls]
    exact h.asker hgrow (by simp [hrole]) hfresh.results (hcalls ▸ hfresh.nodup)
      (hcalls ▸ hfresh.calls) (hcalls ▸ hfresh.answers)
  | toolComplete c =>
    simp only [emits] at he
    split_ifs at he with hmem
    cases he
    refine Tidy.replies (s := s) (h.subperm ?_) hgrow fun m hm => ?_
    · have hperm : (s.parkedCallIds ++ o).Perm
          (c.toolCallId :: (s.parkedCallIds ++ o.erase c.toolCallId)) :=
        ((List.perm_cons_erase hmem).append_left _).trans List.perm_middle
      exact (by simpa [answeredIds, AgentDomainEvent.shows, ToolCompletion.message] using
        hperm.symm : (answeredIds [c.message] ++ (s.parkedCallIds ++ o.erase c.toolCallId)).Perm
          (s.parkedCallIds ++ o)).subperm
    · rw [List.mem_singleton.mp hm]
      rfl
  | compacted fact =>
    cases he
    exact (h.subperm (by simpa using (List.sublist_append_left _ _).subperm)).still hgrow
  | runComplete | runAborted =>
    cases he
    exact h.still hgrow
  | lifecycleRecorded event t =>
    cases event with
    | compactionSkipped =>
      cases he
      exact h.still hgrow
    | _ => simp [emits] at he
  | _ => simp [emits] at he

theorem Wired.progress (h : Wired w) (hfence : Fence w) {k : ℕ} {e : AgentDomainEvent}
    (hm : w.mailbox = ⟨.run k, .run (.persistProgress [e])⟩ :: rest) (hf : e.FreshFor w.state) :
    Wired (w.perform ⟨.run k, .run (.persistProgress [e])⟩ rest
      (w.effect params env ⟨.run k, .run (.persistProgress [e])⟩)) := by
  obtain ⟨o, htidy, hplays, -⟩ := h.pledged
  have horder := h.order
  rw [hm] at hplays horder
  obtain ⟨o', he, hplays⟩ := hplays
  have hrun : w.actor.runId = some k :=
    hfence.senders _ (hm ▸ List.mem_cons_self) k rfl
  have hflag := hfence.preparing hrun
  -- no turn is in its hooks while a run is in flight
  have hpreparing : w.preparing = [] := by
    have hcount := hfence.prepares
    rw [hflag, Bool.toNat_false] at hcount
    have hzero : w.mailbox.countP Mail.isPrepared = 0 := by omega
    rw [World.preparing, List.length_eq_zero_iff.mp (by omega : w.prepares.length = 0),
      List.nil_append]
    exact List.filterMap_eq_nil_iff.mpr fun m hmem =>
      m.prepared?_eq_none (by simpa using List.countP_eq_zero.mp hzero m hmem)
  have hpreparing' : (w.perform ⟨.run k, .run (.persistProgress [e])⟩ rest
      (w.effect params env ⟨.run k, .run (.persistProgress [e])⟩)).preparing = [] := by
    rw [World.preparing, List.append_eq_nil_iff, hm] at hpreparing
    simpa [World.preparing, World.perform, World.effect, AgentActor.handleCommand,
      AgentActor.handleRun, Effect.prepares, hpreparing.1, Mail.prepared?] using hpreparing.2
  rw [hpreparing, List.flatMap_nil, List.append_nil] at htidy
  obtain ⟨hasks, htidy'⟩ := progress_tidy htidy he hf
  obtain ⟨hhead, horder⟩ := List.pairwise_cons.mp horder
  have hbox : (w.perform ⟨.run k, .run (.persistProgress [e])⟩ rest
      (w.effect params env ⟨.run k, .run (.persistProgress [e])⟩)).mailbox = rest :=
    List.append_nil _
  have hruns : (w.perform ⟨.run k, .run (.persistProgress [e])⟩ rest
      (w.effect params env ⟨.run k, .run (.persistProgress [e])⟩)).runs = w.runs :=
    List.append_nil _
  refine ⟨fun m hmem => h.genuine m ?_, by rw [hbox]; exact horder,
    by rw [hruns]; exact h.runs, fun hpf => ?_, o', ?_, ?_, ?_⟩
  · rw [hbox] at hmem
    exact hm ▸ List.mem_cons_of_mem _ hmem
  · have hpf : w.actor.preparing = true := hpf
    simp [hflag] at hpf
  · rw [hpreparing', List.flatMap_nil, List.append_nil]
    exact htidy'
  · rw [hbox, hruns]
    exact hplays
  · rintro ⟨m, hmem, hmr⟩
    rw [hbox] at hmem
    exact absurd rfl (hhead m hmem hmr k)

/-! ## Hooks, repairs and seeds -/

theorem hookEvents_shows (s : AgentState) (records : List HookRecord) (now : ℕ) :
    (∀ m ∈ (hookEvents s records now).flatMap (·.shows),
        assistantCalls m = [] ∧ m.resultIds = []) ∧
      (Unseen records → (hookEvents s records now).flatMap (·.shows) = []) := by
  constructor
  · intro m hm
    obtain ⟨e, he, hm⟩ := List.mem_flatMap.mp hm
    obtain ⟨i, hi, rfl⟩ := List.mem_mapIdx.mp he
    have hm := Option.mem_toList.mp hm
    obtain ⟨hrole, -, hres, -⟩ := translate_spec (Option.mem_def.mp hm)
    exact ⟨by simp [assistantCalls, hrole], hres⟩
  · intro hu
    refine List.flatMap_eq_nil_iff.mpr fun e he => ?_
    obtain ⟨i, hi, rfl⟩ := List.mem_mapIdx.mp he
    have hnone : (records[i]).action.injected? = none := hu _ (List.getElem_mem hi)
    simp [AgentDomainEvent.shows, translate, hookEntry, hnone]

theorem hookEvents_grows (s : AgentState) (records : List HookRecord) (now : ℕ) :
    Grows s (s.applyAll (hookEvents s records now))
        ((hookEvents s records now).flatMap (·.shows)) ∧
      (s.applyAll (hookEvents s records now)).asks = s.asks := by
  refine ⟨s.grows_applyAll fun e he st seed => ?_, (s.applyAll_of_not_queues fun e he => ?_).2⟩
  · obtain ⟨i, hi, rfl⟩ := List.mem_mapIdx.mp he
    simp
  · obtain ⟨i, hi, rfl⟩ := List.mem_mapIdx.mp he
    rfl

theorem Tidy.not_mem_of_closed {pledged : List String} (h : s.Tidy pledged)
    (hc : s.Closed) : ∀ c ∈ pledged, c ∉ toolExchange.allCalls s.shown := fun c hc' hmem =>
  h.fits.open_ c hc' (hc c (h.fits.tail c hc' hmem))

theorem Fence.nothing_open (hfence : Fence w) (hb : w.actor.busy = false) {o : List String}
    (hp : Plays w.runs o (w.mailbox.filterMap Mail.sent?)) : w.preparing = [] ∧ o = [] := by
  obtain ⟨hruns, hprepares, -, hnoprep, hsenders⟩ := FenceAt.idle hfence hb
  have hsents : w.mailbox.filterMap Mail.sent? = [] :=
    List.filterMap_eq_nil_iff.mpr fun m hmem => m.sent?_eq_none (hsenders m hmem)
  have hpreps : w.mailbox.filterMap Mail.prepared? = [] :=
    List.filterMap_eq_nil_iff.mpr fun m hmem => m.prepared?_eq_none (hnoprep m hmem)
  rw [hruns, hsents] at hp
  exact ⟨by rw [World.preparing, hprepares, hpreps, List.append_nil], hp.eq_nil⟩

/-! ## Every handler -/

theorem Wired.tidy (h : Wired w) : w.state.Tidy w.state.parkedCallIds := by
  obtain ⟨o, htidy, -⟩ := h.pledged
  rw [List.append_assoc] at htidy
  exact htidy.subperm (List.sublist_append_left _ _).subperm

theorem AgentActor.thenDrain_of_busy {a : AgentActor} (hb : a.busy = true) (env : Env)
    (s : AgentState) (es : List AgentDomainEvent) (os : List AgentOutcome) :
    a.thenDrain env s es os = { actor := a, events := es, outcomes := os } := by
  simp [AgentActor.thenDrain, AgentActor.tryDrain, hb, Effect.after]

theorem Wired.drains (h : Wired w) (hfence : Fence w) (hm : w.mailbox = mail :: rest)
    (hsender : ∀ k, mail.sender ≠ .run k) (hprep : mail.prepared? = none)
    (hcleared : w.actor.cleared mail.cmd = w.actor) {a : AgentActor}
    (hbusy : a.busy = w.actor.busy) {es : List AgentDomainEvent}
    (hes : ∀ e ∈ es, e.silent = true)
    (hev : (w.effect params env mail).events = (a.thenDrain env w.state es []).events)
    (hruns : (w.effect params env mail).runs = (a.thenDrain env w.state es []).runs)
    (hprepares : (w.effect params env mail).prepares = (a.thenDrain env w.state es []).prepares) :
    Wired (w.perform mail rest (w.effect params env mail)) := by
  cases hb : w.actor.busy with
  | true =>
    rw [AgentActor.thenDrain_of_busy (hbusy.trans hb)] at hev hruns hprepares
    exact h.mute hfence hm hsender hprep hcleared rfl hruns hprepares
      (by rw [hev]; exact hes)
  | false =>
    exact h.idle hfence hm (by rw [hcleared]; exact hb)
      ((AgentActor.thenDrain_leaves (AgentActor.tidy_silent h.tidy hes)).congr hev hruns hprepares)

theorem answeredTurn_answering {answers : List AskAnswer} {turn : Turn}
    (h : answeredTurn s.inbox s.asks answers = .ok turn)
    (hnd : (answers.map (·.toolCallId)).Nodup) : turn.answering.Subperm s.parkedCallIds := by
  have hans : turn.answering = answers.map (·.toolCallId) := by
    rw [answeredTurn_eq_ok h, Turn.answering, List.map_map]
    rfl
  rw [hans]
  refine List.subperm_of_subset hnd fun c hc => ?_
  unfold answeredTurn at h
  dsimp only at h
  split_ifs at h with hp hmiss
  simp only [Bool.or_eq_true, Bool.not_eq_true', List.isEmpty_eq_false_iff, not_or,
    not_not] at hmiss
  by_contra hno
  have hmem : c ∈ ((answers.map (·.toolCallId)).filter
      (· ∉ s.asks.filterMap (·.toolCallId))).dedup :=
    List.mem_dedup.mpr (List.mem_filter.mpr ⟨hc, decide_eq_true hno⟩)
  rw [hmiss.2] at hmem
  cases hmem

variable {sender : Sender}

theorem Wired.answer (h : Wired w) (hfence : Fence w) {answers : List AskAnswer}
    (hm : w.mailbox = ⟨sender, .queue (.answer answers)⟩ :: rest)
    (hnd : (answers.map (·.toolCallId)).Nodup) :
    Wired (w.perform ⟨sender, .queue (.answer answers)⟩ rest
      (w.effect params env ⟨sender, .queue (.answer answers)⟩)) := by
  have hsender : ∀ k, sender ≠ .run k := 
    h.genuine ⟨sender, .queue (.answer answers)⟩ (hm ▸ List.mem_cons_self)
  have hquiet : ∀ r, w.effect params env ⟨sender, .queue (.answer answers)⟩ =
      { actor := w.actor, replies := r } →
      Wired (w.perform ⟨sender, .queue (.answer answers)⟩ rest
        (w.effect params env ⟨sender, .queue (.answer answers)⟩)) := fun r he =>
    h.mute hfence hm hsender rfl rfl he rfl rfl (fun x hx => absurd hx List.not_mem_nil)
  by_cases hb : w.actor.busy = true
  · exact hquiet [.answer (.error .nothingPending)]
      (by simp [World.effect, AgentActor.handleCommand, AgentActor.handleQueue, hb])
  · cases hturn : answeredTurn w.state.inbox w.state.asks answers with
    | error e =>
      exact hquiet [.answer (.error e)]
        (by simp [World.effect, AgentActor.handleCommand, AgentActor.handleQueue, hb, hturn])
    | ok turn =>
      have he : w.effect params env ⟨sender, .queue (.answer answers)⟩ =
          { w.actor.beginTurn env w.state turn with replies := [.answer (.ok ())] } := by
        simp [World.effect, AgentActor.handleCommand, AgentActor.handleQueue, hb, hturn]
      have hleaves := @AgentActor.beginTurn_leaves w.actor env _ _
        (h.tidy.subperm (answeredTurn_answering hturn hnd))
      exact h.idle hfence hm (Bool.eq_false_iff.mpr hb)
        (he ▸ hleaves.congr rfl rfl rfl)

theorem Wired.startPrepared (h : Wired w) (hfence : Fence w)
    {prepared : PreparedStart} (hm : w.mailbox = ⟨sender, .queue (.startPrepared prepared)⟩ :: rest)
    (hg : prepared.turn.results = [] ∨ Unseen prepared.records) :
    Wired (w.perform ⟨sender, .queue (.startPrepared prepared)⟩ rest
      (w.effect params env ⟨sender, .queue (.startPrepared prepared)⟩)) := by
  have hrun := hfence.preparing_head hm prepared rfl
  have hflag : w.actor.preparing = true := by
    have hcount := hfence.prepares
    rw [hm, List.countP_cons] at hcount
    cases hf : w.actor.preparing with
    | true => rfl
    | false => simp [hf, Mail.isPrepared] at hcount
  have hasks := h.calm hflag
  obtain ⟨o, htidy, -⟩ := h.pledged
  obtain ⟨hinert, hunseen⟩ := hookEvents_shows w.state prepared.records env.now
  obtain ⟨hgrow, hhooks⟩ := hookEvents_grows w.state prepared.records env.now
  have hturn : w.state.Tidy prepared.turn.answering := by
    refine htidy.subperm ?_
    have hmem : prepared.turn ∈ w.preparing := by
      rw [World.preparing, hm]
      exact List.mem_append_right _ List.mem_cons_self
    obtain ⟨pre, post, hsplit⟩ := List.append_of_mem hmem
    rw [hsplit, List.flatMap_append, List.flatMap_cons]
    refine List.Sublist.subperm ?_
    exact ((List.sublist_append_left _ _).trans
      ((List.sublist_append_right _ _).trans (List.sublist_append_right _ _))).trans
      (List.sublist_append_left _ _)
  refine h.idle hfence hm (AgentActor.busy_eq_false.mpr ⟨hrun, rfl⟩) ?_
  change AgentActor.Leaves w.state
    (AgentActor.startPrepared { w.actor with preparing := false } env w.state prepared)
  cases hab : prepared.abandon with
  | none =>
    refine AgentActor.startPrepared_leaves hab hasks ?_
    rcases hg with hnil | hu
    · have hans : prepared.turn.answering = [] := by rw [Turn.answering, hnil]; rfl
      rw [hans] at hturn ⊢
      exact hturn.inert hgrow hinert (by simp)
    · rw [hunseen hu] at hgrow
      exact hturn.still hgrow
  | some abandon =>
    have he : AgentActor.startPrepared { w.actor with preparing := false } env w.state prepared =
        { actor := { w.actor with preparing := false }
          events := hookEvents w.state prepared.records env.now
          outcomes := [abandon.outcome] } := by
      simp [AgentActor.startPrepared, hab]
    rw [he]
    refine AgentActor.leaves_of_tidy rfl ?_
    have hclosed : w.state.Tidy [] := hturn.subperm List.nil_subperm
    have hnil : (w.state.applyAll (hookEvents w.state prepared.records env.now)).parkedCallIds =
        [] := by
      rw [AgentState.parkedCallIds, hhooks, hasks]
      rfl
    exact hnil ▸ hclosed.inert hgrow hinert (by simp)

theorem Wired.finished (h : Wired w) (hfence : Fence w) {report : RunReport}
    (hm : w.mailbox = ⟨sender, .run (.runFinished report)⟩ :: rest)
    (hg : report.outcome = .cancelled → AgentActor.CancelsInPlace w.actor env w.state) :
    Wired (w.perform ⟨sender, .run (.runFinished report)⟩ rest
      (w.effect params env ⟨sender, .run (.runFinished report)⟩)) := by
  obtain ⟨k, rfl⟩ : ∃ k, sender = .run k := 
    h.genuine ⟨sender, .run (.runFinished report)⟩ (hm ▸ List.mem_cons_self)
  have hfence' : FenceAt w.actor w.runs w.prepares
      (⟨.run k, .run (.runFinished report)⟩ :: rest) := hm ▸ hfence
  obtain ⟨hid, -, -⟩ := hfence'.report_head rfl
  obtain ⟨o, htidy, hplays, -⟩ := h.pledged
  rw [hm] at hplays
  have hends : endsWith o report.outcome := hplays.1
  have hflag := hfence.preparing hid
  refine h.idle hfence hm ?_ ?_
  · simp [AgentActor.cleared, hid, AgentActor.busy, hflag]
  · have hopen : w.state.Tidy (w.state.parkedCallIds ++ o) := by
      refine htidy.subperm (List.Sublist.subperm ?_)
      exact (List.sublist_append_left _ _).append (List.Sublist.refl _)
    have hleaves := @AgentActor.concludeRun_leaves
      { w.actor with running := none, cancelAcks := 0 } params _ _ _ hopen _ hends
      fun hc => ⟨(hg hc).tail, (hg hc).salvaged⟩
    have he : w.effect params env ⟨.run k, .run (.runFinished report)⟩ =
        w.actor.handleFinished params env w.state report := rfl
    rw [he, AgentActor.handleFinished, if_pos hid]
    exact hleaves.congr rfl rfl rfl

theorem Wired.repair (h : Wired w) (hfence : Fence w) {ms : List Message}
    (hm : w.mailbox = ⟨.self, .run (.persistProgress (ms.map .inputMessage))⟩ :: rest)
    (hrole : ∀ x ∈ ms, x.role = .tool)
    (hg : toolExchange.Fits w.state.shown (answeredIds ms ++
      (w.state.parkedCallIds ++ w.preparing.flatMap Turn.answering))) :
    Wired (w.perform ⟨.self, .run (.persistProgress (ms.map .inputMessage))⟩ rest
      (w.effect params env ⟨.self, .run (.persistProgress (ms.map .inputMessage))⟩)) := by
  refine h.quiet hfence hm rfl rfl rfl rfl rfl (w.state.applyAll_inputs_asks ms)
    fun o _ hnil htidy => ?_
  obtain rfl := hnil rfl
  rw [List.append_nil] at htidy ⊢
  exact Tidy.replies ⟨htidy.ordered, htidy.sound, hg⟩ (w.state.grows_inputs ms) hrole

theorem Wired.hooksRan (h : Wired w) (hfence : Fence w)
    {records : List HookRecord} (hm : w.mailbox = ⟨sender, .log (.hooksRan records)⟩ :: rest)
    (hg : Unseen records ∨ (w.actor.busy = true ∨ w.state.asks ≠ [] → w.state.Closed)) :
    Wired (w.perform ⟨sender, .log (.hooksRan records)⟩ rest
      (w.effect params env ⟨sender, .log (.hooksRan records)⟩)) := by
  have hsender : ∀ k, sender ≠ .run k := 
    h.genuine ⟨sender, .log (.hooksRan records)⟩ (hm ▸ List.mem_cons_self)
  have hsent := Mail.sent?_eq_none ⟨sender, .log (.hooksRan records)⟩ hsender
  obtain ⟨hinert, hunseen⟩ := hookEvents_shows w.state records env.now
  obtain ⟨hgrow, hhooks⟩ := hookEvents_grows w.state records env.now
  refine h.quiet hfence hm hsent rfl rfl rfl rfl hhooks fun o hplays _ htidy => ?_
  rcases hg with hu | hclosed
  · rw [hunseen hu] at hgrow
    exact htidy.still hgrow
  · refine htidy.inert hgrow hinert fun _ => ?_
    by_cases hb : w.actor.busy = true ∨ w.state.asks ≠ []
    · exact Tidy.not_mem_of_closed htidy (hclosed hb)
    · obtain ⟨hb, hasks⟩ := not_or.mp hb
      have hplays' : Plays w.runs o (w.mailbox.filterMap Mail.sent?) := by
        rwa [hm, List.filterMap_cons_none hsent]
      obtain ⟨hpre, rfl⟩ := hfence.nothing_open (Bool.eq_false_iff.mpr hb) hplays'
      have hnil : w.state.parkedCallIds = [] := by
        rw [AgentState.parkedCallIds, not_not.mp hasks]
        rfl
      rw [hnil, hpre]
      exact fun c hc => absurd hc List.not_mem_nil

theorem Wired.seed (h : Wired w) (hfence : Fence w) {seeded : AgentState}
    {seed : Option Message} {message : Incoming}
    (hm : w.mailbox = ⟨sender, .seed (.seedFrom seeded seed message)⟩ :: rest)
    (hg : w.state.log.isEmpty = true → w.state.inbox.isEmpty = true →
      w.actor.busy = false ∧ seeded.asks = [] ∧
        (seed.elim seeded seeded.pushMessage).Tidy []) :
    Wired (w.perform ⟨sender, .seed (.seedFrom seeded seed message)⟩ rest
      (w.effect params env ⟨sender, .seed (.seedFrom seeded seed message)⟩)) := by
  have hsender : ∀ k, sender ≠ .run k := 
    h.genuine ⟨sender, .seed (.seedFrom seeded seed message)⟩ (hm ▸ List.mem_cons_self)
  by_cases hfresh : (!w.state.log.isEmpty || !w.state.inbox.isEmpty) = true
  · refine h.mute hfence hm hsender rfl rfl
      (e := { actor := w.actor, replies := [.seeded], tells := [.queue .drain] }) ?_ rfl rfl
      (fun x hx => absurd hx List.not_mem_nil)
    simp only [World.effect, AgentActor.handleCommand, AgentActor.handleSeed, if_pos hfresh]
  · have hempty : w.state.log.isEmpty = true ∧ w.state.inbox.isEmpty = true := by
      simpa using hfresh
    obtain ⟨hb, hasks, htidy⟩ := hg hempty.1 hempty.2
    refine h.idle hfence hm hb ?_
    have he : w.effect params env ⟨sender, .seed (.seedFrom seeded seed message)⟩ =
        { actor := w.actor
          events := [.seeded seeded seed, .received message env.now]
          tells := [.queue .drain]
          ack := true
          snapshot := true } := by
      simp only [World.effect, AgentActor.handleCommand, AgentActor.handleSeed, if_neg hfresh]
    rw [he]
    refine AgentActor.leaves_of_tidy rfl ?_
    have hstate : w.state.applyEvent (.seeded seeded seed) =
        seed.elim seeded seeded.pushMessage := by
      cases seed <;> rfl
    have hnil : (seed.elim seeded seeded.pushMessage).parkedCallIds = [] := by
      rw [AgentState.parkedCallIds, show (seed.elim seeded seeded.pushMessage).asks = [] from by
        cases seed <;> exact hasks]
      rfl
    have htidy' : (seed.elim seeded seeded.pushMessage).Tidy
        (seed.elim seeded seeded.pushMessage).parkedCallIds := hnil.symm ▸ htidy
    rw [AgentState.applyAll_cons, hstate]
    exact AgentActor.tidy_silent htidy' (by simp [AgentDomainEvent.silent])

theorem Wired.perform (h : Wired w) (hfence : Fence w) (hm : w.mailbox = mail :: rest)
    (hg : w.OrderlyMail env mail) : Wired (w.perform mail rest (w.effect params env mail)) := by
  have hgenuine := h.genuine mail (hm ▸ List.mem_cons_self)
  obtain ⟨sender, cmd⟩ := mail
  cases cmd with
  | queue c =>
    cases c with
    | enqueue item ack =>
      exact h.mute hfence hm hgenuine rfl rfl
        (e := { actor := w.actor
                events := [.received item env.now]
                tells := [.queue .drain]
                ack := ack }) rfl rfl rfl (by simp [AgentDomainEvent.silent])
    | drain =>
      exact h.drains hfence hm hgenuine rfl rfl (a := w.actor) rfl (List.forall_mem_nil _) rfl rfl
        rfl
    | answer answers => exact h.answer hfence hm hg
    | startPrepared prepared => exact h.startPrepared hfence hm hg
  | run c =>
    cases c with
    | cancel ack =>
      have hsender : ∀ k, sender ≠ .run k := hgenuine
      cases hrun : w.actor.running with
      | none =>
        exact h.mute hfence hm hsender rfl rfl
          (e := { actor := w.actor, replies := if ack then [.cancelled] else [] })
          (by simp [World.effect, AgentActor.handleCommand, AgentActor.handleRun, hrun]) rfl rfl
          (by simp)
      | some run =>
        exact h.mute hfence hm hsender rfl rfl
          (e := { actor := { w.actor with
            running := some { run with cancelled := true }
            cancelAcks := w.actor.cancelAcks + if ack then 1 else 0 } })
          (by simp [World.effect, AgentActor.handleCommand, AgentActor.handleRun, hrun]) rfl rfl
          (by simp)
    | persistProgress es =>
      rcases hgenuine with ⟨k, e, hs, rfl⟩ | ⟨hs, ms, rfl, hrole⟩
      · have hs : sender = .run k := hs
        subst hs
        have hf : ∀ x ∈ [e], x.FreshFor w.state := hg
        exact h.progress hfence hm (hf e (List.mem_singleton_self e))
      · have hs : sender = .self := hs
        subst hs
        have hshows : (ms.map AgentDomainEvent.inputMessage).flatMap (·.shows) = ms := by
          simp [List.flatMap_map, AgentDomainEvent.shows]
        have hg : toolExchange.Fits w.state.shown
            (answeredIds ((ms.map AgentDomainEvent.inputMessage).flatMap (·.shows)) ++
              (w.state.parkedCallIds ++ w.preparing.flatMap Turn.answering)) := hg
        rw [hshows] at hg
        exact h.repair hfence hm hrole hg
    | runFinished report => exact h.finished hfence hm hg
  | timer c =>
    cases c with
    | armTimer label message kind secs =>
      have hsilent : ∀ x ∈ (w.effect params env
          ⟨sender, .timer (.armTimer label message kind secs)⟩).events, x.silent = true :=
        fun x hx => List.mem_singleton.mp hx ▸ rfl
      exact h.mute hfence hm hgenuine rfl rfl rfl rfl rfl hsilent
    | listTimers =>
      have hsilent : ∀ x ∈ (w.effect params env ⟨sender, .timer .listTimers⟩).events,
          x.silent = true := fun x hx => absurd hx List.not_mem_nil
      exact h.mute hfence hm hgenuine rfl rfl rfl rfl rfl hsilent
    | cancelTimer selector =>
      have hsilent : ∀ x ∈ (w.effect params env ⟨sender, .timer (.cancelTimer selector)⟩).events,
          x.silent = true := by
        intro x hx
        simp only [World.effect, AgentActor.handleCommand, AgentActor.handleTimer] at hx
        split_ifs at hx
        · cases hx
        · exact List.mem_singleton.mp hx ▸ rfl
      exact h.mute hfence hm hgenuine rfl rfl rfl rfl rfl hsilent
    | timerFired id =>
      rcases w.actor.handleTimerFired_cases env w.state id with he | ⟨next, item, hev, hr, hp⟩
      · exact h.mute hfence hm hgenuine rfl rfl (e := { actor := w.actor }) he rfl rfl (by simp)
      · exact h.drains hfence hm hgenuine rfl rfl (a := w.actor) rfl
         
          (by simp [AgentDomainEvent.silent]) hev hr hp
  | taskList action =>
    cases happly : w.state.taskList.apply action with
    | ok next =>
      exact h.mute hfence hm hgenuine rfl rfl
        (e := { actor := w.actor
                events := [.taskListChanged next env.now]
                replies := [.taskList (.ok (next.renderResult action))] })
        (by simp [World.effect, AgentActor.handleCommand, AgentActor.handleTaskList, happly])
        rfl rfl (by simp [AgentDomainEvent.silent])
    | error message =>
      exact h.mute hfence hm hgenuine rfl rfl
        (e := { actor := w.actor, replies := [.taskList (.error message)] })
        (by simp [World.effect, AgentActor.handleCommand, AgentActor.handleTaskList, happly])
        rfl rfl (by simp)
  | read =>
    exact h.mute hfence hm hgenuine rfl rfl (e := { actor := w.actor }) rfl rfl rfl (by simp)
  | log c =>
    cases c with
    | recordLifecycle event atMs =>
      by_cases hmoved : w.actor.moved event ≠ some true
      · exact h.mute hfence hm hgenuine rfl rfl
          (e := { actor := { w.actor with ready := (w.actor.moved event).getD w.actor.ready }
                  events := [.lifecycleRecorded event atMs] })
          (by simp only [World.effect, AgentActor.handleCommand, AgentActor.handleLog,
            if_pos hmoved]) rfl rfl (by simp [AgentDomainEvent.silent])
      · have he : w.effect params env ⟨sender, .log (.recordLifecycle event atMs)⟩ =
            AgentActor.thenDrain { w.actor with ready := (w.actor.moved event).getD w.actor.ready }
              env w.state [.lifecycleRecorded event atMs] [] := by
          simp only [World.effect, AgentActor.handleCommand, AgentActor.handleLog, if_neg hmoved]
        refine h.drains hfence hm hgenuine rfl rfl
          (a := { w.actor with ready := (w.actor.moved event).getD w.actor.ready }) rfl
          (show ∀ e ∈ [AgentDomainEvent.lifecycleRecorded event atMs], e.silent = true by
            simp [AgentDomainEvent.silent]) ?_ ?_ ?_
        all_goals rw [he]
    | recordDelta text =>
      exact h.mute hfence hm hgenuine rfl rfl
        (e := { actor := { w.actor with deltas := w.actor.deltas ++ [text] } }) rfl rfl rfl
        (by simp)
    | hooksRan records => exact h.hooksRan hfence hm hg
  | seed c =>
    cases c with
    | snapshot atSeq =>
      exact h.mute hfence hm hgenuine rfl rfl
        (e := { actor := w.actor, replies := [.snapshot (w.state.snapshotAt atSeq)] }) rfl rfl rfl
        (by simp)
    | seedFrom seeded seed message => exact h.seed hfence hm hg
  | shutdown =>
    exact h.mute hfence hm hgenuine rfl rfl (e := { actor := w.actor, stop := true }) rfl rfl rfl
      (by simp)

/-! ## Every execution -/

theorem Wired.load (h : Wired w) (params : AgentParams) (env : Env) (ready : Bool)
    {queued : List AgentCommand} (hq : ∀ c ∈ queued, c.external = true) :
    Wired (w.load params env ready queued) := by
  have hclient : ∀ m ∈ queued.map (Mail.mk .client ·), m.Bystander := by
    intro m hm
    obtain ⟨c, hc, rfl⟩ := List.mem_map.mp hm
    exact bystander_external (hq c hc)
  have hself : ∀ m ∈ ((AgentActor.new ready).onRecoveryComplete params env w.state).tells.map
      (Mail.mk .self ·), m.Genuine ∧ m.sender = .self ∧ m.prepared? = none := by
    intro m hm
    obtain ⟨c, hc, rfl⟩ := List.mem_map.mp hm
    rw [AgentActor.onRecoveryComplete_tells _ _ _ _ c hc]
    exact ⟨.inr ⟨rfl, _, rfl, AgentActor.missingToolResults_role w.state env.now⟩, rfl, rfl⟩
  have hsender : ∀ m ∈ (w.load params env ready queued).mailbox, ∀ k, m.sender ≠ .run k := by
    intro m hm k
    rcases List.mem_append.mp hm with hm | hm
    · exact (hclient m hm).sender k
    · rw [(hself m hm).2.1]
      simp
  have hsents : (w.load params env ready queued).mailbox.filterMap Mail.sent? = [] :=
    List.filterMap_eq_nil_iff.mpr fun m hm => m.sent?_eq_none (hsender m hm)
  have hpreparing : (w.load params env ready queued).preparing = [] := by
    refine List.filterMap_eq_nil_iff.mpr fun m hm => ?_
    rcases List.mem_append.mp hm with hm | hm
    · exact (hclient m hm).prepared
    · exact (hself m hm).2.2
  have hrun : ∀ now, toolExchange.WellFormed (repairDangling w.state.promptMessages [] env.now ++
      [(AgentInput.userMessage ⟨env.messageId, "continue the interrupted task", [], []⟩).toMessage
        now]) := fun now => by
    have hnil : w.state.Tidy (Turn.mk [] none [] (some "continue the interrupted task") [] []
        []).answering := h.tidy.subperm List.nil_subperm
    exact hnil.sends env.now env.now now env.messageId
  refine ⟨genuine_append (fun m hm => (hclient m hm).genuine) fun m hm => (hself m hm).1,
    List.pairwise_of_forall_mem_list fun x hx _ _ _ => hsender x hx, ?_, ?_, [], ?_, ?_,
    fun _ => rfl⟩
  · intro r hr
    simp only [World.load, List.mem_map] at hr
    obtain ⟨task, ht, rfl⟩ := hr
    rcases (AgentActor.new ready).onRecoveryComplete_cases params env w.state with
      ⟨-, -, hruns⟩ | ⟨-, -, hruns⟩
    · rw [hruns] at ht
      cases ht
    · rw [hruns] at ht
      obtain rfl := List.mem_singleton.mp ht
      exact hrun
  · intro hpf
    simp only [World.load] at hpf
    rcases (AgentActor.new ready).onRecoveryComplete_cases params env w.state with
      ⟨-, ha, -⟩ | ⟨-, ha, -⟩
    all_goals
      rw [ha] at hpf
      simp [AgentActor.new, AgentActor.startRun] at hpf
  · rw [hpreparing, List.flatMap_nil, List.append_nil, List.append_nil]
    exact h.tidy
  · rw [hsents]
    simp only [World.load]
    rcases (AgentActor.new ready).onRecoveryComplete_cases params env w.state with
      ⟨-, -, hruns⟩ | ⟨-, -, hruns⟩
    · exact .inl ⟨by rw [hruns]; rfl, rfl⟩
    · exact .inr ⟨_, by rw [hruns]; rfl, rfl⟩

/-- A command put into the mailbox that is neither progress, a report nor a preparation. -/
theorem Wired.tell (h : Wired w) {m : Mail} (hm : m.Bystander) : Wired (w.tell m) := by
  have hb : ∀ x ∈ [m], x.Bystander := fun x hx => List.mem_singleton.mp hx ▸ hm
  obtain ⟨hs, hp, hr⟩ := bystander_append hb w.mailbox
  obtain ⟨o, htidy, hplays, hrepair⟩ := h.pledged
  refine ⟨genuine_append h.genuine fun x hx => (hb x hx).genuine, bystander_order hb h.order,
    h.runs, h.calm, o, ?_, hs ▸ hplays, fun hx => hrepair (hr hx)⟩
  have hpreparing : (w.tell m).preparing = w.preparing := congrArg (w.prepares ++ ·) hp
  rw [hpreparing]
  exact htidy

theorem Wired.sends (h : Wired w) {m : Mail} {runs : List LiveRun} (hg : m.Genuine)
    (hnr : m.isRepair = false) (hp : m.prepared? = none) (hruns : ∀ r ∈ runs, r.task.WellFormed)
    (hplays : ∀ o, Plays w.runs o (w.mailbox.filterMap Mail.sent?) →
      Plays runs o ((w.mailbox ++ [m]).filterMap Mail.sent?)) :
    Wired ({ w with runs }.tell m) := by
  obtain ⟨o, htidy, hpl, hrepair⟩ := h.pledged
  refine ⟨genuine_append h.genuine fun x hx => List.mem_singleton.mp hx ▸ hg, ?_, hruns, h.calm, o,
    ?_, hplays o hpl, ?_⟩
  · exact List.pairwise_append.mpr ⟨h.order, List.pairwise_singleton _ _, fun _ _ y hy hr => by
      rw [List.mem_singleton.mp hy, hnr] at hr
      cases hr⟩
  · have hpreparing : ({ w with runs }.tell m).preparing = w.preparing := by
      simp [World.preparing, World.tell, hp]
    rw [hpreparing]
    exact htidy
  · rintro ⟨x, hx, hr⟩
    rcases List.mem_append.mp hx with hx | hx
    · exact hrepair ⟨x, hx, hr⟩
    · rw [List.mem_singleton.mp hx, hnr] at hr
      cases hr

theorem HookAnswer.prepared_answering (answer : HookAnswer) (turn : Turn) :
    (answer.prepared turn).turn.answering = turn.answering := by
  cases answer <;> rfl

theorem Wired.prepared (h : Wired w) {pre post : List Turn} {turn : Turn}
    (hp : w.prepares = pre ++ turn :: post) (answer : HookAnswer) :
    Wired ({ w with prepares := pre ++ post }.tell
      ⟨.prepare, .queue (.startPrepared (answer.prepared turn))⟩) := by
  obtain ⟨o, htidy, hpl, hrepair⟩ := h.pledged
  refine ⟨genuine_append h.genuine fun x hx => ?_, ?_, h.runs, h.calm, o, ?_, ?_, ?_⟩
  · rw [List.mem_singleton.mp hx]
    exact fun k => by simp
  · exact List.pairwise_append.mpr ⟨h.order, List.pairwise_singleton _ _, fun _ _ y hy hr => by
      rw [List.mem_singleton.mp hy] at hr
      cases hr⟩
  · refine htidy.subperm (List.Perm.subperm ?_)
    refine (List.Perm.append_left _ ?_).append_right _
    simp only [World.preparing, World.tell, hp, List.filterMap_append, List.flatMap_append,
      List.flatMap_cons]
    have hlast :
        ([⟨.prepare, .queue (.startPrepared (answer.prepared turn))⟩] : List Mail).filterMap
          Mail.prepared? = [(answer.prepared turn).turn] := rfl
    rw [hlast, List.flatMap_singleton, answer.prepared_answering]
    simp only [List.append_assoc]
    refine List.Perm.append_left _ ?_
    rw [← List.append_assoc]
    exact List.perm_append_comm
  · have hsent : ({ w with prepares := pre ++ post }.tell
        ⟨.prepare, .queue (.startPrepared (answer.prepared turn))⟩).mailbox.filterMap Mail.sent? =
        w.mailbox.filterMap Mail.sent? := by
      simp [World.tell, Mail.sent?]
    rw [hsent]
    exact hpl
  · rintro ⟨x, hx, hr⟩
    rcases List.mem_append.mp hx with hx | hx
    · exact hrepair ⟨x, hx, hr⟩
    · rw [List.mem_singleton.mp hx] at hr
      cases hr

end

theorem wired_step {params : AgentParams} {w w' : World} {l : Label} (hfence : Fence w)
    (h : Wired w) (hg : w.Orderly l) (hs : World.Step params w l w') : Wired w' := by
  cases hs with
  | load hq => exact h.load params _ _ hq
  | send _ hc => exact h.tell (bystander_external hc)
  | @emit pre post r event pending _ hr he =>
    obtain ⟨rfl, rfl, -, -⟩ := FenceAt.live hfence hr
    refine h.sends (.inl ⟨_, _, rfl, rfl⟩) rfl rfl (fun x hx => ?_) fun o hpl => ?_
    · rw [List.mem_singleton.mp hx]
      exact h.runs r (hr ▸ List.mem_cons_self)
    · rw [hr] at hpl
      simpa [List.filterMap_append, Mail.sent?] using hpl.emit he
  | @finish pre post r report _ hr _ he =>
    obtain ⟨rfl, rfl, -, -⟩ := FenceAt.live hfence hr
    refine h.sends ⟨_, rfl⟩ rfl rfl (fun x hx => absurd hx List.not_mem_nil) fun o hpl => ?_
    rw [hr] at hpl
    simpa [List.filterMap_append, Mail.sent?] using hpl.finish he
  | prepared _ hp => exact h.prepared hp _
  | handle _ hm => exact h.perform hfence hm (hg _ (by rw [hm]; rfl))
  | die =>
    refine ⟨fun m hm => absurd hm List.not_mem_nil, .nil, fun r hr => absurd hr List.not_mem_nil,
      fun hpf => absurd hpf (by simp [World.die, AgentActor.new]), [], ?_, .inl ⟨rfl, rfl⟩,
      fun _ => rfl⟩
    simpa [World.preparing, World.die] using h.tidy

theorem wired_boot : Wired World.boot where
  genuine _ hm := absurd hm List.not_mem_nil
  order := .nil
  runs _ hr := absurd hr List.not_mem_nil
  calm _ := rfl
  pledged := ⟨[], ⟨⟨.nil, fun _ he => absurd he List.not_mem_nil⟩, Lib.Exchange.sound_nil,
    Lib.Exchange.fits_nil _⟩, .inl ⟨rfl, rfl⟩, fun _ => rfl⟩

/-- Along every execution of orderly steps, every run is started on a history in which each tool
call has exactly one result, in the run of tool messages directly after it. -/
theorem wire_well_formed (params : AgentParams) {tr : List (World × Label × World)} {w : World}
    (h : (agentSystem params).Exec World.boot tr w) (hg : ∀ x ∈ tr, x.1.Orderly x.2.1) :
    ∀ r ∈ w.runs, r.task.WellFormed :=
  (h.guarded (fun _ _ _ hw hwired hg hs => wired_step (fence hw) hwired hg hs) reachable_boot
    wired_boot hg).runs

/-! ## A result out of place -/

/-- A run fails with a call open, and the next turn is cancelled: its repair is journaled behind
the message that began it. -/
def unwiredLabels : List Label :=
  let env : Env := ⟨0, "m", "a", "t", false⟩
  [.load env true [.queue (.enqueue (.user "u0" "hello" []) false)], .handle env, .handle env,
    .emit 0 (.messageComplete ⟨"r0", .assistant, [.toolCall ⟨"c", "bash", .null⟩], 0, none⟩),
    .handle env, .finish ⟨0, .failed "stuck in a loop" true, none⟩, .handle env,
    .send (.queue (.enqueue (.user "u1" "again" []) false)), .handle env, .handle env,
    .send (.run (.cancel true)), .handle env, .finish ⟨1, .cancelled, none⟩, .handle env,
    .send (.queue (.enqueue (.user "u2" "once more" []) false)), .handle env, .handle env]

def unwiredWorld : World := (World.boot.steps? ⟨false, true, false⟩ unwiredLabels).get (by decide)

/-- The third turn's run is started on a history whose call is answered behind a user's message. -/
theorem wire_ill_formed :
    (agentSystem ⟨false, true, false⟩).Reachable unwiredWorld ∧
      ∃ r ∈ unwiredWorld.runs, ¬ r.task.WellFormed := by
  have hrun : unwiredWorld.runs.all fun r =>
      !decide (toolExchange.WellFormed (r.task.sends 0)) := by decide
  have hsome : unwiredWorld.runs ≠ [] := by decide
  obtain ⟨r, hr⟩ := List.exists_mem_of_ne_nil _ hsome
  refine ⟨reachable_steps? _, r, hr, fun h => ?_⟩
  have := List.all_eq_true.mp hrun r hr
  simp [h 0] at this

/-- A run calls a tool and asks, and the answer starts a second run. -/
def wiredLabels : List Label :=
  let env : Env := ⟨0, "m", "a", "t", false⟩
  [.load env true [.queue (.enqueue (.user "u0" "hello" []) false)], .handle env, .handle env,
    .emit 0 (.messageComplete ⟨"r0", .assistant, [.toolCall ⟨"c", "bash", .null⟩], 0, none⟩),
    .handle env, .emit 0 (.toolComplete ⟨"c", "ok", false, [], 2, 0, 0, 0, 0⟩), .handle env,
    .emit 0 (.messageComplete ⟨"r1", .assistant, [.toolCall ⟨"q", askUserTool, .null⟩], 0, none⟩),
    .handle env, .finish ⟨0, .stopped [⟨askUserTool, "q", .null⟩], none⟩, .handle env,
    .send (.queue (.answer [⟨"q", "yes"⟩])), .handle env]

def wiredWorld : World :=
  (World.boot.stepsIf? ⟨false, true, false⟩ (fun w l => decide (w.Orderly l)) wiredLabels).get
    (by decide)

theorem wire_well_formed_answered :
    wiredWorld.runs.map (fun r => toolExchange.allCalls r.task.history) = [["c", "q"]] ∧
      ∀ r ∈ wiredWorld.runs, r.task.WellFormed := by
  obtain ⟨tr, hexec, -, hok⟩ := exec_stepsIf? (Option.some_get _).symm
  exact ⟨by decide, wire_well_formed _ hexec fun x hx => of_decide_eq_true (hok x hx)⟩

end Horsie.Agent
