import Horsie.Agent.Deltas
import Horsie.Agent.Starts

/-!
# What a cancelled run had written

A provider call that is cancelled leaves nothing but the chunks it streamed, and the actor journals
them as the aborted message. They are read off the chunks in flight, which any entry drops and a
retry keeps. In every run in which no entry lands behind a call that has streamed something and no
call begins over chunks of another, a cancelled run journals what its call streamed, and nothing
else (`salvage_exact`).

What the call under way has streamed is a history variable. The mail of a run is handled in the
order it was sent, so what was heard when the run's report is handled is what its call streamed.
-/

namespace Horsie.Agent

/-! ## The call under way -/

/-- What has been heard of the provider call under way. -/
structure Heard where
  text : String
  /-- The attempt it belongs to has been reported as given up, which its cancellation does too: what
  comes next is of another attempt's call. -/
  ended : Bool
deriving DecidableEq

namespace Heard

/-- A call that has streamed nothing, or none. -/
def silent : Heard := ⟨"", false⟩

def chunk (h : Heard) (text : String) : Heard :=
  ⟨if h.ended then text else h.text ++ text, false⟩

/-- A finished message ends its call. The first call of another attempt begins at the latest with
whatever that attempt journals first. -/
def event (h : Heard) : AgentDomainEvent → Heard
  | .messageComplete _ => silent
  | .runAborted _ _ _ => ⟨if h.ended then "" else h.text, true⟩
  | .seeded _ _ | .inputMessage _ | .messageAborted _ | .toolComplete _ | .hookRan _ _ _
  | .lifecycleRecorded _ _ | .runComplete _ _ _ _ | .runCancelled _ | .timerArmed _ _
  | .timerCancelled _ _ | .timerFired _ _ _ | .parked _ | .nudged _ | .taskListChanged _ _
  | .compacted _ | .received _ _ | .turnBegan _ _ _ | .askRecorded _ _ =>
    if h.ended then silent else h

/-- What a command says of the call. A report is the last of its run. -/
def command (h : Heard) : AgentCommand → Heard
  | .log (.recordDelta text) => h.chunk text
  | .run (.persistProgress events) => events.foldl event h
  | .run (.runFinished _) => silent
  | .queue _ | .run (.cancel _) | .timer _ | .taskList _ | .read | .log (.recordLifecycle _ _)
  | .log (.hooksRan _) | .seed _ | .shutdown => h

end Heard

def AgentCommand.ofCall : AgentCommand → Bool
  | .log (.recordDelta _) | .run (.persistProgress _) => true
  | .queue _ | .run (.cancel _) | .run (.runFinished _) | .timer _ | .taskList _ | .read
  | .log (.recordLifecycle _ _) | .log (.hooksRan _) | .seed _ | .shutdown => false

/-- What has been heard after a step. A run that starts has streamed nothing. -/
def World.heardAfter (params : AgentParams) (w : World) (l : Label) (_ : World) (h : Heard) :
    Heard :=
  match l with
  | .load _ _ _ | .die _ => .silent
  | .handle env =>
    match w.mailbox with
    | [] => h
    | mail :: _ => if (w.effect params env mail).runs.isEmpty then h.command mail.cmd else .silent
  | .send _ | .emit _ _ | .finish _ | .prepared _ => h

def salvageSystem (params : AgentParams) : Lib.System (World × Heard) Label :=
  (agentSystem params).withHistory (World.heardAfter params) .silent

/-! ## What is journaled of it -/

def AgentDomainEvent.aborted? : AgentDomainEvent → Option String
  | .messageAborted m => some m.text
  | .seeded _ _ | .inputMessage _ | .messageComplete _ | .toolComplete _ | .hookRan _ _ _
  | .lifecycleRecorded _ _ | .runComplete _ _ _ _ | .runAborted _ _ _ | .runCancelled _
  | .timerArmed _ _ | .timerCancelled _ _ | .timerFired _ _ _ | .parked _ | .nudged _
  | .taskListChanged _ _ | .compacted _ | .received _ _ | .turnBegan _ _ _ | .askRecorded _ _ =>
    none

/-- A run that was cancelled journals the text its call streamed, unless that is blank. -/
def World.Salvages (params : AgentParams) (x : World × Heard) : Label → Prop
  | .handle env => ∀ mail ∈ x.1.mailbox.head?, ∀ report, mail.cmd = .run (.runFinished report) →
      report.outcome = .cancelled → x.1.actor.runId = some report.runId →
      (x.1.effect params env mail).events.filterMap AgentDomainEvent.aborted? =
        if Lib.isBlank x.2.text then [] else [x.2.text]
  | .load _ _ _ | .send _ | .emit _ _ | .finish _ | .prepared _ | .die _ => True

/-- No entry lands behind a call that has streamed something and goes on, and no call begins over
chunks of another. -/
def World.Undisturbed (params : AgentParams) (x : World × Heard) : Label → Prop
  | .handle env => ∀ mail ∈ x.1.mailbox.head?,
      let e := x.1.effect params env mail
      if e.events.any AgentActor.coarseAppendsAnEntry then
        e.runs = [] → (x.2.command mail.cmd).text = ""
      else
        e.runs ≠ [] ∨ x.2.ended = true ∧ mail.cmd.ofCall = true → String.join x.1.actor.deltas = ""
  | .load _ _ _ | .send _ | .emit _ _ | .finish _ | .prepared _ | .die _ => True

namespace AgentActor

variable (a : AgentActor) (env : Env) (s : AgentState)

theorem tryDrain_aborts_nothing :
    (a.tryDrain env s).events.filterMap AgentDomainEvent.aborted? = [] := by
  rcases a.tryDrain_cases env s with ⟨h, -⟩ | ⟨turn, -, -, -, h⟩
  · rw [h]
    rfl
  · rw [h]
    by_cases hp : (a.beginTurn env s turn).prepares = []
    · rw [beginTurn_events_now hp]
      simp [AgentDomainEvent.aborted?]
    · rw [(beginTurn_prepares hp).2]
      rfl

theorem handleFinished_cancelled (params : AgentParams) {report : RunReport}
    (hc : report.outcome = .cancelled) (hid : a.runId = some report.runId) :
    (a.handleFinished params env s report).events.filterMap AgentDomainEvent.aborted? =
      if Lib.isBlank (String.join a.deltas) then [] else [String.join a.deltas] := by
  have hevents : (a.handleFinished params env s report).events =
      ({ a with running := none, cancelAcks := 0 }.cancelEvents env s ++
        ({ a with running := none, cancelAcks := 0 }.tryDrain env
          (s.applyAll
            ({ a with running := none, cancelAcks := 0 }.cancelEvents env s))).events) := by
    rw [handleFinished, if_pos hid, hc]
    rfl
  have hrepairs : ((missingToolResults s.promptMessages s.parkedCallIds env.now).map
      AgentDomainEvent.inputMessage).filterMap AgentDomainEvent.aborted? = [] := by
    rw [List.filterMap_map]
    exact List.filterMap_eq_nil_iff.mpr fun _ _ => rfl
  rw [hevents, List.filterMap_append, tryDrain_aborts_nothing, List.append_nil, cancelEvents,
    List.filterMap_append, List.filterMap_append, hrepairs]
  unfold abortedMessage
  dsimp only
  split_ifs
  · rfl
  · simp [AgentDomainEvent.aborted?, Message.text, Message.assistantText, ContentPart.text?]

end AgentActor

/-! ## Runs -/

section

variable {params : AgentParams} {x y : World × Heard}

/-- While a run is in flight, the chunks in flight are what was heard of its call. -/
def Kept (x : World × Heard) : Prop :=
  x.1.actor.runId ≠ none → String.join x.1.actor.deltas = x.2.text

theorem salvages_of_kept (h : Kept x) (l : Label) : World.Salvages params x l := by
  cases l with
  | handle env =>
    intro mail _ report hcmd hc hid
    rw [World.effect, hcmd, ← h (by simp [hid])]
    exact x.1.actor.handleFinished_cancelled env x.1.state params hc hid
  | load | send | emit | finish | prepared | die => trivial

/-- A command that starts no run and leaves one in flight has found it in flight, and is not its
report. -/
theorem runId_of_quiet (hw : (agentSystem params).Reachable x.1) {env : Env} {mail : Mail}
    {rest : List Mail} (hm : x.1.mailbox = mail :: rest)
    (hr : (x.1.effect params env mail).runs = [])
    (hrun : (x.1.effect params env mail).actor.runId ≠ none) :
    x.1.actor.runId ≠ none ∧ ∀ report, mail.cmd ≠ .run (.runFinished report) := by
  cases (fence hw).launch params env hm with
  | quiet _ _ _ hsame =>
    rw [hsame] at hrun
    constructor
    · intro hnone
      refine hrun ?_
      unfold AgentActor.cleared
      split
      · split_ifs
        · rfl
        · exact hnone
      all_goals exact hnone
    · intro report hcmd
      have hmem : mail ∈ x.1.mailbox := hm ▸ List.mem_cons_self
      cases mailed hw mail hmem with
      | client hc =>
        dsimp only at hcmd
        rw [hcmd] at hc
        cases hc
      | @report k r hid =>
        -- the run it is of is the one in flight
        have hlive : x.1.actor.runId = some r.runId := hid ▸ (fence hw).senders _ hmem k rfl
        refine hrun ?_
        rw [AgentActor.cleared, if_pos hlive]
        rfl
      | drain | repair | progress | prepared => cases hcmd
  | ran _ _ hran => exact absurd (hran.symm.trans hr) (by simp)
  | prepared _ _ _ _ _ hnone => exact absurd hnone hrun

theorem Heard.event_text {h : Heard} (hover : h.ended = true → h.text = "") {e : AgentDomainEvent}
    (he : AgentActor.coarseAppendsAnEntry e = false) : (h.event e).text = h.text := by
  have hkeep : ∀ h' : Heard, (h.ended = true → h'.text = "") → (h.ended = false → h' = h) →
      h'.text = h.text := by
    intro h' hgone hsame
    by_cases ho : h.ended = true
    · rw [hgone ho, hover ho]
    · rw [hsame (Bool.eq_false_iff.mpr ho)]
  cases e with
  | inputMessage | messageComplete | messageAborted | toolComplete | hookRan | lifecycleRecorded
  | taskListChanged => cases he
  | runAborted =>
    by_cases ho : h.ended = true
    · simp [event, ho, hover ho]
    · simp [event, ho]
  | seeded | runComplete | runCancelled | timerArmed | timerCancelled | timerFired | parked
  | nudged | compacted | received | turnBegan | askRecorded =>
    exact hkeep _ (fun ho => by simp [event, ho, silent]) fun ho => by simp [event, ho]

/-- Mail that appends nothing, chunks and reports apart, says nothing new of the call. -/
theorem command_text (hw : (agentSystem params).Reachable x.1) {env : Env} {mail : Mail}
    (hmail : mail ∈ x.1.mailbox) (hchunk : mail.cmd.chunk? = none)
    (hreport : ∀ report, mail.cmd ≠ .run (.runFinished report))
    (hquiet : (x.1.effect params env mail).events.any AgentActor.coarseAppendsAnEntry = false)
    (hover : x.2.ended = true ∧ mail.cmd.ofCall = true → x.2.text = "") :
    (x.2.command mail.cmd).text = x.2.text := by
  by_cases hbatch : ∃ events, mail.cmd = .run (.persistProgress events)
  · obtain ⟨events, hcmd⟩ := hbatch
    have hdone : x.2.ended = true → x.2.text = "" := fun ho => hover ⟨ho, by rw [hcmd]; rfl⟩
    have hquiet : events.any AgentActor.coarseAppendsAnEntry = false := by
      rw [World.effect, hcmd] at hquiet
      exact hquiet
    rw [hcmd]
    cases mailed hw mail hmail with
    | client hc =>
      dsimp only at hcmd
      rw [hcmd] at hc
      cases hc
    | drain => cases hcmd
    | repair s now =>
      cases hcmd
      -- repairs are messages, which append
      cases hres : missingToolResults s.promptMessages s.parkedCallIds now with
      | nil => rfl
      | cons m ms => simp [hres, AgentActor.coarseAppendsAnEntry] at hquiet
    | @progress k e pending pending' he =>
      cases hcmd
      exact Heard.event_text hdone (by simpa using hquiet)
    | report => cases hcmd
    | prepared => cases hcmd
  · cases hcmd : mail.cmd with
    | log c =>
      cases c with
      | recordDelta => simp [hcmd, AgentCommand.chunk?] at hchunk
      | recordLifecycle | hooksRan => rfl
    | run c =>
      cases c with
      | persistProgress events => exact absurd ⟨events, hcmd⟩ hbatch
      | cancel => rfl
      | runFinished report => exact absurd hcmd (hreport report)
    | queue | timer | taskList | read | seed | shutdown => rfl

/-- An undisturbed step keeps the chunks in flight those of the call. -/
theorem kept_step (hw : (agentSystem params).Reachable x.1) (h : Kept x) {l : Label}
    (hg : World.Undisturbed params x l) (hs : (salvageSystem params).Step x l y) : Kept y := by
  obtain ⟨x, heard⟩ := x
  obtain ⟨y, heard'⟩ := y
  obtain ⟨hstep, hrec⟩ := hs
  dsimp only at hstep hrec hw
  subst hrec
  cases hstep with
  | @load env ready queued hq =>
    intro _
    rcases (AgentActor.new ready).onRecoveryComplete_cases params env x.state with
      ⟨-, ha, -⟩ | ⟨-, ha, -⟩ <;>
    · simp only [World.load, ha]
      rfl
  | send | emit | finish | prepared => exact h
  | die =>
    intro hrun
    exact absurd rfl hrun
  | @handle env mail rest _ hm =>
    have hmail : mail ∈ x.mailbox := hm ▸ List.mem_cons_self
    have hg := hg mail (by rw [hm]; rfl)
    dsimp only at hg
    have hheard : World.heardAfter params x (.handle env)
        (x.perform mail rest (x.effect params env mail)) heard =
          if (x.effect params env mail).runs.isEmpty then heard.command mail.cmd else .silent := by
      unfold World.heardAfter
      rw [hm]
    intro hrun
    change String.join (World.perform _ _ _ _).actor.deltas = (World.heardAfter _ _ _ _ _).text
    rw [hheard]
    have hrun : (x.effect params env mail).actor.runId ≠ none := hrun
    by_cases hruns : (x.effect params env mail).runs = []
    · rw [if_pos (by rw [hruns]; rfl), perform_deltas]
      obtain ⟨hlive, hreport⟩ := runId_of_quiet (x := (x, heard)) hw hm hruns hrun
      have hkept : String.join x.actor.deltas = heard.text := h hlive
      by_cases hany : (x.effect params env mail).events.any AgentActor.coarseAppendsAnEntry = true
      · rw [if_pos hany] at hg ⊢
        rw [hg hruns]
        rfl
      · rw [if_neg hany] at hg ⊢
        rw [hkept] at hg
        cases hchunk : mail.cmd.chunk? with
        | none =>
          have htext := command_text (x := (x, heard)) hw hmail hchunk hreport
            (Bool.eq_false_iff.mpr hany) fun hover => hg (.inr hover)
          simpa [htext] using hkept
        | some text =>
          have hcmd : mail.cmd = .log (.recordDelta text) := AgentCommand.eq_of_chunk hchunk
          have hchunk : (heard.command mail.cmd).text =
              if heard.ended then text else heard.text ++ text := by
            rw [hcmd]
            rfl
          rw [hchunk, String.join_append, hkept]
          split_ifs with hover
          · rw [hg (.inr ⟨hover, by rw [hcmd]; rfl⟩)]
            simp
          · simp
    · rw [if_neg (by simpa using hruns), perform_deltas]
      have hchunk : mail.cmd.chunk? = none := by
        by_contra hsome
        obtain ⟨text, htext⟩ := Option.ne_none_iff_exists'.mp hsome
        refine hruns ?_
        rw [World.effect, AgentCommand.eq_of_chunk htext]
        rfl
      rw [hchunk]
      split_ifs at hg ⊢
      · rfl
      · rw [Option.toList_none, List.append_nil]
        exact hg (.inl hruns)

/-- Whenever a run is cancelled in a run of the agent in which no entry lands behind a call that
has streamed something and goes on, and no call begins over chunks of another, what is journaled as
the aborted message is exactly what the call under way has streamed since it started. -/
theorem salvage_exact {tr : List ((World × Heard) × Label × (World × Heard))}
    (h : (salvageSystem params).Exec (.boot, .silent) tr x)
    (hg : ∀ z ∈ tr, World.Undisturbed params z.1 z.2.1) :
    ∀ z ∈ tr, World.Salvages params z.1 z.2.1 := by
  intro z hz
  obtain ⟨pre, hpre, hmem, -⟩ := h.before hz
  have hinit : (salvageSystem params).Reachable (.boot, .silent) := .init ⟨rfl, rfl⟩
  refine salvages_of_kept ?_ z.2.1
  refine hpre.guarded (G := World.Undisturbed params) (I := Kept)
    (fun s l t hr hk hg hs => kept_step hr.fst hk hg hs) hinit (fun hrun => absurd rfl hrun) ?_
  exact fun y hy => hg y (hmem y hy)

end

/-! ## Cancelled runs -/

instance (params : AgentParams) (x : World × Heard) :
    ∀ l, Decidable (World.Undisturbed params x l)
  | .handle env => inferInstanceAs (Decidable (∀ mail ∈ x.1.mailbox.head?,
      if (x.1.effect params env mail).events.any AgentActor.coarseAppendsAnEntry then
        (x.1.effect params env mail).runs = [] → (x.2.command mail.cmd).text = ""
      else
        (x.1.effect params env mail).runs ≠ [] ∨ x.2.ended = true ∧ mail.cmd.ofCall = true →
          String.join x.1.actor.deltas = ""))
  | .load _ _ _ | .send _ | .emit _ _ | .finish _ | .prepared _ | .die _ =>
    inferInstanceAs (Decidable True)

def salvageStep? (params : AgentParams) : World × Heard → Label → Option (World × Heard) :=
  Lib.System.recordStep? (World.heardAfter params) (World.step? params)

theorem salvageStep?_sound {params : AgentParams} (x : World × Heard) (l : Label)
    (y : World × Heard) (h : salvageStep? params x l = some y) :
    (salvageSystem params).Step x l y :=
  Lib.System.recordStep?_sound (M := agentSystem params) .silent
    (fun _ _ _ => World.step?_sound) x l y h

def sent (cmd : AgentCommand) : List Label := [.send cmd, .handle ⟨0, "m", "a", "t", false⟩]

/-- A user message starts a run, whose call streams and sees other mail as `mid` has it; the run is
cancelled, and its report is in the mailbox. -/
def cancelledAfter (mid : List Label) : List Label :=
  let env : Env := ⟨0, "m", "a", "t", false⟩
  [Label.load env true [.queue (.enqueue (.user "u0" "hello" []) false)], .handle env,
      .handle env] ++
    mid ++ sent (.run (.cancel true)) ++
    [Label.emit 0 (.runAborted ⟨0, 0, none, none⟩ 0 5), .handle env, .finish ⟨0, .cancelled, none⟩]

/-- A call is cancelled after two chunks, an attempt that streamed nothing before it. -/
def streamedLabels : List Label :=
  [Label.emit 0 (.runAborted ⟨0, 0, none, none⟩ 0 4), .handle ⟨0, "m", "a", "t", false⟩] ++
    sent (.log (.recordDelta "Let me ")) ++ sent (.log (.recordDelta "see."))

def salvagedWorld : World × Heard :=
  (Lib.System.steps? (Lib.System.guarded? (World.Undisturbed ⟨false, true, false⟩)
    (salvageStep? ⟨false, true, false⟩)) (.boot, .silent)
    (cancelledAfter streamedLabels ++ [Label.handle ⟨1, "m1", "a1", "t1", false⟩])).get
    (by decide +kernel)

theorem salvage_streamed :
    salvagedWorld.1.journal.filterMap AgentDomainEvent.aborted? = ["Let me see."] ∧
    ∃ tr, (salvageSystem ⟨false, true, false⟩).Exec (.boot, .silent) tr salvagedWorld ∧
      ∀ z ∈ tr, World.Salvages ⟨false, true, false⟩ z.1 z.2.1 := by
  obtain ⟨tr, hexec, -, hg⟩ := Lib.System.exec_of_guarded?
    (M := salvageSystem ⟨false, true, false⟩) (fun x l y _ => salvageStep?_sound x l y)
    (show Lib.System.steps? _ _ _ = some salvagedWorld from (Option.some_get _).symm)
  exact ⟨by decide +kernel, tr, hexec, salvage_exact hexec hg⟩

/-- A sub agent is recorded between two chunks. -/
def cutWorld : World × Heard :=
  (Lib.System.steps? (salvageStep? ⟨false, true, false⟩) (.boot, .silent)
    (cancelledAfter (sent (.log (.recordDelta "Let me ")) ++
      sent (.log (.recordLifecycle (.subAgent "s" "look" "running") 3)) ++
      sent (.log (.recordDelta "see."))))).get (by decide +kernel)

/-- An attempt is given up after its first chunk, and the next one streams. -/
def retriedWorld : World × Heard :=
  (Lib.System.steps? (salvageStep? ⟨false, true, false⟩) (.boot, .silent)
    (cancelledAfter (sent (.log (.recordDelta "Let me ")) ++
      [Label.emit 0 (.runAborted ⟨0, 0, none, none⟩ 0 4), .handle ⟨0, "m", "a", "t", false⟩] ++
      sent (.log (.recordDelta "see."))))).get (by decide +kernel)

/-- The text streamed before the entry is missing, and that of the attempt given up is left over. -/
theorem salvage_cut_or_mixed :
    (∃ tr x, (salvageSystem ⟨false, true, false⟩).Exec (.boot, .silent) tr x ∧
      x.1.journal.filterMap AgentDomainEvent.aborted? = ["see."] ∧
      ∃ z ∈ tr, z.1.2.text = "Let me see." ∧
        ¬ World.Salvages ⟨false, true, false⟩ z.1 z.2.1) ∧
    ∃ tr x, (salvageSystem ⟨false, true, false⟩).Exec (.boot, .silent) tr x ∧
      x.1.journal.filterMap AgentDomainEvent.aborted? = ["Let me see."] ∧
      ∃ z ∈ tr, z.1.2.text = "see." ∧ ¬ World.Salvages ⟨false, true, false⟩ z.1 z.2.1 := by
  let env : Env := ⟨1, "m1", "a1", "t1", false⟩
  constructor
  · obtain ⟨tr, hexec, -⟩ := Lib.System.exec_of_steps?
      (M := salvageSystem ⟨false, true, false⟩) salvageStep?_sound
      (show Lib.System.steps? _ _ _ = some cutWorld from (Option.some_get _).symm)
    refine ⟨_, _, hexec.snoc (salvageStep?_sound _ (.handle env) _ (Option.some_get
      (by decide +kernel)).symm), by decide +kernel, _,
      List.mem_append_right _ (List.mem_singleton_self _), by decide +kernel, fun h => ?_⟩
    exact absurd (h _ rfl _ rfl rfl rfl) (by decide +kernel)
  · obtain ⟨tr, hexec, -⟩ := Lib.System.exec_of_steps?
      (M := salvageSystem ⟨false, true, false⟩) salvageStep?_sound
      (show Lib.System.steps? _ _ _ = some retriedWorld from (Option.some_get _).symm)
    refine ⟨_, _, hexec.snoc (salvageStep?_sound _ (.handle env) _ (Option.some_get
      (by decide +kernel)).symm), by decide +kernel, _,
      List.mem_append_right _ (List.mem_singleton_self _), by decide +kernel, fun h => ?_⟩
    exact absurd (h _ rfl _ rfl rfl rfl) (by decide +kernel)

end Horsie.Agent
