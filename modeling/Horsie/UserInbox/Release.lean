import Horsie.Agent.Answering
import Horsie.UserInbox.Http
import Mathlib.Data.List.Dedup

/-!
# Releasing a parked agent from the inbox

The inbox answers one row at a time; an agent takes answers to all it is parked on, or none. So an
agent parked on one question is released from the inbox, and one parked on several is not. What a
request that fails leaves behind is right either way: a row is settled only once its agent has taken
the answer, which ends the whole park.
-/

namespace Horsie.Agent.AgentActor

theorem asks_beginTurn (a : AgentActor) (env : Env) (s : AgentState) (turn : Turn) :
    (s.applyAll (a.beginTurn env s turn).events).asks = [] := by
  by_cases hp : (a.beginTurn env s turn).prepares = []
  · rw [beginTurn_events_now hp, AgentState.applyAll_cons, AgentState.applyAll_inputs_asks]
    rfl
  · rw [(beginTurn_prepares hp).2]
    rfl

variable (a : AgentActor) (env : Env) (s : AgentState) (answers : List AskAnswer)

/-- Answers are refused, and nothing happens, or the agent is parked on nothing any more. -/
theorem handleQueue_answer_cases :
    (∃ e, (a.handleQueue env s (.answer answers)).replies = [.answer (.error e)] ∧
      (a.handleQueue env s (.answer answers)).events = []) ∨
    (a.handleQueue env s (.answer answers)).replies = [.answer (.ok ())] ∧
      (s.applyAll (a.handleQueue env s (.answer answers)).events).asks = [] := by
  unfold handleQueue
  dsimp only
  split_ifs
  · exact .inl ⟨_, rfl, rfl⟩
  · split
    · exact .inr ⟨rfl, asks_beginTurn a env s _⟩
    · exact .inl ⟨_, rfl, rfl⟩

theorem handleQueue_answer_refused {call : String}
    (hpending : call ∈ s.asks.filterMap (·.toolCallId))
    (hcall : call ∉ answers.map (·.toolCallId)) :
    ∃ e, (a.handleQueue env s (.answer answers)).replies = [.answer (.error e)] := by
  unfold handleQueue
  split_ifs
  · exact ⟨_, rfl⟩
  · have hmissing : call ∈ ((s.asks.filterMap (·.toolCallId)).filter
        (· ∉ answers.map (·.toolCallId))).dedup :=
      List.mem_dedup.mpr (List.mem_filter.mpr ⟨hpending, decide_eq_true hcall⟩)
    unfold answeredTurn
    dsimp only
    rw [if_neg (by simpa using List.ne_nil_of_mem hpending), if_pos]
    · exact ⟨_, rfl⟩
    · simp only [Bool.or_eq_true, Bool.not_eq_true', List.isEmpty_eq_false_iff]
      exact .inl (List.ne_nil_of_mem hmissing)

theorem handleQueue_answer_taken (answer : AskAnswer) (hidle : a.busy = false)
    (hpending : ∀ call, call ∈ s.asks.filterMap (·.toolCallId) ↔ call = answer.toolCallId) :
    (a.handleQueue env s (.answer [answer])).replies = [.answer (.ok ())] := by
  have hne : s.asks.filterMap (·.toolCallId) ≠ [] :=
    List.ne_nil_of_mem ((hpending _).mpr rfl)
  have hmissing : (s.asks.filterMap (·.toolCallId)).filter
      (· ∉ [answer].map (·.toolCallId)) = [] := by
    refine List.filter_eq_nil_iff.mpr fun call hcall => ?_
    simpa using (hpending call).mp hcall
  have hunexpected : ([answer].map (·.toolCallId)).filter
      (· ∉ s.asks.filterMap (·.toolCallId)) = [] := by
    refine List.filter_eq_nil_iff.mpr fun call hcall => ?_
    simpa using (hpending call).mpr (List.mem_singleton.mp hcall)
  unfold handleQueue answeredTurn
  dsimp only
  rw [if_neg (by simp [hidle]), if_neg (by simpa using hne), hmissing, hunexpected]
  rfl

end Horsie.Agent.AgentActor

namespace Horsie.UserInbox

open Horsie.Lib Horsie.Agent

/-! ## The statements -/

namespace Inbox

variable {t : Inbox} {row : InboxRow} {session agent : String}

variable {atMs : ℤ} {state : InboxState}

theorem mem_settleWhere {p : InboxRow → Bool} :
    row ∈ (t.settleWhere p state atMs).rows ↔
      (row ∈ t.rows ∧ p row = false) ∨
        ∃ old ∈ t.rows, p old = true ∧ row = old.settle state atMs := by
  constructor
  · intro h
    obtain ⟨old, hold, rfl⟩ := List.mem_map.mp h
    unfold Table.change
    split_ifs with hp
    · exact .inr ⟨old, hold, hp, rfl⟩
    · exact .inl ⟨hold, Bool.eq_false_iff.mpr hp⟩
  · rintro (⟨h, hp⟩ | ⟨old, hold, hp, rfl⟩)
    · exact List.mem_map.mpr ⟨row, h, by rw [Table.change, hp]; rfl⟩
    · exact List.mem_map.mpr ⟨old, hold, by rw [Table.change, if_pos hp]⟩

theorem mem_settleWhere_other {p : InboxRow → Bool}
    (hp : ∀ r, p r = true → r.isOf session agent = true) (hrow : row.isOf session agent = false) :
    row ∈ (t.settleWhere p state atMs).rows ↔ row ∈ t.rows := by
  have hnot : p row = false := by
    cases h : p row with
    | false => rfl
    | true => exact absurd ((hp row h).symm.trans hrow) Bool.noConfusion
  rw [mem_settleWhere]
  refine ⟨fun h => ?_, fun h => .inl ⟨h, hnot⟩⟩
  rcases h with ⟨h, -⟩ | ⟨old, -, hold, rfl⟩
  · exact h
  · exact absurd ((hp old hold).symm.trans hrow) Bool.noConfusion

theorem mem_settleAgentAsks_other {answered : List String}
    (hrow : row.isOf session agent = false) :
    row ∈ (t.settleAgentAsks session agent answered state atMs).rows ↔ row ∈ t.rows := by
  have hopen : ∀ r : InboxRow, r.isOpenAsk session agent = true → r.isOf session agent = true := by
    intro r hr
    simp only [InboxRow.isOpenAsk, Bool.and_eq_true] at hr
    exact hr.1.1
  unfold settleAgentAsks
  rw [mem_settleWhere_other hopen hrow]
  induction answered generalizing t with
  | nil => rfl
  | cons call rest ih =>
    refine ih.trans (mem_settleWhere_other (fun r hr => ?_) hrow)
    simp only [Bool.and_eq_true] at hr
    exact hr.1.1

theorem isOpenAsk_settleAgentAsks {answered : List String}
    (h : row ∈ (t.settleAgentAsks session agent answered state atMs).rows) :
    row.isOpenAsk session agent = false := by
  rcases mem_settleWhere.mp h with ⟨-, hp⟩ | ⟨old, -, -, rfl⟩
  · exact hp
  · simp [InboxRow.isOpenAsk, InboxRow.isOpen, InboxRow.settle]

theorem getMany_singleton (h : row ∈ t.rows) : t.getMany [row.id] = [row] := by
  have hkey : idKey ∈ inboxKeys := List.mem_cons_self
  have hall : ∀ r ∈ t.getMany [row.id], r = row := by
    intro r hr
    obtain ⟨hr, hid⟩ := List.mem_filter.mp hr
    exact Table.eq_of_key hkey hr h
      (congrArg InboxKey.id (List.mem_singleton.mp (of_decide_eq_true hid)))
  have hmem : row ∈ t.getMany [row.id] := List.mem_filter.mpr ⟨h, by simp⟩
  have hnodup : (t.getMany [row.id]).Nodup := (List.Nodup.of_map _ (t.unique _ hkey)).filter _
  rw [List.eq_replicate_of_mem hall] at hmem hnodup ⊢
  have hle := List.nodup_replicate.mp hnodup
  obtain ⟨hne, -⟩ := List.mem_replicate.mp hmem
  rw [show (t.getMany [row.id]).length = 1 by omega]
  rfl

end Inbox

/-! ## What an answer does to the desk -/

namespace Desk

variable {d d' d'' : Desk} {env : Env} {session agent : String} {answers : List AskAnswer}

/-- A row asks what its agent is still parked on. -/
def Pending (d : Desk) (row : InboxRow) : Prop :=
  ∃ call, row.toolCallId = some call ∧ call ∈ d.pendingCalls row.sessionId row.agentId

/-- Of the questions still pending, no row was changed and none is gone. -/
structure Keeps (d d' : Desk) : Prop where
  pending : ∀ row, d'.Pending row → d.Pending row
  rows : ∀ row, d'.Pending row → (row ∈ d'.inbox.rows ↔ row ∈ d.inbox.rows)

theorem Keeps.refl (d : Desk) : d.Keeps d := ⟨fun _ h => h, fun _ _ => .rfl⟩

theorem Keeps.trans (h : d.Keeps d') (h' : d'.Keeps d'') : d.Keeps d'' :=
  ⟨fun row hp => h.pending row (h'.pending row hp),
    fun row hp => (h'.rows row hp).trans (h.rows row (h'.pending row hp))⟩

theorem Keeps.released (h : d.Keeps d') (hnone : d.pendingCalls session agent = []) :
    d'.pendingCalls session agent = [] := by
  refine List.eq_nil_iff_forall_not_mem.mpr fun call hcall => ?_
  let row : InboxRow := AskRow.row ⟨session, agent, "", [], false, call⟩ "" 0
  obtain ⟨call', hcall', hpending⟩ := h.pending row ⟨call, rfl, hcall⟩
  exact absurd (hnone ▸ hpending) List.not_mem_nil

theorem Keeps.write {f : Inbox → Inbox} (hagent : d.pendingCalls session agent = [])
    (hf : ∀ row : InboxRow, row.isOf session agent = false →
      (row ∈ (f d.inbox).rows ↔ row ∈ d.inbox.rows)) :
    d.Keeps (d.store f) := by
  refine ⟨fun row h => h, fun row ⟨call, hcall, hpending⟩ => hf row ?_⟩
  by_contra hof
  rw [Bool.not_eq_false, InboxRow.isOf, Bool.and_eq_true, decide_eq_true_eq,
    decide_eq_true_eq] at hof
  rw [hof.1, hof.2] at hpending
  exact absurd (hagent ▸ hpending) List.not_mem_nil

theorem pendingCalls_move {a : AgentActor} {s : AgentState} {session' agent' : String} :
    (d.move session agent a s).pendingCalls session' agent' =
      if session' = session ∧ agent' = agent then s.asks.filterMap (·.toolCallId)
      else d.pendingCalls session' agent' := by
  unfold pendingCalls move
  by_cases hs : session' = session
  · subst hs
    by_cases ha : agent' = agent
    · subst ha
      simp
    · simp [ha]
  · simp [hs]

/-- An answer leaves the inbox alone and no agent more parked, and one that is accepted releases its
agent. -/
theorem answer_spec (d : Desk) (env : Env) (session agent : String) (answers : List AskAnswer) :
    d.Keeps (d.answer env session agent answers).2 ∧
      ((d.answer env session agent answers).1 = .ok () →
        (d.answer env session agent answers).2.pendingCalls session agent = []) := by
  unfold answer
  cases hagent : d.agents session agent with
  | none => exact ⟨.refl d, fun h => nomatch h⟩
  | some x =>
    obtain ⟨a, s⟩ := x
    dsimp only
    have hold : d.pendingCalls session agent = s.asks.filterMap (·.toolCallId) := by
      rw [pendingCalls, hagent]
      rfl
    -- the agent is parked on what it was, or on nothing
    have hkeeps : ∀ {s' : AgentState} {a' : AgentActor}, s'.asks = s.asks ∨ s'.asks = [] →
        d.Keeps (d.move session agent a' s') := by
      intro s' a' hs'
      refine ⟨fun row ⟨call, hcall, hpending⟩ => ⟨call, hcall, ?_⟩, fun _ _ => .rfl⟩
      rw [pendingCalls_move] at hpending
      split_ifs at hpending with hat
      · rw [hat.1, hat.2, hold]
        rcases hs' with hs' | hs'
        · rwa [hs'] at hpending
        · rw [hs'] at hpending
          cases hpending
      · exact hpending
    rcases a.handleQueue_answer_cases env s answers with ⟨e, hreplies, hevents⟩ | ⟨hreplies, hasks⟩
    · rw [hreplies, hevents]
      exact ⟨hkeeps (.inl rfl), fun h => nomatch h⟩
    · rw [hreplies]
      refine ⟨hkeeps (.inr hasks), fun _ => ?_⟩
      rw [pendingCalls_move, if_pos ⟨rfl, rfl⟩, hasks]
      rfl

def Agrees (d : Desk) : Prop := ∀ row ∈ d.inbox.rows, d.Pending row → row.isOpen = true

def openAsks (d : Desk) (session agent : String) : List InboxRow :=
  d.inbox.rows.filter (InboxRow.isOpenAsk session agent)

end Desk

/-! ## A deletion that fails -/

/-- Nobody asks anew before any of the calls. -/
def Calm (calls : List Call) : Prop := ∀ c ∈ calls, ∀ d : Desk, d.Keeps (c.meanwhile d)

/-- `Meets`, whatever becomes of the calls. -/
def Serves {α : Type} (I : Desk → Prop) (m : Handler α) (Q : α → Desk → Prop) (E : Desk → Prop) :
    Prop :=
  Meets (fun w => I w.desk ∧ Calm w.calls) m (fun a w => Q a w.desk ∧ Calm w.calls)
    fun _ w => E w.desk

theorem serves_attempt {α : Type} (act : Desk → α × Desk) {I E : Desk → Prop}
    {Q : α → Desk → Prop} (hcalm : ∀ d d' : Desk, I d → d.Keeps d' → I d')
    (hok : ∀ d, I d → Q (act d).1 (act d).2) (hlost : ∀ d, I d → E d)
    (hunheard : ∀ d, I d → E (act d).2) : Serves I (attempt act) Q E := by
  rintro ⟨desk, calls⟩ ⟨hdesk, hcalls⟩
  unfold attempt
  cases calls with
  | nil =>
    refine ⟨fun a w' h => ?_, fun e w' h => (by cases h)⟩
    cases h
    exact ⟨hok _ hdesk, hcalls⟩
  | cons c rest =>
    obtain ⟨fault, meanwhile⟩ := c
    have hrest : Calm rest := fun c hc => hcalls c (List.mem_cons_of_mem _ hc)
    replace hdesk := hcalm _ _ hdesk (hcalls _ List.mem_cons_self desk)
    cases fault with
    | none =>
      refine ⟨fun a w' h => ?_, fun e w' h => (by cases h)⟩
      cases h
      exact ⟨hok _ hdesk, hrest⟩
    | lost error =>
      refine ⟨fun a w' h => (by cases h), fun e w' h => ?_⟩
      cases h
      exact hlost _ hdesk
    | unheard error =>
      refine ⟨fun a w' h => (by cases h), fun e w' h => ?_⟩
      cases h
      exact hunheard _ hdesk

variable {env : Env} {d : Desk}

theorem serves_answer {row : InboxRow} {answers : List AskAnswer} {outcome : InboxState} :
    Serves (d.Keeps ·) (answer env row answers outcome)
      (fun _ d' => d.Keeps d' ∧ d'.pendingCalls row.sessionId row.agentId = []) (d.Keeps ·) := by
  have htold := fun d' : Desk => d'.answer_spec env row.sessionId row.agentId answers
  have htell : Serves (d.Keeps ·) (attempt (·.answer env row.sessionId row.agentId answers))
      (fun result d' => d.Keeps d' ∧
        (result = .ok () → d'.pendingCalls row.sessionId row.agentId = [])) (d.Keeps ·) :=
    serves_attempt _ (fun _ _ => .trans) (fun d' h => ⟨h.trans (htold d').1, (htold d').2⟩)
      (fun d' h => h) fun d' h => h.trans (htold d').1
  refine Meets.bind htell fun result => ?_
  cases result with
  | error e => exact .throw fun w h => h.1.1
  | ok =>
    have hsettled : ∀ d' : Desk, d'.pendingCalls row.sessionId row.agentId = [] →
        d'.Keeps (d'.store (·.settleAgentAsks row.sessionId row.agentId
          (answers.map (·.toolCallId)) outcome env.now)) :=
      fun d' h => .write h fun r hr => Inbox.mem_settleAgentAsks_other hr
    have hwrite : Serves (fun d' => d.Keeps d' ∧ d'.pendingCalls row.sessionId row.agentId = [])
        (write (·.settleAgentAsks row.sessionId row.agentId (answers.map (·.toolCallId)) outcome
          env.now))
        (fun _ d' => d.Keeps d' ∧ d'.pendingCalls row.sessionId row.agentId = []) (d.Keeps ·) :=
      serves_attempt _ (fun _ _ h hk => ⟨h.1.trans hk, hk.released h.2⟩)
        (fun d' h => ⟨h.1.trans (hsettled d' h.2), h.2⟩) (fun d' h => h.1)
        fun d' h => h.1.trans (hsettled d' h.2)
    exact hwrite.mono (fun _ h => ⟨⟨h.1.1, h.1.2 rfl⟩, h.2⟩) (fun _ _ h => h) fun _ _ h => h

theorem serves_decline {row : InboxRow} :
    Serves (d.Keeps ·) (decline env row) (fun _ d' => d.Keeps d' ∧ ¬ d'.Pending row)
      (d.Keeps ·) := by
  unfold decline
  split
  · rename_i hcall
    refine .pure fun w h => ⟨⟨h.1, fun ⟨call, hc, _⟩ => ?_⟩, h.2⟩
    exact absurd (hcall.symm.trans hc) (Option.some_ne_none _).symm
  · refine Meets.mono serves_answer (fun _ h => h) (fun _ w h =>
      ⟨⟨h.1.1, fun ⟨call, _, hp⟩ => ?_⟩, h.2⟩) fun _ _ h => h
    exact absurd (h.1.2 ▸ hp) List.not_mem_nil

/-- The rows of `declined` have been gone through. -/
def Declined (d : Desk) (declined : List InboxRow) (d' : Desk) : Prop :=
  d.Keeps d' ∧ ∀ row ∈ declined, ¬ d'.Pending row

variable {d' : Desk}

theorem Declined.trans {rows : List InboxRow} {d'' : Desk} (h : Declined d rows d')
    (hk : d'.Keeps d'') : Declined d rows d'' :=
  ⟨h.1.trans hk, fun row hr hp => h.2 row hr (hk.pending row hp)⟩

theorem serves_declines (rows : List InboxRow) :
    Serves (Declined d []) (rows.forM (decline env)) (fun _ => Declined d rows) (d.Keeps ·) := by
  refine Meets.forM (fun pre (w : Serving) => Declined d pre w.desk ∧ Calm w.calls)
    fun pre row post _ w hw => ?_
  have hrow : Serves (w.desk.Keeps ·) (decline env row) _ _ := serves_decline
  obtain ⟨hok, herror⟩ := hrow w ⟨.refl _, hw.2⟩
  refine ⟨fun a w' h => ?_, fun e w' h => hw.1.1.trans (herror e w' h)⟩
  obtain ⟨⟨hkeeps, hdeclined⟩, hcalm⟩ := hok a w' h
  refine ⟨⟨hw.1.1.trans hkeeps, fun r hr => ?_⟩, hcalm⟩
  rcases List.mem_append.mp hr with hr | hr
  · exact (hw.1.trans hkeeps).2 r hr
  · rw [List.mem_singleton.mp hr]
    exact hdeclined

theorem Declined.remove {ids : List String} (hagrees : d.Agrees)
    (h : Declined d ((d.inbox.getMany ids).filter fun row => row.isAsk && row.isOpen) d') :
    d.Keeps (d'.store (·.remove ids)) := by
  obtain ⟨hkeeps, hdeclined⟩ := h
  refine hkeeps.trans ⟨fun row hp => hp, fun row hp => ?_⟩
  show row ∈ (d'.inbox.remove ids).rows ↔ _
  rw [Inbox.remove, Table.mem_delete, decide_eq_false_iff_not]
  refine ⟨fun hr => hr.1, fun hr => ⟨hr, fun hid => ?_⟩⟩
  have hold := (hkeeps.rows row hp).mp hr
  refine hdeclined row (List.mem_filter.mpr ⟨List.mem_filter.mpr ⟨hold, decide_eq_true hid⟩, ?_⟩) hp
  obtain ⟨call, hcall, -⟩ := id hp
  have hask : row.isAsk = true := decide_eq_true (row.ask_of_call (by rw [hcall]; rfl))
  rw [hask, hagrees row hold (hkeeps.pending row hp)]
  rfl

theorem Desk.Agrees.keeps (h : d.Agrees) (hk : d.Keeps d') : d'.Agrees :=
  fun row hr hp => h row ((hk.rows row hp).mp hr) (hk.pending row hp)

theorem serves_delete (ids : List String) (hagrees : d.Agrees) :
    Serves (d.Keeps ·) (delete env ids) (fun _ d' => d.Keeps d') (d.Keeps ·) := by
  have hread : Serves (d.Keeps ·) (attempt fun d => (d.inbox.getMany ids, d))
      (fun rows d' => d.Keeps d' ∧ rows = d'.inbox.getMany ids) (d.Keeps ·) :=
    serves_attempt _ (fun _ _ => .trans) (fun d' h => ⟨h, rfl⟩) (fun d' h => h) fun d' h => h
  refine Meets.bind hread fun rows w hw => ?_
  obtain ⟨⟨hkeeps, rfl⟩, hcalm⟩ := hw
  have hremove : Serves (Declined w.desk ((w.desk.inbox.getMany ids).filter
      fun row => row.isAsk && row.isOpen)) (write (·.remove ids)) (fun _ => w.desk.Keeps)
      w.desk.Keeps :=
    serves_attempt _ (fun _ _ h => h.trans) (fun d' h => h.remove (hagrees.keeps hkeeps))
      (fun d' h => h.1) fun d' h => h.remove (hagrees.keeps hkeeps)
  obtain ⟨hok, herror⟩ := Meets.bind (serves_declines _) (fun _ => hremove) w
    ⟨⟨.refl _, fun r hr => absurd hr List.not_mem_nil⟩, hcalm⟩
  exact ⟨fun a w' h => ⟨hkeeps.trans (hok a w' h).1, (hok a w' h).2⟩,
    fun e w' h => hkeeps.trans (herror e w' h)⟩

/-! ## Requests whose calls come back -/

theorem attempt_nil {α : Type} (act : Desk → α × Desk) (d : Desk) :
    attempt act ⟨d, []⟩ = .ok (act d).1 ⟨(act d).2, []⟩ := rfl

variable {row : InboxRow} {answers : List AskAnswer} {outcome : InboxState}

variable {call : String}

theorem answer_refused
    (hpending : call ∈ d.pendingCalls row.sessionId row.agentId)
    (hcall : call ∉ answers.map (·.toolCallId)) :
    ∃ e w, answer env row answers outcome ⟨d, []⟩ = .error e w := by
  obtain ⟨⟨a, s⟩, hagent, hpending⟩ : ∃ x, d.agents row.sessionId row.agentId = some x ∧
      call ∈ x.2.asks.filterMap (·.toolCallId) := by
    unfold Desk.pendingCalls at hpending
    cases h : d.agents row.sessionId row.agentId with
    | none => rw [h] at hpending; exact absurd hpending List.not_mem_nil
    | some x => rw [h] at hpending; exact ⟨x, rfl, hpending⟩
  obtain ⟨e, he⟩ := a.handleQueue_answer_refused env s answers hpending hcall
  have hresult : (d.answer env row.sessionId row.agentId answers).1 = .error e := by
    unfold Desk.answer
    rw [hagent]
    dsimp only
    rw [he]
  refine ⟨.unprocessable (answerErrorText e),
    ⟨(d.answer env row.sessionId row.agentId answers).2, []⟩, ?_⟩
  unfold answer
  rw [bind_ok (attempt_nil _ _), hresult]
  rfl

theorem answer_taken (outcome : InboxState) (env : Env) (text : String)
    {a : AgentActor} {s : AgentState}
    (hagent : d.agents row.sessionId row.agentId = some (a, s)) (hidle : a.busy = false)
    (hpending : ∀ c, c ∈ s.asks.filterMap (·.toolCallId) ↔ c = call) :
    ∃ a' s', s'.asks = [] ∧ answer env row [⟨call, text⟩] outcome ⟨d, []⟩ =
      .ok () ⟨(d.move row.sessionId row.agentId a' s').store
        (·.settleAgentAsks row.sessionId row.agentId [call] outcome env.now), []⟩ := by
  have htaken := a.handleQueue_answer_taken env s ⟨call, text⟩ hidle hpending
  have hasks : (s.applyAll (a.handleQueue env s (.answer [⟨call, text⟩])).events).asks = [] := by
    rcases a.handleQueue_answer_cases env s [⟨call, text⟩] with ⟨e, he, -⟩ | ⟨-, h⟩
    · rw [htaken] at he
      cases he
    · exact h
  refine ⟨(a.handleQueue env s (.answer [⟨call, text⟩])).actor, _, hasks, ?_⟩
  have hresult : d.answer env row.sessionId row.agentId [⟨call, text⟩] = (.ok (), d.move
      row.sessionId row.agentId (a.handleQueue env s (.answer [⟨call, text⟩])).actor
        (s.applyAll (a.handleQueue env s (.answer [⟨call, text⟩])).events)) := by
    unfold Desk.answer
    rw [hagent]
    dsimp only
    rw [htaken]
  unfold answer
  rw [bind_ok (attempt_nil _ _), hresult]
  rfl

theorem delete_singleton (hrow : row ∈ d.inbox.rows) (hask : row.isAsk = true)
    (hopen : row.isOpen = true) :
    delete env [row.id] ⟨d, []⟩ =
      (decline env row >>= fun _ => write (·.remove [row.id])) ⟨d, []⟩ := by
  have hrows : [row].filter (fun row => row.isAsk && row.isOpen) = [row] := by
    rw [List.filter_singleton, hask, hopen]
    rfl
  unfold delete
  rw [bind_ok (attempt_nil _ _), Inbox.getMany_singleton hrow, hrows]
  cases h : decline env row ⟨d, []⟩ with
  | ok a w =>
    have hloop : [row].forM (decline env) ⟨d, []⟩ = .ok () w := bind_ok h
    rw [bind_ok h]
    exact bind_ok hloop
  | error e w =>
    have hloop : [row].forM (decline env) ⟨d, []⟩ = .error e w := bind_error h
    rw [bind_error h]
    exact bind_error hloop

/-! ## Dealing with an agent's questions -/

variable {session agent : String}

theorem call_ne {other : InboxRow} (hrow : row ∈ d.openAsks session agent)
    (hother : other ∈ d.openAsks session agent) (hne : other ≠ row)
    (hcall : row.toolCallId = some call) : other.toolCallId ≠ some call := by
  intro hsame
  obtain ⟨hrow, hof⟩ := List.mem_filter.mp hrow
  obtain ⟨hother, hof'⟩ := List.mem_filter.mp hother
  simp only [InboxRow.isOpenAsk, InboxRow.isOf, Bool.and_eq_true, decide_eq_true_eq] at hof hof'
  have hkey : callKey ∈ inboxKeys := List.mem_cons_of_mem _ List.mem_cons_self
  refine hne (Table.eq_of_key hkey hother hrow ?_)
  unfold callKey
  rw [hcall, hsame, hof.1.1.1, hof.1.1.2, hof'.1.1.1, hof'.1.1.2]

theorem serve_refused (env : Env)
    (userMessage : Agents → (session agent text : String) → Except String Unit × Agents)
    {other : InboxRow} {request : Request}
    (hrow : row ∈ d.openAsks session agent) (hother : other ∈ d.openAsks session agent)
    (hne : other ≠ row) (hcall : other.toolCallId = some call)
    (hpending : call ∈ d.pendingCalls session agent) (hid : request.id = row.id) :
    ∃ e w, request.serve env userMessage ⟨d, []⟩ = .error e w := by
  have hrow' := hrow
  obtain ⟨hmem, hof⟩ := List.mem_filter.mp hrow'
  simp only [InboxRow.isOpenAsk, InboxRow.isOf, Bool.and_eq_true, decide_eq_true_eq] at hof
  obtain ⟨⟨⟨hsession, hagent⟩, hsome⟩, hopen⟩ := hof
  obtain ⟨own, hown⟩ := Option.isSome_iff_exists.mp hsome
  have hask : row.isAsk = true := decide_eq_true (row.ask_of_call hsome)
  rw [← hsession, ← hagent] at hpending
  have hrefused : ∀ text outcome,
      ∃ e w, answer env row [⟨own, text⟩] outcome ⟨d, []⟩ = .error e w := by
    refine fun text outcome => answer_refused hpending fun hmem => ?_
    rw [List.mem_singleton.mp hmem] at hcall
    exact call_ne hrow hother hne hown hcall
  cases request with
  | delete id =>
    obtain rfl : id = row.id := hid
    obtain ⟨e, w, he⟩ := hrefused agentDeclinedAsk .declined
    have hdecline : decline env row ⟨d, []⟩ = .error e w := by
      unfold decline
      rw [hown]
      exact he
    refine ⟨e, w, ?_⟩
    show delete env [row.id] ⟨d, []⟩ = _
    rw [delete_singleton hmem hask hopen]
    exact bind_error hdecline
  | reply id text =>
    obtain rfl : id = row.id := hid
    show ∃ e w, reply env userMessage row.id text ⟨d, []⟩ = .error e w
    unfold reply
    split_ifs
    · exact ⟨_, _, rfl⟩
    · obtain ⟨e, w, he⟩ := hrefused (trim text) .answered
      have hreply : replyTo env userMessage row (trim text) ⟨d, []⟩ = .error e w := by
        unfold replyTo
        rw [hask, hopen, hown]
        exact he
      refine ⟨e, w, ?_⟩
      rw [bind_ok (attempt_nil _ _), Inbox.getMany_singleton hmem]
      exact bind_error hreply

/-- An agent that waits for answers, with an open row for every call it is parked on. -/
structure Desk.Parked (d : Desk) (session agent : String) : Prop where
  idle : ∃ a s, d.agents session agent = some (a, s) ∧ a.busy = false
  asked : d.pendingCalls session agent ≠ []
  recorded : ∀ call, call ∈ d.pendingCalls session agent ↔
    ∃ row ∈ d.openAsks session agent, row.toolCallId = some call

/-- Requests, one about each of an agent's open questions, release the agent and settle the rows;
and a deletion that fails leaves every pending question its open row. -/
structure DealtWith (env : Env)
    (userMessage : Agents → (session agent text : String) → Except String Unit × Agents) (d : Desk)
    (session agent : String) : Prop where
  released : ∃ (requests : List Request) (d' : Desk),
    (requests.map Request.id).Perm ((d.openAsks session agent).map (·.id)) ∧
    requests.forM (Request.serve env userMessage) ⟨d, []⟩ = .ok () ⟨d', []⟩ ∧
    (∃ a s, d'.agents session agent = some (a, s) ∧ s.asks = []) ∧ d'.openAsks session agent = []
  kept : ∀ ids calls e w, Calm calls → delete env ids ⟨d, calls⟩ = .error e w →
    (∀ row ∈ w.desk.inbox.rows, w.desk.Pending row → row.isOpen = true) ∧
      ∀ row ∈ d.inbox.rows, w.desk.Pending row → row ∈ w.desk.inbox.rows

theorem delete_releases (env : Env) (hparked : d.Parked session agent)
    (hone : d.openAsks session agent = [row]) :
    ∃ d', delete env [row.id] ⟨d, []⟩ = .ok () ⟨d', []⟩ ∧
      (∃ a s, d'.agents session agent = some (a, s) ∧ s.asks = []) ∧
      d'.openAsks session agent = [] := by
  have hrow : row ∈ d.openAsks session agent := hone ▸ List.mem_singleton_self row
  obtain ⟨hmem, hof⟩ := List.mem_filter.mp hrow
  simp only [InboxRow.isOpenAsk, InboxRow.isOf, Bool.and_eq_true, decide_eq_true_eq] at hof
  obtain ⟨⟨⟨hsession, hagent⟩, hsome⟩, hopen⟩ := hof
  obtain ⟨call, hcall⟩ := Option.isSome_iff_exists.mp hsome
  have hask : row.isAsk = true := decide_eq_true (row.ask_of_call hsome)
  obtain ⟨a, s, hresolved, hidle⟩ := hparked.idle
  have hpending : ∀ c, c ∈ s.asks.filterMap (·.toolCallId) ↔ c = call := by
    intro c
    have hrecorded := hparked.recorded c
    rw [Desk.pendingCalls, hresolved, hone] at hrecorded
    simp only [List.mem_singleton, exists_eq_left, hcall, Option.some.injEq] at hrecorded
    exact hrecorded.trans eq_comm
  rw [← hsession, ← hagent] at hresolved
  have hdecline : decline env row = answer env row [⟨call, agentDeclinedAsk⟩] .declined := by
    unfold decline
    rw [hcall]
  obtain ⟨a', s', hasks, htaken⟩ := answer_taken .declined env agentDeclinedAsk hresolved hidle
    hpending
  rw [← hdecline] at htaken
  refine ⟨_, (delete_singleton hmem hask hopen).trans (bind_ok htaken),
    ⟨a', s', by simp [Desk.store, Desk.move, hsession, hagent], hasks⟩, ?_⟩
  refine List.filter_eq_nil_iff.mpr fun r hr => Bool.eq_false_iff.mp ?_
  have hsettled := (Table.mem_delete.mp hr).1
  rw [← hsession, ← hagent]
  exact Inbox.isOpenAsk_settleAgentAsks hsettled

theorem not_dealtWith (env : Env)
    (userMessage : Agents → (session agent text : String) → Except String Unit × Agents)
    (hparked : d.Parked session agent) (hmany : (d.openAsks session agent).length ≠ 1) :
    ¬ DealtWith env userMessage d session agent := by
  rintro ⟨⟨requests, d', hids, hserved, -⟩, -⟩
  obtain ⟨call, hcall⟩ := List.exists_mem_of_ne_nil _ hparked.asked
  obtain ⟨row, hrow, -⟩ := (hparked.recorded call).mp hcall
  cases requests with
  | nil => exact absurd (hids.mem_iff.mpr (List.mem_map_of_mem hrow)) List.not_mem_nil
  | cons request rest =>
    obtain ⟨first, hfirst, hid⟩ :=
      List.mem_map.mp (hids.mem_iff.mp (List.mem_map_of_mem List.mem_cons_self))
    obtain ⟨other, hother, hne⟩ : ∃ other ∈ d.openAsks session agent, other ≠ first := by
      by_contra hnone
      have hall : ∀ r ∈ d.openAsks session agent, r = first := fun r hr =>
        by_contra fun hne => hnone ⟨r, hr, hne⟩
      have hnodup : (d.openAsks session agent).Nodup :=
        (List.Nodup.of_map _ (d.inbox.unique idKey List.mem_cons_self)).filter _
      rw [List.eq_replicate_of_mem hall] at hnodup
      have hle := List.nodup_replicate.mp hnodup
      have hpos := List.length_pos_of_mem hrow
      omega
    have hof := (List.mem_filter.mp hother).2
    simp only [InboxRow.isOpenAsk, Bool.and_eq_true] at hof
    obtain ⟨otherCall, hotherCall⟩ := Option.isSome_iff_exists.mp hof.1.2
    obtain ⟨e, w, he⟩ := serve_refused env userMessage hfirst hother hne hotherCall
      ((hparked.recorded otherCall).mpr ⟨other, hother, hotherCall⟩) hid.symm
    have hfails : (request :: rest).forM (Request.serve env userMessage) ⟨d, []⟩ = .error e w :=
      bind_error he
    rw [hfails] at hserved
    cases hserved

/-- The main agent of a session, parked on `calls` and idle, and the inbox with their rows. -/
def askedDesk (calls : List String) : Desk where
  inbox := (Inbox.recordAsks .empty
    (calls.map fun call => (⟨"s", "main", "go on?", [], false, call⟩, call)) 0).getD .empty
  agents session agent :=
    if session = "s" ∧ agent = "main" then
      some (.new true,
        { AgentState.initial with asks := calls.map fun call => ⟨some call, "go on?", [], false⟩ })
    else none

theorem askedDesk_parked {calls : List String} (hne : calls ≠ [])
    (hrows : ((askedDesk calls).openAsks "s" "main").map (·.toolCallId) = calls.map some) :
    (askedDesk calls).Parked "s" "main" := by
  have hpending : (askedDesk calls).pendingCalls "s" "main" = calls := by
    simp [Desk.pendingCalls, askedDesk, List.filterMap_map]
  refine ⟨⟨_, _, rfl, rfl⟩, by rwa [hpending], fun call => ?_⟩
  rw [hpending, ← List.mem_map, hrows]
  simp

theorem askedDesk_agrees {calls : List String}
    (hrows : (askedDesk calls).inbox.rows.all InboxRow.isOpen = true) :
    (askedDesk calls).Agrees := fun row hrow _ => List.all_eq_true.mp hrows row hrow

def exampleEnv : Env := ⟨7, "m", "x", "t", false⟩

def noMessages (agents : Agents) (_session _agent _text : String) : Except String Unit × Agents :=
  (.ok (), agents)

/-- The agent, done with what it was answered, asks again, and that is recorded. -/
def askAnew (d : Desk) : Desk where
  inbox := (d.inbox.recordAsks [(⟨"s", "main", "and now?", [], false, "c2"⟩, "c2")] 1).getD d.inbox
  agents := (askedDesk ["c2"]).agents

end Horsie.UserInbox
