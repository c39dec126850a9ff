import Horsie.Agent.Answering
import Horsie.AgentCore.Run

/-!
# The run and the journal

A run keeps its own history; the journal is written from the events it emits (`coarseEvent`) and
from the hook records in between. Before a provider call the two agree exactly if they agreed when
the run started and every batch before was in step: it was executed rather than refused, its results
were journaled in the order they were requested in, and no hook showed the model anything
(`live_run_agrees`).
-/

namespace Horsie.Agent

open AgentCore (AgentEvent AgentConfig CompactionEnv Run Round Written Batch)

/-- The coarse event a run's event is journaled as. A run's input is journaled by the actor. -/
def coarseEvent : AgentEvent → Option AgentDomainEvent
  | .messageComplete m => some (.messageComplete m)
  | .toolComplete c => some (.toolComplete c)
  | .runComplete usage iterations contextTokens atMs =>
    some (.runComplete usage iterations contextTokens atMs)
  | .runAborted usage contextTokens atMs => some (.runAborted usage contextTokens atMs)
  | .compacted fact => some (.compacted fact)
  | .compactionSkipped contextTokens retainTokens atMs =>
    some (.lifecycleRecorded (.compactionSkipped contextTokens retainTokens) atMs)
  | .inputMessage _ _ | .messageStart _ | .textChunk _ | .messageStop _ | .toolExecuting _ => none

def journaled? : Written → Option AgentDomainEvent
  | .event e => coarseEvent e
  | .hook record seq atMs => some (.hookRan record seq atMs)

def journal (ws : List Written) : List AgentDomainEvent := ws.filterMap journaled?

def shownBy (ws : List Written) : List Message := (journal ws).flatMap (·.shows)

/-- The history of a run and the prompt of the state its journal folds to. -/
def Agrees (s : AgentState) (r : Run) : Prop :=
  r.agent.history.map Message.content =
    (s.applyAll (journal r.written)).promptMessages.map Message.content

/-- The run compacted nothing. -/
def Uncompacted (ws : List Written) : Prop := ∀ f, Written.event (.compacted f) ∉ ws

def compacts : Written → Bool
  | .event (.compacted _) => true
  | .event (.inputMessage _ _) | .event (.messageStart _) | .event (.textChunk _)
  | .event (.messageStop _) | .event (.messageComplete _) | .event (.toolExecuting _)
  | .event (.toolComplete _) | .event (.runComplete _ _ _ _) | .event (.runAborted _ _ _)
  | .event (.compactionSkipped _ _ _) | .hook _ _ _ => false

instance (ws : List Written) : Decidable (Uncompacted ws) :=
  decidable_of_iff (∀ w ∈ ws, compacts w = false)
    ⟨fun h f hf => by simpa [compacts] using h _ hf, fun h w hw => by
      cases w with
      | hook => rfl
      | event e => cases e <;> first | rfl | exact absurd hw (h _)⟩

/-! ## What is written down -/

theorem shownBy_append (ws vs : List Written) : shownBy (ws ++ vs) = shownBy ws ++ shownBy vs := by
  rw [shownBy, journal, List.filterMap_append, List.flatMap_append]
  rfl

theorem shownBy_event (e : AgentEvent) :
    shownBy [.event e] = (coarseEvent e).toList.flatMap (·.shows) := by
  cases h : coarseEvent e <;> simp [shownBy, journal, journaled?, h]

theorem shownBy_hook (record : HookRecord) (seq atMs : ℕ) :
    shownBy [.hook record seq atMs] = (translate (hookEntry record seq atMs)).toList := by
  simp [shownBy, journal, journaled?, AgentDomainEvent.shows]

theorem journal_ne_seeded (ws : List Written) :
    ∀ e ∈ journal ws, ∀ st seed, e ≠ .seeded st seed := by
  rintro e he st seed rfl
  obtain ⟨w, -, hw⟩ := List.mem_filterMap.mp he
  cases w with
  | hook => cases hw
  | event e => cases e <;> cases hw

variable {ws : List Written}

theorem Uncompacted.journal (h : Uncompacted ws) :
    ∀ e ∈ journal ws, ∀ f, e ≠ .compacted f := by
  rintro e he f rfl
  obtain ⟨w, hmem, hw⟩ := List.mem_filterMap.mp he
  cases w with
  | hook => cases hw
  | event e =>
    cases e with
    | compacted f' => exact h _ hmem
    | _ => cases hw

theorem Uncompacted.of_append {vs : List Written} (h : Uncompacted (ws ++ vs)) :
    Uncompacted ws ∧ Uncompacted vs :=
  ⟨fun f hf => h f (List.mem_append_left _ hf), fun f hf => h f (List.mem_append_right _ hf)⟩

variable {r : Run} {s : AgentState}

/-- Without a compaction, the prompt grows by what is written down. -/
theorem agrees_iff (hs : s.Windowed) (hc : Uncompacted r.written) :
    Agrees s r ↔ r.agent.history.map Message.content =
      (s.promptMessages ++ shownBy r.written).map Message.content := by
  rw [Agrees, (AgentState.promptMessages_applyAll hs (journal_ne_seeded _) hc.journal).1]
  rfl

/-! ## A batch -/

theorem translate_eq_none {record : HookRecord} {seq atMs : ℕ} :
    translate (hookEntry record seq atMs) = none ↔ record.action.injected? = none :=
  Option.map_eq_none_iff

theorem shownBy_arrivals {b : Batch} (calls : List ToolCallPart) (h : b.Unseen) :
    shownBy (b.arrivals.filterMap (b.write calls)) =
      (b.completions calls).map ToolCompletion.message := by
  have hlist : ∀ l : List AgentCore.Arrival,
      (∀ record seq atMs, .hook record seq atMs ∈ l → record.action.injected? = none) →
      shownBy (l.filterMap (b.write calls)) =
        (l.filterMap (b.completed? calls)).map ToolCompletion.message := by
    intro l
    induction l with
    | nil => exact fun _ => rfl
    | cons a l ih =>
      intro h
      have hl := ih fun record seq atMs hmem => h record seq atMs (List.mem_cons_of_mem _ hmem)
      cases a with
      | hook record seq atMs =>
        have hnone : translate (hookEntry record seq atMs) = none :=
          translate_eq_none.mpr (h record seq atMs List.mem_cons_self)
        have hw : b.write calls (.hook record seq atMs) = some (.hook record seq atMs) := rfl
        have hd : b.completed? calls (.hook record seq atMs) = none := rfl
        rw [List.filterMap_cons_some hw, List.filterMap_cons_none hd, ← List.singleton_append,
          shownBy_append, shownBy_hook, hnone, hl]
        rfl
      | result i =>
        cases hc : b.completed? calls (.result i) with
        | none =>
          have hw : b.write calls (.result i) = none := by rw [Batch.write, hc]; rfl
          rw [List.filterMap_cons_none hw, List.filterMap_cons_none hc, hl]
        | some c =>
          have hw : b.write calls (.result i) = some (.event (.toolComplete c)) := by
            rw [Batch.write, hc]
            rfl
          rw [List.filterMap_cons_some hw, List.filterMap_cons_some hc, ← List.singleton_append,
            shownBy_append, shownBy_event, hl]
          rfl
  exact hlist b.arrivals h

theorem unseen_of_tools {b : Batch} {calls : List ToolCallPart}
    (h : ∀ m ∈ shownBy (b.arrivals.filterMap (b.write calls)), m.role = .tool) : b.Unseen := by
  intro record seq atMs hmem
  rw [← translate_eq_none]
  cases ht : translate (hookEntry record seq atMs) with
  | none => rfl
  | some m =>
    have hshow : m ∈ shownBy (b.arrivals.filterMap (b.write calls)) := by
      refine List.mem_flatMap.mpr ⟨.hookRan record seq atMs, List.mem_filterMap.mpr
        ⟨.hook record seq atMs, List.mem_filterMap.mpr ⟨_, hmem, rfl⟩, rfl⟩, ?_⟩
      simp [AgentDomainEvent.shows, ht]
    exact absurd (h m hshow) (by simp [(translate_spec ht).1])

theorem shownBy_written (b : Batch) (calls : List ToolCallPart) :
    shownBy (b.written calls) = shownBy (b.arrivals.filterMap (b.write calls)) := by
  have hexec : shownBy (calls.map fun c => .event (.toolExecuting c.id)) = [] := by
    induction calls with
    | nil => rfl
    | cons c calls ih =>
      rw [List.map_cons, ← List.singleton_append, shownBy_append, shownBy_event, ih]
      rfl
  rw [Batch.written, shownBy_append, hexec, List.nil_append]

/-- The results a run pushes are those the journal shows exactly if the batch was in step. -/
theorem results_agree_iff (b : Batch) (calls : List ToolCallPart) :
    ((b.results calls).map ToolCompletion.message).map Message.content =
      (shownBy (b.written calls)).map Message.content ↔ b.Unseen ∧ b.InOrder calls := by
  rw [shownBy_written]
  constructor
  · intro h
    have hunseen : b.Unseen := unseen_of_tools fun m hm => by
      have hmem : m.content ∈ ((b.results calls).map ToolCompletion.message).map Message.content :=
        h ▸ List.mem_map_of_mem hm
      rw [List.map_map] at hmem
      obtain ⟨c, -, hcm⟩ := List.mem_map.mp hmem
      exact (congrArg Prod.fst hcm).symm
    refine ⟨hunseen, ?_⟩
    rw [shownBy_arrivals calls hunseen, List.map_map, List.map_map] at h
    exact h.symm
  · rintro ⟨hunseen, horder⟩
    rw [shownBy_arrivals calls hunseen, List.map_map, List.map_map]
    exact horder.symm

/-- What a refused batch is answered with in the run's history is nowhere in the journal. -/
theorem nudges_disagree (b : Batch) {calls : List ToolCallPart} (hc : calls ≠ []) (now : ℕ) :
    (calls.map (AgentCore.nudgeMessage now)).map Message.content ≠
      (shownBy b.hooks).map Message.content := by
  intro h
  obtain ⟨call, hcall⟩ := List.exists_mem_of_ne_nil _ hc
  have hmem : (AgentCore.nudgeMessage now call).content ∈ (shownBy b.hooks).map Message.content :=
    h ▸ List.mem_map_of_mem (List.mem_map_of_mem hcall)
  obtain ⟨m, hm, heq⟩ := List.mem_map.mp hmem
  have hrole : m.role = .tool := congrArg Prod.fst heq
  obtain ⟨e, he, hme⟩ := List.mem_flatMap.mp hm
  obtain ⟨w, hw, hwe⟩ := List.mem_filterMap.mp he
  obtain ⟨a, -, ha⟩ := List.mem_filterMap.mp hw
  cases a with
  | result => cases ha
  | hook record seq atMs =>
    cases ha
    cases hwe
    rw [(translate_spec (Option.mem_toList.mp hme)).1] at hrole
    cases hrole

/-! ## An iteration -/

theorem append_cons_inj_last {α : Type*} {p : α → Prop} {a a' b b' : List α} {m : α} (hm : p m)
    (hb : ∀ x ∈ b, ¬p x) (hb' : ∀ x ∈ b', ¬p x) :
    a ++ m :: b = a' ++ m :: b' ↔ a = a' ∧ b = b' := by
  refine ⟨fun h => ?_, fun ⟨h, h'⟩ => h ▸ h' ▸ rfl⟩
  rcases List.append_eq_append_iff.mp h with ⟨t, rfl, ht⟩ | ⟨t, rfl, ht⟩
  · cases t with
    | nil => exact ⟨(List.append_nil a).symm, (List.cons.inj ht).2⟩
    | cons x t =>
      have hmem : m ∈ b := by
        rw [(List.cons.inj ht).2]
        exact List.mem_append_right _ List.mem_cons_self
      exact absurd hm (hb m hmem)
  · cases t with
    | nil => exact ⟨List.append_nil a', (List.cons.inj ht).2.symm⟩
    | cons x t =>
      have hmem : m ∈ b' := by
        rw [(List.cons.inj ht).2]
        exact List.mem_append_right _ List.mem_cons_self
      exact absurd hm (hb' m hmem)

/-- A check that compacted nothing leaves the history, and says nothing the model sees. -/
theorem maybeCompact_uncompacted {env : CompactionEnv}
    (h : Uncompacted (r.maybeCompact env).written) :
    (r.maybeCompact env).agent = r.agent ∧
      shownBy (r.maybeCompact env).written = shownBy r.written := by
  have hevents := h.of_append.2
  have hcases : (r.agent.maybeCompact env).1 = r.agent ∧
      ∀ e ∈ (r.agent.maybeCompact env).2, ∃ c t n, e = .compactionSkipped c t n := by
    rcases r.agent.maybeCompact_cases env with hm | hm
    · rw [hm] at hevents ⊢
      rcases r.agent.compact_cases none .auto env with ⟨summary, -, -, -, he⟩ | hkeep
      · rw [he] at hevents
        exact absurd List.mem_cons_self (hevents _)
      · exact hkeep
    · rw [hm]
      exact ⟨rfl, fun e he => absurd he List.not_mem_nil⟩
  refine ⟨hcases.1, ?_⟩
  have hnil : shownBy ((r.agent.maybeCompact env).2.map .event) = [] := by
    refine List.flatMap_eq_nil_iff.mpr fun e he => ?_
    obtain ⟨w, hw, hwe⟩ := List.mem_filterMap.mp he
    obtain ⟨x, hx, rfl⟩ := List.mem_map.mp hw
    obtain ⟨c, t, n, rfl⟩ := hcases.2 x hx
    cases hwe
    rfl
  exact (shownBy_append _ _).trans (by rw [hnil, List.append_nil])

theorem shownBy_events (es : List AgentEvent) :
    shownBy (es.map .event) = (es.filterMap coarseEvent).flatMap (·.shows) := by
  rw [shownBy, journal, List.filterMap_map]
  rfl

theorem shownBy_callEvents (round : Round) (response : AgentCore.CompletionResponse) :
    shownBy ((Run.callEvents round response).map .event) =
      [Run.assistantMessage round response] := by
  have hchunks : (round.chunks.map AgentEvent.textChunk).filterMap coarseEvent = [] :=
    List.filterMap_eq_nil_iff.mpr fun e he => by
      obtain ⟨t, -, rfl⟩ := List.mem_map.mp he
      rfl
  rw [shownBy_events, Run.callEvents, List.filterMap_append, List.filterMap_cons_none rfl, hchunks]
  rfl

/-- What a run and the journal put behind the provider's message, in an iteration: neither is an
assistant's, and they are the same exactly if the batch was in step. -/
theorem tails_agree_iff (r : Run) (round : Round) (hne : round.calls ≠ []) :
    (if r.nudges round then round.calls.map (AgentCore.nudgeMessage round.answeredMs)
        else (round.batch.results round.calls).map ToolCompletion.message).map Message.content =
      (shownBy (if r.nudges round then round.batch.hooks
        else round.batch.written round.calls)).map Message.content ↔
    r.nudges round = false ∧ round.batch.Unseen ∧ round.batch.InOrder round.calls := by
  cases r.nudges round with
  | true => simpa using nudges_disagree round.batch hne round.answeredMs
  | false => simpa using results_agree_iff round.batch round.calls

theorem shownBy_no_assistant
    (h : ∀ m, Written.event (.messageComplete m) ∉ ws) : ∀ m ∈ shownBy ws, m.role ≠ .assistant := by
  intro m hm
  obtain ⟨e, he, hme⟩ := List.mem_flatMap.mp hm
  obtain ⟨w, hw, hwe⟩ := List.mem_filterMap.mp he
  cases w with
  | hook record seq atMs =>
    cases hwe
    rw [(translate_spec (Option.mem_toList.mp hme)).1]
    decide
  | event e =>
    cases e with
    | messageComplete k => exact absurd hw (h k)
    | toolComplete c =>
      cases hwe
      obtain rfl := List.mem_singleton.mp hme
      exact show Role.tool ≠ .assistant by decide
    | runComplete | runAborted | compacted | compactionSkipped =>
      cases hwe
      cases hme
    | inputMessage | messageStart | textChunk | messageStop | toolExecuting => cases hwe

/-- One iteration: the run and the journal agree after it exactly if they did before and its batch
was in step. -/
theorem agrees_again (hs : s.Windowed) {r' : Run} {round : Round}
    (h : r.iterate round = .again r') (hc : Uncompacted r'.written) :
    Uncompacted r.written ∧ (Agrees s r' ↔ Agrees s r ∧
      r.nudges round = false ∧ round.batch.Unseen ∧ round.batch.InOrder round.calls) := by
  obtain ⟨response, hne, hhist, hwritten⟩ := Run.iterate_again h
  have hcheck : Uncompacted (r.maybeCompact round.compaction).written :=
    ((hwritten ▸ hc).of_append.1).of_append.1
  obtain ⟨hagent, hshown⟩ := maybeCompact_uncompacted hcheck
  have hr : Uncompacted r.written := hcheck.of_append.1
  refine ⟨hr, ?_⟩
  rw [agrees_iff hs hc, agrees_iff hs hr, hhist, hwritten, hagent, shownBy_append, shownBy_append,
    hshown, shownBy_callEvents, ← tails_agree_iff r round hne, List.append_assoc,
    List.singleton_append, ← List.append_assoc, List.map_append, List.map_append, List.map_cons,
    List.map_cons]
  refine append_cons_inj_last (p := fun x => x.1 = Role.assistant) rfl ?_ ?_
  · intro x hx
    obtain ⟨m, hm, rfl⟩ := List.mem_map.mp hx
    split_ifs at hm
    · obtain ⟨call, -, rfl⟩ := List.mem_map.mp hm
      exact show Role.tool ≠ .assistant by decide
    · obtain ⟨c, -, rfl⟩ := List.mem_map.mp hm
      exact show Role.tool ≠ .assistant by decide
  · intro x hx
    obtain ⟨m, hm, rfl⟩ := List.mem_map.mp hx
    refine shownBy_no_assistant (fun k hk => ?_) m hm
    split_ifs at hk
    · obtain ⟨a, -, ha⟩ := List.mem_filterMap.mp hk
      cases a <;> cases ha
    · rcases List.mem_append.mp hk with hk | hk
      · obtain ⟨c, -, hck⟩ := List.mem_map.mp hk
        cases hck
      · obtain ⟨a, -, ha⟩ := List.mem_filterMap.mp hk
        cases a with
        | hook => cases ha
        | result i =>
          obtain ⟨c, -, hck⟩ := Option.map_eq_some_iff.mp ha
          cases hck

theorem agrees_after (hs : s.Windowed) {r' : Run} {rounds : List Round}
    (h : r.after? rounds = some r') (hc : Uncompacted r'.written) :
    Uncompacted r.written ∧ (Agrees s r' ↔ Agrees s r ∧ r.InStep rounds) := by
  induction rounds generalizing r with
  | nil =>
    cases h
    exact ⟨hc, (and_iff_left trivial).symm⟩
  | cons round rounds ih =>
    rw [Run.after?] at h
    cases hi : r.iterate round with
    | ended => simp [hi] at h
    | again r1 =>
      simp only [hi] at h
      obtain ⟨hc1, hiff⟩ := ih h
      obtain ⟨hc0, hstep⟩ := agrees_again hs hi hc1
      refine ⟨hc0, ?_⟩
      rw [hiff, hstep, Run.InStep, hi]
      exact and_assoc

/-! ## How a run is started -/

/-- What a run task's attempt at its run finds: what earlier attempts spent that failed before they
had journaled anything else, and what a compaction asked for finds. -/
structure Opening where
  aborted : List (Usage × ℕ × ℕ)
  compaction : CompactionEnv
  now : ℕ

def RunTask.compacted (t : RunTask) (config : AgentConfig) (o : Opening) :
    AgentCore.Agent × List AgentEvent :=
  let agent : AgentCore.Agent := ⟨config, t.history, true, t.contextTokens⟩
  match t.summarise with
  | some (.compact instructions) => agent.compact instructions .manual o.compaction
  | some (.subSession _) | none => (agent, [])

def RunTask.attempt? (t : RunTask) (config : AgentConfig) (o : Opening) : Option Run :=
  if t.summariseOnly then none
  else
    some (.start (t.compacted config o).1
      (o.aborted.map (fun x => .runAborted x.1 x.2.1 x.2.2) ++ (t.compacted config o).2)
      t.input o.now)

/-- The two ways a run is started: with a prepared turn, and by a reload. -/
inductive RunStart
  | prepared (a : AgentActor) (env : Env) (state : AgentState) (p : PreparedStart)
  | reload (a : AgentActor) (params : AgentParams) (env : Env) (state : AgentState)

namespace RunStart

def before : RunStart → AgentState
  | .prepared _ _ s _ | .reload _ _ _ s => s

def effect : RunStart → Effect
  | .prepared a env s p => a.startPrepared env s p
  | .reload a params env s => a.onRecoveryComplete params env s

/-- The state a run starts from. The repair a reload tells the agent is journaled before anything
its run sends. -/
def state : RunStart → AgentState
  | .prepared a env s p => s.applyAll (a.startPrepared env s p).events
  | .reload _ _ env s =>
    s.applyAll ((missingToolResults s.promptMessages s.parkedCallIds env.now).map .inputMessage)

/-- The run is started with a turn, and its prompt needs no repair: every tool call in it has its
result or is about to get it. -/
def Clean : RunStart → Prop
  | .prepared _ env s p =>
    ∀ c ∈ toolExchange.allCalls (s.applyAll (hookEvents s p.records env.now)).promptMessages,
      c ∈ answeredIds (s.applyAll (hookEvents s p.records env.now)).promptMessages ++
        p.turn.answering
  | .reload _ _ _ _ => False

instance (st : RunStart) : Decidable st.Clean := by
  unfold Clean
  split <;> infer_instance

end RunStart

/-- A repair that changes what a history says adds to it. -/
theorem repairDangling_content_iff (l : List Message) (answering : List String) (now : ℕ) :
    (repairDangling l answering now).map Message.content = l.map Message.content ↔
      ∀ c ∈ toolExchange.allCalls l, c ∈ answeredIds l ++ answering := by
  rw [repairDangling_eq_mend]
  constructor
  · intro h c hc
    have hlen := congrArg List.length h
    rw [List.length_map, List.length_map, Lib.Exchange.length_mend] at hlen
    have hnil := List.eq_nil_of_length_eq_zero (Nat.add_eq_left.mp hlen)
    by_contra hopen
    exact List.filter_eq_nil_iff.mp hnil c hc (by rw [decide_eq_false hopen]; rfl)
  · intro h
    rw [Lib.Exchange.mend_of_known fun c hc => decide_eq_true (h c hc)]

theorem AgentInput.toMessage_content (input : AgentInput) (t t' : ℕ) :
    (input.toMessage t).content = (input.toMessage t').content := by
  cases input <;> rfl

theorem agrees_attempt (hs : s.Windowed) {t : RunTask} {config : AgentConfig}
    {o : Opening} {first : Run} (hf : t.attempt? config o = some first)
    (hc : Uncompacted first.written) :
    t.summariseOnly = false ∧ (Agrees s first ↔
      (t.history ++ [t.input.toMessage o.now]).map Message.content =
        s.promptMessages.map Message.content) := by
  obtain ⟨honly, hf⟩ := Option.ite_none_left_eq_some.mp hf
  cases hf
  refine ⟨Bool.eq_false_iff.mpr honly, ?_⟩
  have hevents : Uncompacted ((t.compacted config o).2.map .event) := by
    have := hc.of_append.1
    rw [List.map_append] at this
    exact this.of_append.2
  have hcompacted : (t.compacted config o).1.history = t.history ∧
      shownBy ((t.compacted config o).2.map .event) = [] := by
    unfold RunTask.compacted at hevents ⊢
    split at hevents
    · rename_i instructions hsum
      rcases (AgentCore.Agent.mk config t.history true t.contextTokens).compact_cases instructions
        .manual o.compaction with ⟨summary, -, -, -, he⟩ | ⟨ha, hskip⟩
      · rw [he] at hevents
        exact absurd List.mem_cons_self (hevents _)
      · refine ⟨by rw [ha], ?_⟩
        rw [shownBy_events]
        refine List.flatMap_eq_nil_iff.mpr fun e he => ?_
        obtain ⟨x, hx, hxe⟩ := List.mem_filterMap.mp he
        obtain ⟨c, k, n, rfl⟩ := hskip x hx
        cases hxe
        rfl
    · exact ⟨rfl, rfl⟩
    · exact ⟨rfl, rfl⟩
  have haborted : shownBy ((o.aborted.map fun x =>
      AgentEvent.runAborted x.1 x.2.1 x.2.2).map .event) = [] := by
    rw [shownBy_events]
    refine List.flatMap_eq_nil_iff.mpr fun e he => ?_
    obtain ⟨x, hx, hxe⟩ := List.mem_filterMap.mp he
    obtain ⟨y, -, rfl⟩ := List.mem_map.mp hx
    cases hxe
    rfl
  have hshown : shownBy (Run.start (t.compacted config o).1
      (o.aborted.map (fun x => .runAborted x.1 x.2.1 x.2.2) ++ (t.compacted config o).2)
      t.input o.now).written = [] := by
    simp only [Run.start, Run.emit, Run.push]
    rw [shownBy_append, List.map_append, shownBy_append, haborted, hcompacted.2]
    rfl
  rw [agrees_iff hs hc, hshown, List.append_nil]
  simp only [Run.start, Run.emit, Run.push, hcompacted.1]

theorem prompt_hookEvents (hs : s.Windowed) (records : List HookRecord) (now : ℕ) :
    (s.applyAll (hookEvents s records now)).Windowed := by
  have hhook : ∀ e ∈ hookEvents s records now, ∃ r i t, e = .hookRan r i t := fun e he => by
    obtain ⟨i, hi, rfl⟩ := List.mem_mapIdx.mp he
    exact ⟨_, _, _, rfl⟩
  refine (AgentState.promptMessages_applyAll hs (fun e he st seed => ?_) fun e he f => ?_).2
  all_goals
    obtain ⟨r, i, t, rfl⟩ := hhook e he
    exact fun h => by cases h

theorem prompt_inputs (hs : s.Windowed) (ms : List Message) :
    (s.applyAll (ms.map .inputMessage)).promptMessages = s.promptMessages ++ ms ∧
      (s.applyAll (ms.map .inputMessage)).Windowed := by
  have hinput : ∀ e ∈ ms.map AgentDomainEvent.inputMessage, ∃ m, e = .inputMessage m := by
    intro e he
    obtain ⟨m, -, rfl⟩ := List.mem_map.mp he
    exact ⟨m, rfl⟩
  obtain ⟨hprompt, hw⟩ := AgentState.promptMessages_applyAll hs
    (fun e he st seed => by obtain ⟨m, rfl⟩ := hinput e he; simp)
    fun e he f => by obtain ⟨m, rfl⟩ := hinput e he; simp
  refine ⟨hprompt.trans (congrArg _ ?_), hw⟩
  simp [List.flatMap_map, AgentDomainEvent.shows]

theorem agrees_start (st : RunStart) (h : st.before.Recorded) {t : RunTask}
    (ht : t ∈ st.effect.runs) (honly : t.summariseOnly = false) (now : ℕ) :
    st.state.Windowed ∧ ((t.history ++ [t.input.toMessage now]).map Message.content =
      st.state.promptMessages.map Message.content ↔ st.Clean) := by
  cases st with
  | prepared a env s p =>
    have hs : s.Windowed := h.windowed
    cases hab : p.abandon with
    | some abandon =>
      have hnone : (a.startPrepared env s p).runs = [] := by
        simp [AgentActor.startPrepared, hab, Effect.runs]
      exact absurd (hnone ▸ ht) List.not_mem_nil
    | none =>
      obtain ⟨-, hev, hruns⟩ := a.startPrepared_runs env s hab
      obtain ⟨hhist, hinput, hsum⟩ := hruns t ht
      have hfolded := prompt_hookEvents hs p.records env.now
      obtain ⟨hprompt, hw⟩ := prompt_inputs hfolded (p.turn.inputMessages env)
      have hstate : (RunStart.prepared a env s p).state = (s.applyAll
          (hookEvents s p.records env.now)).applyAll ((p.turn.inputMessages env).map
            .inputMessage) := by
        rw [RunStart.state, hev, AgentState.applyAll_append]
      have hinputs : p.turn.inputMessages env =
          p.turn.recorded env.now ++ [(p.turn.input env.messageId).toMessage env.now] := by
        rw [Turn.inputMessages, ← hsum, honly]
        rfl
      rw [hstate]
      refine ⟨hw, ?_⟩
      rw [hprompt, hhist, hinput, hinputs, List.append_assoc, List.map_append, List.map_append,
        List.map_append, List.map_append, List.map_singleton, List.map_singleton,
        AgentInput.toMessage_content _ now env.now, List.append_cancel_right_eq,
        repairDangling_content_iff]
      rfl
  | reload a params env s =>
    have hs : s.Windowed := h.windowed
    obtain ⟨hprompt, hw⟩ := prompt_inputs hs
      (missingToolResults s.promptMessages s.parkedCallIds env.now)
    refine ⟨hw, iff_of_false (fun heq => ?_) id⟩
    -- the run is told to continue, which is not journaled
    have hhist : t.history = repairDangling s.promptMessages [] env.now := by
      rcases a.onRecoveryComplete_cases params env s with ⟨-, -, hruns⟩ | ⟨-, -, hruns⟩
      · exact absurd (hruns ▸ ht) List.not_mem_nil
      · obtain rfl := List.mem_singleton.mp (hruns ▸ ht)
        rfl
    have hmissing : (missingToolResults s.promptMessages s.parkedCallIds env.now).length ≤
        ((toolExchange.allCalls s.promptMessages).filter
          fun c => !decide (c ∈ answeredIds s.promptMessages ++ [])).length := by
      rw [missingToolResults, List.length_map]
      refine (List.monotone_filter_right _ fun c hc => ?_).length_le
      simp only [Bool.and_eq_true, decide_eq_true_eq] at hc
      simpa using hc.1
    have hlen := congrArg List.length heq
    rw [RunStart.state, hprompt, hhist, repairDangling_eq_mend] at hlen
    simp only [List.length_map, List.length_append, List.length_singleton,
      Lib.Exchange.length_mend] at hlen
    omega

/-! ## The run and the journal -/

/-- Before every provider call of a run that has compacted nothing, what the run is about to send
says what the state prompts with that its journal folds to, if and only if the run was started clean
and every round before was in step. -/
theorem live_run_agrees (st : RunStart) (h : st.before.Recorded) {t : RunTask}
    (ht : t ∈ st.effect.runs) {config : AgentConfig} {o : Opening} {first r : Run}
    {rounds : List Round} (hf : t.attempt? config o = some first)
    (hr : first.after? rounds = some r) (env : CompactionEnv)
    (hc : Uncompacted (r.maybeCompact env).written) :
    Agrees st.state (r.maybeCompact env) ↔ st.Clean ∧ first.InStep rounds := by
  obtain ⟨hagent, hshown⟩ := maybeCompact_uncompacted hc
  have hcr : Uncompacted r.written := hc.of_append.1
  have honly : t.summariseOnly = false :=
    Bool.eq_false_iff.mpr (Option.ite_none_left_eq_some.mp hf).1
  obtain ⟨hw, hstart⟩ := agrees_start st h ht honly o.now
  obtain ⟨hcf, hafter⟩ := agrees_after hw hr hcr
  have hcheck : Agrees st.state (r.maybeCompact env) ↔ Agrees st.state r := by
    rw [agrees_iff hw hc, agrees_iff hw hcr, hagent, hshown]
  rw [hcheck, hafter, (agrees_attempt hw hf hcf).2, hstart]

/-! ## A run that went on alone -/

def bashRound (id : String) : Round where
  cancelledAtTop := false
  compaction := ⟨.proceed, none, "", 0⟩
  messageId := id
  callStartedMs := 0
  chunks := []
  answer := .response ⟨[.toolCall ⟨"call:" ++ id, "bash", .null⟩], .toolUse, ⟨0, 0, none, none⟩⟩
  answeredMs := 0
  cancelledBeforeTools := false
  batch := ⟨fun _ => ⟨.result ⟨.str "ok", [], 0, 0⟩, 0, 0⟩, [.result 0], by decide, false⟩

def helloStart : RunStart :=
  .prepared (.new true) ⟨0, "m", "a", "t", false⟩
    (AgentState.initial.applyEvent (.received (.user "u0" "hello" []) 0))
    ⟨(queuedTurn [.user "u0" "hello" []] []).get (by decide), [], none⟩

def helloRun : Run :=
  ((helloStart.effect.runs.head (by decide)).attempt? .default
    ⟨[], ⟨.proceed, none, "", 0⟩, 0⟩).get (by decide)

def nudgedRun : Run :=
  (helloRun.after? [bashRound "r0", bashRound "r1", bashRound "r2"]).get (by decide)

/-- The third identical batch is refused, and the refusal is in the run's history only. -/
theorem nudged_run_disagrees :
    helloStart.before.Recorded ∧
      helloRun.after? [bashRound "r0", bashRound "r1", bashRound "r2"] = some nudgedRun ∧
      Uncompacted nudgedRun.written ∧ ¬ Agrees helloStart.state nudgedRun := by
  refine ⟨.event .initial (by simp), (Option.some_get _).symm, by decide, fun h => ?_⟩
  have hlen := congrArg List.length h
  rw [List.length_map, List.length_map] at hlen
  cases hlen

def calledRun : Run := (helloRun.after? [bashRound "r0", bashRound "r1"]).get (by decide)

/-- Two rounds before, the two agree. -/
theorem live_run_agrees_called :
    Agrees helloStart.state (calledRun.maybeCompact ⟨.proceed, none, "", 0⟩) := by
  have hround : ∀ id, (bashRound id).batch.Unseen ∧
      (bashRound id).batch.InOrder (bashRound id).calls := fun id =>
    ⟨fun _ _ _ hmem => by simp [bashRound] at hmem, rfl⟩
  refine (live_run_agrees helloStart (.event .initial (by simp)) (List.head_mem _)
    (Option.some_get _).symm (Option.some_get _).symm _ (by decide)).mpr ⟨by decide, ?_⟩
  exact ⟨⟨by decide, hround _⟩, ⟨by decide, hround _⟩, trivial⟩

end Horsie.Agent
