import Horsie.Agent.LiveRun
import Horsie.LlmProviders.Anthropic

/-!
# What a run costs

A run adds up what its provider calls report in 32 bits and journals the sum when it ends; the
agent adds that to its running totals in 64. The journaled usage is the exact sum exactly when the
exact sum fits (`run_usage_exact`). What a compaction's summarising call costs is counted nowhere.
-/

namespace Horsie.Agent

open AgentCore (Agent Run Round RunAccounting AgentError AgentResult AgentEvent)
open LlmProviders (Counts)

/-! ## Exact sums -/

/-- The exact sum of two optional counts. -/
def plusOptional : Option ℕ → Option ℕ → Option ℕ
  | none, none => none
  | a, b => some (a.getD 0 + b.getD 0)

namespace Usage

def zero : Usage := ⟨0, 0, none, none⟩

def plus (u v : Usage) : Usage where
  inputTokens := u.inputTokens + v.inputTokens
  outputTokens := u.outputTokens + v.outputTokens
  cacheCreationTokens := plusOptional u.cacheCreationTokens v.cacheCreationTokens
  cacheReadTokens := plusOptional u.cacheReadTokens v.cacheReadTokens

def total (us : List Usage) : Usage := us.foldr plus zero

/-- The low `w` bits of every count. -/
def wrap (w : ℕ) (u : Usage) : Usage where
  inputTokens := u.inputTokens % 2 ^ w
  outputTokens := u.outputTokens % 2 ^ w
  cacheCreationTokens := u.cacheCreationTokens.map (· % 2 ^ w)
  cacheReadTokens := u.cacheReadTokens.map (· % 2 ^ w)

/-- Every count is a `w`-bit number. -/
structure Fits (w : ℕ) (u : Usage) : Prop where
  input : u.inputTokens < 2 ^ w
  output : u.outputTokens < 2 ^ w
  creation : ∀ c ∈ u.cacheCreationTokens, c < 2 ^ w
  read : ∀ c ∈ u.cacheReadTokens, c < 2 ^ w

theorem map_mod_eq_self {w : ℕ} {c : Option ℕ} :
    c.map (· % 2 ^ w) = c ↔ ∀ n ∈ c, n < 2 ^ w := by
  cases c with
  | none => simp
  | some n => simp [Nat.mod_eq_iff_lt]

theorem wrap_eq_self {w : ℕ} {u : Usage} : u.wrap w = u ↔ u.Fits w := by
  have hpow : 2 ^ w ≠ 0 := (Nat.two_pow_pos w).ne'
  constructor
  · intro h
    have hi := congrArg Usage.inputTokens h
    have ho := congrArg Usage.outputTokens h
    exact ⟨(Nat.mod_eq_iff_lt hpow).mp hi, (Nat.mod_eq_iff_lt hpow).mp ho,
      map_mod_eq_self.mp (congrArg Usage.cacheCreationTokens h),
      map_mod_eq_self.mp (congrArg Usage.cacheReadTokens h)⟩
  · rintro ⟨hi, ho, hc, hr⟩
    obtain ⟨i, o, c, r⟩ := u
    simp only [wrap, Usage.mk.injEq]
    exact ⟨Nat.mod_eq_of_lt hi, Nat.mod_eq_of_lt ho, map_mod_eq_self.mpr hc,
      map_mod_eq_self.mpr hr⟩

theorem plusOptional_assoc (a b c : Option ℕ) :
    plusOptional (plusOptional a b) c = plusOptional a (plusOptional b c) := by
  cases a <;> cases b <;> cases c <;> simp [plusOptional, Nat.add_assoc]

theorem plus_assoc (u v x : Usage) : (u.plus v).plus x = u.plus (v.plus x) := by
  simp [plus, plusOptional_assoc, Nat.add_assoc]

theorem plusOptional_none (a : Option ℕ) : plusOptional a none = a ∧ plusOptional none a = a := by
  cases a <;> simp [plusOptional]

@[simp] theorem plus_zero (u : Usage) : u.plus zero = u := by
  simp [plus, zero, (plusOptional_none _).1]

@[simp] theorem zero_plus (u : Usage) : zero.plus u = u := by
  simp [plus, zero, (plusOptional_none _).2]

@[simp] theorem total_cons (u : Usage) (us : List Usage) :
    total (u :: us) = u.plus (total us) := rfl

theorem map_mod_plusOptional (w : ℕ) (a b : Option ℕ) :
    (plusOptional (a.map (· % 2 ^ w)) (b.map (· % 2 ^ w))).map (· % 2 ^ w) =
      (plusOptional a b).map (· % 2 ^ w) := by
  cases a <;> cases b <;> simp [plusOptional, Nat.add_mod]

theorem wrap_plus_wrap (w : ℕ) (u v : Usage) :
    ((u.wrap w).plus (v.wrap w)).wrap w = (u.plus v).wrap w := by
  simp only [plus, wrap, Usage.mk.injEq]
  exact ⟨(Nat.add_mod _ _ _).symm, (Nat.add_mod _ _ _).symm, map_mod_plusOptional w _ _,
    map_mod_plusOptional w _ _⟩

theorem total_append (us vs : List Usage) : total (us ++ vs) = (total us).plus (total vs) := by
  induction us with
  | nil => rw [List.nil_append, show total [] = zero from rfl, zero_plus]
  | cons u us ih => rw [List.cons_append, total_cons, total_cons, ih, plus_assoc]

theorem plus_eq_of_wrap {w : ℕ} {u v : Usage} (h : u.wrap w = u.plus v) : u.plus v = u := by
  have hnat : ∀ a b : ℕ, a % 2 ^ w = a + b → a + b = a := fun a b hab => by
    have := Nat.mod_le a (2 ^ w)
    omega
  have hopt : ∀ a b : Option ℕ, a.map (· % 2 ^ w) = plusOptional a b → plusOptional a b = a := by
    intro a b hab
    cases a with
    | none => exact hab.symm
    | some n =>
      have hn : n % 2 ^ w = n + b.getD 0 := Option.some.inj hab
      exact congrArg some (hnat _ _ hn)
  obtain ⟨i, o, c, r⟩ := u
  simp only [wrap, plus, Usage.mk.injEq] at h ⊢
  exact ⟨hnat _ _ h.1, hnat _ _ h.2.1, hopt _ _ h.2.2.1, hopt _ _ h.2.2.2⟩

theorem wrap_wrap (w : ℕ) (u : Usage) : (u.wrap w).wrap w = u.wrap w := by
  simp [wrap, Function.comp_def]

end Usage

namespace UsageTotal

def plus (t : UsageTotal) (u : Usage) : UsageTotal where
  inputTokens := t.inputTokens + u.inputTokens
  outputTokens := t.outputTokens + u.outputTokens
  cacheCreationTokens := plusOptional t.cacheCreationTokens u.cacheCreationTokens
  cacheReadTokens := plusOptional t.cacheReadTokens u.cacheReadTokens

/-- Every total is a 64-bit number. -/
structure Fits (t : UsageTotal) : Prop where
  input : t.inputTokens < 2 ^ 64
  output : t.outputTokens < 2 ^ 64
  creation : ∀ c ∈ t.cacheCreationTokens, c < 2 ^ 64
  read : ∀ c ∈ t.cacheReadTokens, c < 2 ^ 64

theorem satAdd_eq {a b : ℕ} : satAdd 64 a b = a + b ↔ a + b < 2 ^ 64 := by
  unfold satAdd
  omega

theorem addOptional_eq {a b : Option ℕ} :
    addOptional a b = plusOptional a b ↔ ∀ c ∈ plusOptional a b, c < 2 ^ 64 := by
  cases a <;> cases b <;> simp [addOptional, plusOptional, satAdd] <;> omega

theorem add_eq_plus {t : UsageTotal} {u : Usage} : t.add u = t.plus u ↔ (t.plus u).Fits := by
  simp only [add, plus, UsageTotal.mk.injEq, satAdd_eq, addOptional_eq]
  exact ⟨fun ⟨hi, ho, hc, hr⟩ => ⟨hi, ho, hc, hr⟩, fun h => ⟨h.input, h.output, h.creation, h.read⟩⟩

end UsageTotal

/-! ## What calls report -/

/-- What a provider call reports: on the Messages API the counts its stream carries, on the Chat
Completions API a usage whose input already includes the cached part. -/
inductive Report
  | messages (counts : Counts)
  | chat (usage : Usage)

def Report.exact : Report → Usage
  | .messages c =>
    { inputTokens := c.inputTokens + c.cacheCreationTokens.getD 0 + c.cacheReadTokens.getD 0
      outputTokens := c.outputTokens
      cacheCreationTokens := c.cacheCreationTokens
      cacheReadTokens := c.cacheReadTokens }
  | .chat u => u

def Report.usage : Report → Usage
  | .messages c => c.usage
  | .chat u => u

theorem Report.wrap_usage (r : Report) : r.usage.wrap 32 = r.exact.wrap 32 := by
  cases r with
  | chat u => rfl
  | messages c =>
    simp only [Report.usage, Report.exact, Counts.usage, Usage.wrap, wrapAdd, Usage.mk.injEq,
      and_self, and_true]
    omega

theorem total_wrap_usage (reports : List Report) :
    (Usage.total (reports.map Report.usage)).wrap 32 =
      (Usage.total (reports.map Report.exact)).wrap 32 := by
  induction reports with
  | nil => rfl
  | cons r reports ih =>
    simp only [List.map_cons, Usage.total_cons]
    rw [← Usage.wrap_plus_wrap, r.wrap_usage, ih, Usage.wrap_plus_wrap]

/-! ## Runs to their end -/

/-- The usage of the provider call an iteration makes, if it is answered. -/
def billed (r : Run) (round : Round) : Option Usage :=
  if round.cancelledAtTop || r.agent.config.maxIterations ≤ r.iteration then none
  else
    match round.answer with
    | .response response => some response.usage
    | .failed _ | .cancelled => none

def play (r : Run) : List Round → Option (Run × Except AgentError AgentResult)
  | [] => none
  | round :: rest =>
    match r.iterate round with
    | .again r' => play r' rest
    | .ended r' result => if rest.isEmpty then some (r', result) else none

/-- The usages of the provider calls answered meanwhile. -/
def bills (r : Run) : List Round → List Usage
  | [] => []
  | round :: rest =>
    (billed r round).toList ++
      match r.iterate round with
      | .again r' => bills r' rest
      | .ended _ _ => []

def AgentDomainEvent.usage? : AgentDomainEvent → Option Usage
  | .runComplete usage _ _ _ | .runAborted usage _ _ => some usage
  | .seeded _ _ | .inputMessage _ | .messageComplete _ | .messageAborted _ | .toolComplete _
  | .hookRan _ _ _ | .runCancelled _ | .timerArmed _ _ | .timerCancelled _ _ | .timerFired _ _ _
  | .parked _ | .nudged _ | .taskListChanged _ _ | .lifecycleRecorded _ _ | .compacted _
  | .received _ _ | .turnBegan _ _ _ | .askRecorded _ _ => none

theorem bank_usage (spent : RunAccounting) (u : Usage) :
    (spent.bank u).usage = (spent.usage.plus u).wrap 32 := by
  have hsum : ∀ a b : Option ℕ,
      AgentCore.sumOptional a b = (plusOptional a b).map (· % 2 ^ 32) := by
    intro a b
    cases a <;> cases b <;> rfl
  simp only [RunAccounting.bank, Usage.wrap, Usage.plus, wrapAdd, hsum]

def runOf : AgentCore.Progress → Run
  | .again r => r
  | .ended r _ => r

/-- What follows the provider's message costs nothing, and a run that ends well says so last. -/
theorem respond_spent (r : Run) (round : Round) (response : AgentCore.CompletionResponse) :
    (runOf (r.respond round response)).spent = r.spent ∧
      ∀ r' result, r.respond round response = .ended r' (.ok result) → ∃ es n c t,
        r'.written = es ++ [.event (.runComplete r'.spent.usage n c t)] := by
  unfold Run.respond
  split
  · split_ifs
    · exact ⟨rfl, fun r' result h => by cases h⟩
    · refine ⟨rfl, fun r' result h => ?_⟩
      cases h
      exact ⟨_, _, _, _, rfl⟩
  · dsimp only
    split_ifs
    · exact ⟨rfl, fun r' result h => by cases h⟩
    · exact ⟨rfl, fun r' result h => by cases h⟩
    · exact ⟨rfl, fun r' result h => by cases h⟩
    · unfold Run.execute
      split_ifs
      · exact ⟨rfl, fun r' result h => by cases h⟩
      · split
        · exact ⟨rfl, fun r' result h => by cases h⟩
        · refine ⟨rfl, fun r' result h => ?_⟩
          cases h
          exact ⟨_, _, _, _, rfl⟩

theorem iterate_spent (r : Run) (round : Round) :
    (runOf (r.iterate round)).spent = (billed r round).toList.foldl RunAccounting.bank r.spent ∧
      ∀ r' result, r.iterate round = .ended r' (.ok result) → ∃ es n c t,
        r'.written = es ++ [.event (.runComplete r'.spent.usage n c t)] := by
  unfold Run.iterate billed
  by_cases htop : round.cancelledAtTop = true
  · rw [if_pos htop, htop]
    exact ⟨rfl, fun r' result h => by cases h⟩
  by_cases hmax : r.agent.config.maxIterations ≤ r.iteration
  · rw [if_neg htop, if_pos hmax, if_pos (by simp [hmax])]
    exact ⟨rfl, fun r' result h => by cases h⟩
  · rw [if_neg htop, if_neg hmax, if_neg (by simp [htop, hmax])]
    cases round.answer with
    | response response => exact respond_spent _ round response
    | failed e => exact ⟨rfl, fun r' result h => by cases h⟩
    | cancelled => exact ⟨rfl, fun r' result h => by cases h⟩

theorem play_spent {r r' : Run} {rounds : List Round} {result : Except AgentError AgentResult}
    (h : play r rounds = some (r', result)) {u : Usage} (hu : r.spent.usage = u.wrap 32) :
    r'.spent.usage = (u.plus (Usage.total (bills r rounds))).wrap 32 ∧
      ∀ res, result = .ok res → ∃ es n c t,
        r'.written = es ++ [.event (.runComplete r'.spent.usage n c t)] := by
  induction rounds generalizing r u with
  | nil => simp [play] at h
  | cons round rest ih =>
    obtain ⟨hspent, hlast⟩ := iterate_spent r round
    have hbank : (runOf (r.iterate round)).spent.usage =
        (u.plus (Usage.total (billed r round).toList)).wrap 32 := by
      rw [hspent]
      cases billed r round with
      | none => simpa [Usage.total] using hu
      | some v =>
        have hbanked := bank_usage r.spent v
        rw [hu, ← Usage.wrap_plus_wrap, Usage.wrap_wrap, Usage.wrap_plus_wrap] at hbanked
        simpa [Usage.total] using hbanked
    have htotal : ∀ us, (u.plus (Usage.total (billed r round).toList)).plus (Usage.total us) =
        u.plus (Usage.total ((billed r round).toList ++ us)) := by
      intro us
      cases billed r round with
      | none => simp [Usage.total]
      | some v => simp [Usage.total, Usage.plus_assoc]
    simp only [play, bills] at h ⊢
    cases hiter : r.iterate round with
    | again r'' =>
      simp only [hiter] at h hbank ⊢
      rw [← htotal]
      exact ih h hbank
    | ended r'' result' =>
      simp only [hiter] at h hbank hlast ⊢
      obtain ⟨-, h⟩ := Option.ite_none_right_eq_some.mp h
      obtain ⟨rfl, rfl⟩ := Prod.mk.inj (Option.some.inj h)
      rw [← htotal]
      refine ⟨by simpa [Usage.total, runOf] using hbank, fun res hres => hlast r'' res ?_⟩
      rw [hres]

theorem close_journal {r : Run} {result : Except AgentError AgentResult} (atMs : ℕ)
    (h : ∀ res, result = .ok res → ∃ es n c t,
      r.written = es ++ [.event (.runComplete r.spent.usage n c t)]) :
    ∃ e, (journal (r.close atMs result).written).getLast? = some e ∧
      e.usage? = some r.spent.usage ∧
      ∀ s : AgentState, (s.applyEvent e).usageTotal = s.usageTotal.add r.spent.usage := by
  cases result with
  | error err =>
    refine ⟨.runAborted r.spent.usage r.spent.contextTokens atMs, ?_, rfl, fun s => rfl⟩
    simp [Run.close, Run.emit, journal, journaled?, coarseEvent]
  | ok res =>
    obtain ⟨es, n, c, t, hes⟩ := h res rfl
    refine ⟨.runComplete r.spent.usage n c t, ?_, rfl, fun s => rfl⟩
    simp [Run.close, hes, journal, journaled?, coarseEvent]

/-- A run played to its end journals the exact sum of what its calls cost, and the running totals
of any agent grow by exactly that, exactly when the sum fits 32 bits, the totals fit 64, and what
the summarising calls of its compactions cost (`folds`) adds nothing. -/
theorem run_usage_exact {agent : Agent} {before : List AgentEvent} {input : AgentInput}
    {now atMs : ℕ} {rounds : List Round} {r : Run} {result : Except AgentError AgentResult}
    (h : play (Run.start agent before input now) rounds = some (r, result))
    {reports : List Report}
    (hr : bills (Run.start agent before input now) rounds = reports.map Report.usage)
    (folds : List Usage) (s : AgentState) :
    (∃ e u, (journal (r.close atMs result).written).getLast? = some e ∧ e.usage? = some u ∧
      u = Usage.total (reports.map Report.exact ++ folds) ∧
      (s.applyEvent e).usageTotal = s.usageTotal.plus u) ↔
    Usage.total (reports.map Report.exact ++ folds) = Usage.total (reports.map Report.exact) ∧
      (Usage.total (reports.map Report.exact)).Fits 32 ∧
      (s.usageTotal.plus (Usage.total (reports.map Report.exact))).Fits := by
  obtain ⟨hspent, hend⟩ := play_spent h (u := .zero) rfl
  obtain ⟨e, hlast, hu, hfold⟩ := close_journal atMs hend
  rw [Usage.zero_plus, hr, total_wrap_usage] at hspent
  set E := Usage.total (reports.map Report.exact) with hE
  rw [Usage.total_append, ← hE]
  constructor
  · rintro ⟨e', u, hlast', hu', hsum, htotal⟩
    cases hlast.symm.trans hlast'
    cases hu.symm.trans hu'
    have hwrap : E.wrap 32 = E.plus (Usage.total folds) := hspent.symm.trans hsum
    have hfree := Usage.plus_eq_of_wrap hwrap
    rw [hfree] at hsum hwrap
    rw [hfold, hsum] at htotal
    exact ⟨hfree, Usage.wrap_eq_self.mp hwrap, UsageTotal.add_eq_plus.mp htotal⟩
  · rintro ⟨hfree, hfits, htotal⟩
    rw [Usage.wrap_eq_self.mpr hfits] at hspent
    refine ⟨e, _, hlast, hu, hspent.trans hfree.symm, ?_⟩
    rw [hfold, hspent]
    exact UsageTotal.add_eq_plus.mpr htotal

/-- An agent that calls its provider and nothing else. -/
def frugal : Agent := ⟨.default, [], false, 0⟩

def texted (usage : Usage) : Round where
  cancelledAtTop := false
  compaction := ⟨.proceed, none, "", 0⟩
  messageId := "m"
  callStartedMs := 1
  chunks := []
  answer := .response ⟨[.text "done"], .endTurn, usage⟩
  answeredMs := 2
  cancelledBeforeTools := false
  batch := ⟨fun _ => ⟨.stopRun, 0, 0⟩, [], List.nodup_nil, false⟩

def tooled (usage : Usage) : Round :=
  { texted usage with
    answer := .response ⟨[.toolCall ⟨"c", "bash", .null⟩], .toolUse, usage⟩
    batch := ⟨fun _ => ⟨.error "no such tool", 1, 2⟩, [.result 0], List.nodup_singleton _, false⟩ }

def runOn (rounds : List Round) : Option (Run × Except AgentError AgentResult) :=
  play (Run.start frugal [] (.userMessage ⟨"u", "hi", [], []⟩) 0) rounds

def spender : AgentState := { AgentState.initial with usageTotal := ⟨5, 5, none, none⟩ }

/-- Two calls, one of a cached prompt. -/
theorem run_usage_exact_cached :
    ∃ r result, runOn [tooled ⟨12, 3, some 7, some 2⟩, texted ⟨15, 1, none, none⟩] =
        some (r, result) ∧
      ∃ e u, (journal (r.close 9 result).written).getLast? = some e ∧ e.usage? = some u ∧
        u = Usage.total [⟨12, 3, some 7, some 2⟩, ⟨15, 1, none, none⟩] ∧
        (spender.applyEvent e).usageTotal = spender.usageTotal.plus u :=
  ⟨_, _, rfl, (@run_usage_exact frugal [] (.userMessage ⟨"u", "hi", [], []⟩) 0 9
    [tooled ⟨12, 3, some 7, some 2⟩, texted ⟨15, 1, none, none⟩] _ _ rfl
    [.messages ⟨3, 3, some 7, some 2⟩, .chat ⟨15, 1, none, none⟩] rfl [] spender).mpr
    ⟨rfl, ⟨by decide, by decide, by decide, by decide⟩,
      ⟨by decide, by decide, by decide, by decide⟩⟩⟩

/-- Two calls of 2147483648 prompt tokens are journaled as none. -/
theorem two_calls_wrap :
    bills (Run.start frugal [] (.userMessage ⟨"u", "hi", [], []⟩) 0)
      [tooled ⟨2147483648, 1, none, none⟩, texted ⟨2147483648, 1, none, none⟩] =
        [⟨2147483648, 1, none, none⟩, ⟨2147483648, 1, none, none⟩] ∧
    ((runOn [tooled ⟨2147483648, 1, none, none⟩, texted ⟨2147483648, 1, none, none⟩]).bind
      fun x => (journal (x.1.close 9 x.2).written).getLast?.bind (·.usage?)) =
        some ⟨0, 2, none, none⟩ := by
  decide +kernel

end Horsie.Agent
