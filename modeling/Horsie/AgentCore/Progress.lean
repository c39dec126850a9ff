import Horsie.AgentCore.Cut

/-!
# Whether a compaction makes room

A compaction replaces what comes before the retained window by one boundary message. The window
starts at a user message (`Retained`), so a history that is one turn, begun by its only user
message, is retained whole however large it is, and nothing is folded. Any other history that is
over the budget loses its beginning (`auto_compaction_progress`).
-/

namespace Horsie.AgentCore

open Horsie.Agent

/-- A history that is one turn: its first message alone may begin a retained window. -/
def OneTurn : List Message → Prop
  | [] => False
  | m :: rest => isSafeBoundary m = true ∧ ∀ x ∈ rest, isSafeBoundary x = false

/-- Where the retained window of `h` starts: the earliest candidate whose suffix fits the budget,
else the latest candidate, else the end. -/
inductive Retained (h : List Message) (budget : ℕ) : ℕ → Prop
  | fits {k : ℕ} (hk : Candidate h k) (hfit : estimate (h.drop k) ≤ budget)
      (hmin : ∀ j, j < k → Candidate h j → budget < estimate (h.drop j)) : Retained h budget k
  | latest {k : ℕ} (hk : Candidate h k)
      (hbig : ∀ j, Candidate h j → budget < estimate (h.drop j))
      (hmax : ∀ j, Candidate h j → j ≤ k) : Retained h budget k
  | nowhere (hnone : ∀ j, ¬ Candidate h j) : Retained h budget h.length

section

variable {h : List Message} {budget : ℕ}

theorem Retained.unique {j k : ℕ} (hj : Retained h budget j) (hk : Retained h budget k) :
    j = k := by
  cases hj with
  | fits cj fj mj =>
    cases hk with
    | fits ck fk mk =>
      rcases Nat.lt_trichotomy j k with hlt | rfl | hlt
      · exact absurd fj (Nat.not_le.mpr (mk j hlt cj))
      · rfl
      · exact absurd fk (Nat.not_le.mpr (mj k hlt ck))
    | latest _ bk _ => exact absurd fj (Nat.not_le.mpr (bk j cj))
    | nowhere hnone => exact absurd cj (hnone j)
  | latest cj bj mj =>
    cases hk with
    | fits ck fk _ => exact absurd fk (Nat.not_le.mpr (bj k ck))
    | latest ck _ mk => exact le_antisymm (mk j cj) (mj k ck)
    | nowhere hnone => exact absurd cj (hnone j)
  | nowhere hnone =>
    cases hk with
    | fits ck => exact absurd ck (hnone k)
    | latest ck => exact absurd ck (hnone k)
    | nowhere => rfl

theorem chooseCut_retained (hb : budget < 2 ^ 32 - 1) (h : List Message) :
    Retained h budget (chooseCut h budget) := by
  unfold chooseCut
  rcases chooseCutFrom_cases budget 0 none h with
    ⟨k, hk, hc, hfit, hmin⟩ | ⟨hbig, ⟨k, hk, hc, hmax⟩ | ⟨hnone, hk⟩⟩
  · rw [hk, Nat.zero_add]
    refine .fits hc ((fits_iff hb).mp hfit) fun j hlt hj => ?_
    by_contra hle
    exact absurd (hmin j hj ((fits_iff hb).mpr (Nat.le_of_not_lt hle))) (Nat.not_le.mpr hlt)
  · rw [hk, Nat.zero_add]
    refine .latest hc (fun j hj => ?_) hmax
    by_contra hle
    exact hbig j hj ((fits_iff hb).mpr (Nat.le_of_not_lt hle))
  · rw [hk, Option.getD_none, Nat.zero_add]
    exact .nowhere hnone

theorem retained_zero_iff (hover : budget < estimate h) : Retained h budget 0 ↔ OneTurn h := by
  cases h with
  | nil => simp [estimate] at hover
  | cons m rest =>
    constructor
    · intro hz
      generalize hk : (0 : ℕ) = k at hz
      cases hz with
      | fits _ hfit _ =>
        subst hk
        exact absurd hfit (Nat.not_le.mpr hover)
      | latest hc _ hmax =>
        subst hk
        obtain ⟨x, hx, hs⟩ := hc
        cases hx
        refine ⟨hs, fun y hy => ?_⟩
        obtain ⟨i, hi⟩ := List.getElem?_of_mem hy
        by_contra hsafe
        exact absurd (hmax (i + 1) ⟨y, hi, by simpa using hsafe⟩) (by omega)
      | nowhere => simp at hk
    · rintro ⟨hs, hrest⟩
      have honly : ∀ j, Candidate (m :: rest) j → j = 0 := by
        rintro (_ | j) ⟨x, hx, hxs⟩
        · rfl
        · simp [hrest x (List.mem_of_getElem? hx)] at hxs
      refine .latest ⟨m, rfl, hs⟩ (fun j hj => ?_) fun j hj => (honly j hj).le
      rw [honly j hj]
      exact hover

end

/-! ## The compaction -/

namespace Agent

theorem retainTokens_lt (b : CompactionBudget) : b.retainTokens < 2 ^ 32 - 1 := by
  unfold CompactionBudget.retainTokens satMul
  omega

/-- When an automatic compaction is due on a history over the retain budget, the hooks let it
proceed and the summariser answers, it folds something away and leaves an estimate below the one it
found exactly when the history is not one turn and the boundary message is smaller than the
messages before the retained window. -/
theorem auto_compaction_progress {a : Agent} {budget : CompactionBudget} {env : CompactionEnv}
    {summary : String} (hb : a.config.compaction = some budget) (hp : a.hasPolicy = true)
    (htrigger : budget.triggerTokens ≤ a.lastContextTokens)
    (hover : budget.retainTokens < estimate a.history) (hd : env.decision = .proceed)
    (hs : summarise env = some summary) :
    (∃ k, 0 < k ∧ (a.maybeCompact env).1.history =
        boundary a.history summary env.carriedState env.now :: a.history.drop k) ∧
      estimate (a.maybeCompact env).1.history < estimate a.history ↔
    ¬ OneTurn a.history ∧ ∀ k, Retained a.history budget.retainTokens k →
      approxTokens (boundary a.history summary env.carriedState env.now) <
        estimate (a.history.take k) := by
  set b := boundary a.history summary env.carriedState env.now with hbdef
  have hcut : Retained a.history budget.retainTokens a.cut := by
    rw [cut, hb]
    exact chooseCut_retained (retainTokens_lt budget) a.history
  have hdue : a.maybeCompact env = a.compact none .auto env := by
    unfold maybeCompact
    simp [hb, hp, Nat.not_lt.mpr htrigger]
  have hsplit : estimate a.history =
      estimate (a.history.take a.cut) + estimate (a.history.drop a.cut) := by
    rw [← estimate_append, List.take_append_drop]
  have hfold : a.cut ≠ 0 → (a.maybeCompact env).1.history = b :: a.history.drop a.cut := by
    intro hpos
    rw [hdue, compact_of_summary hp hpos hd hs]
    rfl
  have hkeep : a.cut = 0 → (a.maybeCompact env).1.history = a.history := by
    intro hzero
    rw [hdue]
    unfold compact
    simp [hzero]
  constructor
  · rintro ⟨-, hless⟩
    have hpos : a.cut ≠ 0 := fun hzero => by
      rw [hkeep hzero] at hless
      exact absurd hless (lt_irrefl _)
    refine ⟨fun hone => hpos (hcut.unique ((retained_zero_iff hover).mpr hone)), fun k hk => ?_⟩
    rw [hfold hpos, estimate_cons, hsplit] at hless
    rw [hk.unique hcut]
    omega
  · rintro ⟨hmany, hsmall⟩
    have hpos : a.cut ≠ 0 := fun hzero => hmany ((retained_zero_iff hover).mp (hzero ▸ hcut))
    refine ⟨⟨a.cut, Nat.pos_of_ne_zero hpos, hfold hpos⟩, ?_⟩
    have hb := hsmall a.cut hcut
    rw [hfold hpos, estimate_cons, hsplit]
    omega

/-- An agent whose context reached the trigger, on a small window. -/
def crowded (history : List Message) : Agent where
  config := { AgentConfig.default with compaction := some ⟨1000, 80, 10⟩ }
  history := history
  hasPolicy := true
  lastContextTokens := 900

def summarised : CompactionEnv := ⟨.proceed, some [.text "done so far"], "", 9⟩

def pictured (id : String) (role : Role) : Message :=
  ⟨id, role, [.artifact ⟨"p", "image/png", .image (some 1000) (some 750), 0, none⟩], 1, none⟩

/-- Two turns: what the second does not need is folded. -/
theorem auto_compaction_progress_two_turns :
    estimate ((crowded [pictured "u" .user, pictured "a" .assistant,
      pictured "v" .user]).maybeCompact summarised).1.history <
      estimate [pictured "u" .user, pictured "a" .assistant, pictured "v" .user] :=
  ((@auto_compaction_progress (crowded [pictured "u" .user, pictured "a" .assistant,
    pictured "v" .user]) ⟨1000, 80, 10⟩ summarised "done so far" rfl rfl (by decide)
    (by decide) rfl (by decide +kernel)).mpr
    ⟨fun hone => absurd (hone.2 (pictured "v" .user) (by simp)) (by decide), fun k hk =>
      (hk.unique (chooseCut_retained (by decide) _)).symm ▸ by decide +kernel⟩).2

def longTurn : List Message :=
  [pictured "u" .user, ⟨"a", .assistant, [.toolCall ⟨"c", "bash", .null⟩], 2, none⟩,
    ⟨"t", .tool, [.toolResult ⟨"c", "ok", false, []⟩], 3, none⟩]

/-- One turn, well formed, with the trigger reached and the budget overrun: nothing is folded. -/
theorem long_turn_not_folded :
    toolExchange.WellFormed longTurn ∧
    (⟨1000, 80, 10⟩ : CompactionBudget).retainTokens < estimate longTurn ∧
    (⟨1000, 80, 10⟩ : CompactionBudget).triggerTokens ≤ (crowded longTurn).lastContextTokens ∧
    (summarise summarised).isSome ∧
    ((crowded longTurn).maybeCompact summarised).1.history = longTurn := by
  decide +kernel

end Agent

end Horsie.AgentCore
