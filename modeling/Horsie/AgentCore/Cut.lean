import Horsie.AgentCore.Compaction

/-!
# Where the retained window starts

The cut of a compaction is found by one scan over the history, with a running estimate of what
comes after and the newest boundary seen so far. It is the earliest boundary after which the history
fits, where one fits, and no answer to a tool call is kept without the call.
-/

namespace Horsie.AgentCore

open Horsie.Agent

variable {budget i j k : ℕ} {id : String} {m : Message} {l history : List Message}

/-! ## Where a window may start -/

/-- `k` may begin the retained window of `h`. -/
def Candidate (h : List Message) (k : ℕ) : Prop := ∃ m, h[k]? = some m ∧ isSafeBoundary m = true

def estimate (l : List Message) : ℕ := (l.map approxTokens).sum

/-- What the history has from a message on fits the budget, by estimates that add up to the largest
32-bit number at most. -/
def Fits (budget : ℕ) (history : List Message) (i : ℕ) : Prop :=
  min (estimate (history.drop i)) (2 ^ 32 - 1) ≤ budget

theorem candidate_zero : Candidate (m :: l) 0 ↔ isSafeBoundary m = true := by
  constructor
  · rintro ⟨m', hm', hsafe⟩
    rw [List.getElem?_cons_zero, Option.some_inj] at hm'
    rw [hm']
    exact hsafe
  · intro hsafe
    exact ⟨m, rfl, hsafe⟩

@[simp] theorem estimate_cons (m : Message) (l : List Message) :
    estimate (m :: l) = approxTokens m + estimate l := by simp [estimate]

@[simp] theorem estimate_append (l l' : List Message) :
    estimate (l ++ l') = estimate l + estimate l' := by simp [estimate]

/-- The running total of the scan is the estimate, up to the largest number. -/
theorem suffixTokens_eq (l : List Message) : suffixTokens l = min (estimate l) (2 ^ 32 - 1) := by
  induction l with
  | nil => simp [suffixTokens, estimate]
  | cons m l ih =>
    rw [suffixTokens, ih, estimate_cons, satAdd]
    omega

theorem fits_iff (hb : budget < 2 ^ 32 - 1) :
    Fits budget l k ↔ estimate (l.drop k) ≤ budget := by
  unfold Fits
  omega

theorem fits_zero : Fits budget l 0 ↔ suffixTokens l ≤ budget := by
  rw [suffixTokens_eq]
  exact Iff.rfl

/-- What a scan from index `i` on comes to: the first boundary that fits, else the last boundary,
else what it was handed. -/
theorem chooseCutFrom_cases (budget i : ℕ) (latest : Option ℕ) (l : List Message) :
    (∃ k, chooseCutFrom budget i latest l = i + k ∧ Candidate l k ∧ Fits budget l k ∧
      ∀ k', Candidate l k' → Fits budget l k' → k ≤ k') ∨
    (∀ k, Candidate l k → ¬ Fits budget l k) ∧
      ((∃ k, chooseCutFrom budget i latest l = i + k ∧ Candidate l k ∧
        ∀ k', Candidate l k' → k' ≤ k) ∨
      (∀ k, ¬ Candidate l k) ∧ chooseCutFrom budget i latest l = latest.getD (i + l.length)) := by
  induction l generalizing i latest with
  | nil =>
    have hnone (k : ℕ) : ¬ Candidate [] k := by
      rintro ⟨m, hm, -⟩
      cases hm
    exact .inr ⟨fun k hk => absurd hk (hnone k), .inr ⟨hnone, rfl⟩⟩
  | cons m l ih =>
    rw [chooseCutFrom]
    split_ifs with hunsafe hfits
    · -- the message is passed by, and the rest decides
      rw [Bool.not_eq_true'] at hunsafe
      have hzero : ¬ Candidate (m :: l) 0 := by
        rw [candidate_zero, hunsafe]
        exact Bool.false_ne_true
      rcases ih (i + 1) latest with ⟨k, hk, hsafe, hfit, hfirst⟩ | ⟨hnofit, hrest⟩
      · refine .inl ⟨k + 1, by omega, hsafe, hfit, fun k' hk' hfit' => ?_⟩
        cases k' with
        | zero => exact absurd hk' hzero
        | succ k' => exact Nat.succ_le_succ (hfirst k' hk' hfit')
      · refine .inr ⟨fun k hk => ?_, ?_⟩
        · cases k with
          | zero => exact absurd hk hzero
          | succ k => exact hnofit k hk
        · rcases hrest with ⟨k, hk, hsafe, hlast⟩ | ⟨hnone, hk⟩
          · refine .inl ⟨k + 1, by omega, hsafe, fun k' hk' => ?_⟩
            cases k' with
            | zero => exact Nat.zero_le _
            | succ k' => exact Nat.succ_le_succ (hlast k' hk')
          · refine .inr ⟨fun k hk => ?_, ?_⟩
            · cases k with
              | zero => exact absurd hk hzero
              | succ k => exact hnone k hk
            · rw [hk, List.length_cons]
              congr 1
              omega
    · -- the first boundary that fits
      rw [Bool.not_eq_true', Bool.not_eq_false] at hunsafe
      exact .inl ⟨0, rfl, candidate_zero.mpr hunsafe, fits_zero.mpr hfits,
        fun k' _ _ => Nat.zero_le k'⟩
    · -- a boundary that does not fit is what is left if none after it fits
      rw [Bool.not_eq_true', Bool.not_eq_false] at hunsafe
      have hzero : ¬ Fits budget (m :: l) 0 := fun hfit => hfits (fits_zero.mp hfit)
      rcases ih (i + 1) (some i) with ⟨k, hk, hsafe, hfit, hfirst⟩ | ⟨hnofit, hrest⟩
      · refine .inl ⟨k + 1, by omega, hsafe, hfit, fun k' hk' hfit' => ?_⟩
        cases k' with
        | zero => exact absurd hfit' hzero
        | succ k' => exact Nat.succ_le_succ (hfirst k' hk' hfit')
      · refine .inr ⟨fun k hk => ?_, .inl ?_⟩
        · cases k with
          | zero => exact hzero
          | succ k => exact hnofit k hk
        · rcases hrest with ⟨k, hk, hsafe, hlast⟩ | ⟨hnone, hk⟩
          · refine ⟨k + 1, by omega, hsafe, fun k' hk' => ?_⟩
            cases k' with
            | zero => exact Nat.zero_le _
            | succ k' => exact Nat.succ_le_succ (hlast k' hk')
          · refine ⟨0, hk, candidate_zero.mpr hunsafe, fun k' hk' => ?_⟩
            cases k' with
            | zero => exact Nat.le_refl 0
            | succ k' => exact absurd hk' (hnone k')

/-! ## Calls and their results -/

def ResultAt (history : List Message) (j : ℕ) (id : String) : Prop :=
  ∃ m, history[j]? = some m ∧ id ∈ m.resultIds

/-- A result directly follows the assistant message that called for it: there are only results
between the two. -/
structure Follows (history : List Message) (i j : ℕ) (id : String) : Prop where
  before : i < j
  called : ∃ m, history[i]? = some m ∧ m.role = .assistant ∧ id ∈ m.callIds
  result : ResultAt history j id
  between : ∀ k, i < k → k ≤ j → ∃ id', ResultAt history k id'

theorem ResultAt.lt (h : ResultAt history j id) : j < history.length := by
  obtain ⟨m, hm, -⟩ := h
  exact (List.getElem?_eq_some_iff.mp hm).1

theorem ResultAt.not_candidate (h : ResultAt history j id) : ¬ Candidate history j := by
  obtain ⟨m, hm, hid⟩ := h
  rintro ⟨m', hm', hsafe⟩
  cases hm.symm.trans hm'
  obtain ⟨p, hp, hpid⟩ := List.mem_filterMap.mp hid
  unfold isSafeBoundary at hsafe
  rw [Bool.and_eq_true, List.all_eq_true] at hsafe
  have hnone := hsafe.2 p hp
  rw [hpid] at hnone
  cases hnone

/-! ## The cut -/

/-- What a cut is to be: the earliest boundary after which the history fits, else the latest
boundary, else the end; and where every result directly follows its call, a result that is retained
is retained with its call. -/
structure CutChosen (history : List Message) (budget cut : ℕ) : Prop where
  earliest : (∃ i, Candidate history i ∧ Fits budget history i) →
    Candidate history cut ∧ Fits budget history cut ∧
      ∀ i, Candidate history i → Fits budget history i → cut ≤ i
  latest : (∀ i, Candidate history i → ¬ Fits budget history i) → (∃ i, Candidate history i) →
    Candidate history cut ∧ ∀ i, Candidate history i → i ≤ cut
  none : (∀ i, ¬ Candidate history i) → cut = history.length
  retained : (∀ j id, ResultAt history j id → ∃ i, Follows history i j id) →
    ∀ j id, cut ≤ j → ResultAt history j id →
      ∃ i, Follows history i j id ∧ ∀ i', Follows history i' j id → cut ≤ i'

theorem chooseCut_cases (history : List Message) (budget : ℕ) :
    Candidate history (chooseCut history budget) ∨
      (∀ i, ¬ Candidate history i) ∧ chooseCut history budget = history.length := by
  unfold chooseCut
  rcases chooseCutFrom_cases budget 0 none history with ⟨k, hk, hsafe, -⟩ | ⟨-, hrest⟩
  · left
    rw [hk, Nat.zero_add]
    exact hsafe
  · rcases hrest with ⟨k, hk, hsafe, -⟩ | ⟨hnone, hk⟩
    · left
      rw [hk, Nat.zero_add]
      exact hsafe
    · right
      refine ⟨hnone, hk.trans ?_⟩
      rw [Option.getD_none, Nat.zero_add]

/-- The call of a retained result is retained: between the two nothing can be cut. -/
theorem chooseCut_le_of_follows (h : Follows history i j id) (hj : chooseCut history budget ≤ j) :
    chooseCut history budget ≤ i := by
  rcases chooseCut_cases history budget with hsafe | ⟨-, hend⟩
  · by_contra hi
    obtain ⟨id', hresult⟩ := h.between _ (Nat.lt_of_not_le hi) hj
    exact hresult.not_candidate hsafe
  · have hlt := h.result.lt
    omega

theorem cut_chosen (history : List Message) (budget : ℕ) :
    CutChosen history budget (chooseCut history budget) := by
  have hcases := chooseCutFrom_cases budget 0 none history
  constructor
  case earliest =>
    rintro ⟨i, hsafe, hfit⟩
    rcases hcases with ⟨k, hk, hk', hfirst⟩ | ⟨hnofit, -⟩
    · rw [Nat.zero_add] at hk
      unfold chooseCut
      rw [hk]
      exact ⟨hk', hfirst⟩
    · exact absurd hfit (hnofit i hsafe)
  case latest =>
    rintro hnofit ⟨i, hsafe⟩
    rcases hcases with ⟨k, -, hk', hfit, -⟩ | ⟨-, ⟨k, hk, hlast⟩ | ⟨hnone, -⟩⟩
    · exact absurd hfit (hnofit k hk')
    · rw [Nat.zero_add] at hk
      unfold chooseCut
      rw [hk]
      exact hlast
    · exact absurd hsafe (hnone i)
  case none =>
    intro hnone
    rcases chooseCut_cases history budget with hsafe | ⟨-, hend⟩
    · exact absurd hsafe (hnone _)
    · exact hend
  case retained =>
    intro hfollows j id hj hresult
    obtain ⟨i, hi⟩ := hfollows j id hresult
    exact ⟨i, hi, fun i' hi' => chooseCut_le_of_follows hi' hj⟩

end Horsie.AgentCore
