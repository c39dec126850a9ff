import Mathlib.Data.List.Basic

/-!
# Collecting results

A list of results of which one is an error has no result: what `collect` into a `Result` gives.
-/

namespace Horsie.Lib

universe u v w

variable {α : Type u} {β ε : Type v} {f : α → Except ε β} {l : List α} {bs : List β}

theorem mapM_cons_ok {a : α} :
    (a :: l).mapM f = .ok bs ↔ ∃ b bs', f a = .ok b ∧ l.mapM f = .ok bs' ∧ bs = b :: bs' := by
  rw [List.mapM_cons]
  cases ha : f a with
  | error e => exact iff_of_false (by rintro ⟨⟩) (by rintro ⟨_, _, ⟨⟩, _⟩)
  | ok b =>
    cases hl : l.mapM f with
    | error e => exact iff_of_false (by rintro ⟨⟩) (by rintro ⟨_, _, _, ⟨⟩, _⟩)
    | ok bs' =>
      refine ⟨fun h => ⟨b, bs', rfl, rfl, (Except.ok.inj h).symm⟩, ?_⟩
      rintro ⟨_, _, ⟨⟩, ⟨⟩, rfl⟩
      rfl

/-- What is collected are the results of the list. -/
theorem mem_of_mapM_ok (h : l.mapM f = .ok bs) (b : β) : b ∈ bs ↔ ∃ a ∈ l, f a = .ok b := by
  induction l generalizing bs with
  | nil =>
    obtain rfl : [] = bs := Except.ok.inj h
    simp
  | cons a l ih =>
    obtain ⟨b', bs', ha, hl, rfl⟩ := mapM_cons_ok.mp h
    rw [List.mem_cons, ih hl]
    refine ⟨?_, ?_⟩
    · rintro (rfl | ⟨a', ha', hb⟩)
      · exact ⟨a, List.mem_cons_self, ha⟩
      · exact ⟨a', List.mem_cons_of_mem _ ha', hb⟩
    · rintro ⟨a', ha', hb⟩
      rcases List.mem_cons.mp ha' with rfl | ha'
      · exact .inl (Except.ok.inj (hb.symm.trans ha))
      · exact .inr ⟨a', ha', hb⟩

/-- There is a result exactly if there is one of each. -/
theorem mapM_ok_iff : (∃ bs, l.mapM f = .ok bs) ↔ ∀ a ∈ l, ∃ b, f a = .ok b := by
  induction l with
  | nil => exact iff_of_true ⟨[], rfl⟩ fun _ ha => absurd ha List.not_mem_nil
  | cons a l ih =>
    rw [List.forall_mem_cons, ← ih]
    refine ⟨?_, ?_⟩
    · rintro ⟨bs, h⟩
      obtain ⟨b, bs', ha, hl, -⟩ := mapM_cons_ok.mp h
      exact ⟨⟨b, ha⟩, bs', hl⟩
    · rintro ⟨⟨b, ha⟩, bs', hl⟩
      exact ⟨b :: bs', mapM_cons_ok.mpr ⟨b, bs', ha, hl, rfl⟩⟩

end Horsie.Lib
