import Mathlib.Data.List.Perm.Basic

/-!
# One more, and one taken out of many

What the entries of a list are that one is put behind, and of a list of messages that are taken in
any order: what it was is the one that is taken and the rest.
-/

namespace Horsie.Lib

universe u v

variable {α : Type u} {β : Type v} {l : List α} {k : ℕ} {a b : α}

/-- An entry of the longer list is one of the list, or the new one. -/
theorem getElem?_snoc_cases (h : (l ++ [a])[k]? = some b) :
    l[k]? = some b ∨ k = l.length ∧ b = a := by
  rw [List.getElem?_append] at h
  split_ifs at h with hk
  · exact .inl h
  · rw [List.getElem?_singleton] at h
    split_ifs at h with h0
    exact .inr ⟨by omega, (Option.some.inj h).symm⟩

theorem getElem?_snoc_of_some (h : l[k]? = some b) : (l ++ [a])[k]? = some b :=
  (List.getElem?_append_left (List.getElem?_eq_some_iff.mp h).1).trans h

/-- An entry of a list with one replaced. -/
theorem getElem?_set_cases {j : ℕ} (h : (l.set k a)[j]? = some b) :
    j = k ∧ b = a ∨ j ≠ k ∧ l[j]? = some b := by
  rw [List.getElem?_set] at h
  split_ifs at h with hk hlt
  · exact .inl ⟨hk.symm, (Option.some.inj h).symm⟩
  · exact .inr ⟨Ne.symm hk, h⟩

/-- An entry of a list with one changed. -/
theorem getElem?_modify_cases {f : α → α} {j : ℕ} (h : (l.modify k f)[j]? = some b) :
    (j = k ∧ ∃ c, l[j]? = some c ∧ b = f c) ∨ j ≠ k ∧ l[j]? = some b := by
  rw [List.getElem?_modify] at h
  obtain ⟨c, hc, hb⟩ := Option.map_eq_some_iff.mp h
  split_ifs at hb with hk
  · exact .inl ⟨hk.symm, c, hc, hb.symm⟩
  · exact .inr ⟨Ne.symm hk, hb ▸ hc⟩

theorem perm_cons_eraseIdx (h : l[k]? = some a) : l.Perm (a :: l.eraseIdx k) := by
  obtain ⟨hlt, rfl⟩ := List.getElem?_eq_some_iff.mp h
  exact (List.getElem_cons_eraseIdx_perm hlt).symm

theorem eq_or_mem_eraseIdx (h : l[k]? = some a) (hb : b ∈ l) : b = a ∨ b ∈ l.eraseIdx k :=
  List.mem_cons.mp ((perm_cons_eraseIdx h).mem_iff.mp hb)

/-- What the taken one stands for, and what the rest does. -/
theorem filterMap_perm_eraseIdx {f : α → Option β} {c : β} (h : l[k]? = some a)
    (hf : f a = some c) : (l.filterMap f).Perm (c :: (l.eraseIdx k).filterMap f) := by
  have hperm := (perm_cons_eraseIdx h).filterMap f
  rwa [List.filterMap_cons_some hf] at hperm

end Horsie.Lib
