import Horsie.Lib.Joined
import Horsie.Lib.Links

/-!
# Numbered names

A name with a number behind it is told apart by name and number. As a path it leads next to where
the name leads if that ends in a component, and below it otherwise.
-/

namespace Horsie.Lib

variable {base base' : String} {n m : ℕ}

/-! ## Numbers -/

theorem toList_toString (n : ℕ) : (toString n).toList = Nat.toDigits 10 n := Nat.toList_repr

def numbered (base : String) (n : ℕ) : String := base ++ "-" ++ toString n

/-- What numbering puts behind a name. -/
def suffix (n : ℕ) : List Char := '-' :: Nat.toDigits 10 n

theorem toList_numbered (base : String) (n : ℕ) :
    (numbered base n).toList = base.toList ++ suffix n := by
  unfold numbered
  rw [String.toList_append, String.toList_append, toList_toString, List.append_assoc]
  rfl

theorem not_mem_toDigits {c : Char} (hc : c.isDigit = false) : c ∉ Nat.toDigits 10 n := by
  intro hmem
  have hdigit := Nat.isDigit_of_mem_toDigits (by decide) (by decide) hmem
  rw [hc] at hdigit
  cases hdigit

theorem append_suffix_inj {s t : List Char} (h : s ++ suffix n = t ++ suffix m) :
    s = t ∧ n = m := by
  have hdash : ∀ k, '-' ∉ (Nat.toDigits 10 k).reverse := fun k hmem =>
    not_mem_toDigits (by decide) (List.mem_reverse.mp hmem)
  have hreverse : (Nat.toDigits 10 n).reverse ++ '-' :: s.reverse =
      (Nat.toDigits 10 m).reverse ++ '-' :: t.reverse := by
    have h := congrArg List.reverse h
    unfold suffix at h
    rwa [List.reverse_append, List.reverse_cons, List.append_assoc, List.reverse_append,
      List.reverse_cons, List.append_assoc] at h
  have hdigits := List.reverse_injective (eq_of_append_cons (hdash n) (hdash m) hreverse)
  have hnumber : n = m := by
    rw [← Nat.ofDigitChars_ten_toDigits (n := n), hdigits, Nat.ofDigitChars_ten_toDigits]
  subst hnumber
  exact ⟨(List.append_left_inj _).mp h, rfl⟩

theorem numbered_inj (h : numbered base n = numbered base' m) : base = base' ∧ n = m := by
  have h := congrArg String.toList h
  rw [toList_numbered, toList_numbered] at h
  obtain ⟨hbase, hnumber⟩ := append_suffix_inj h
  exact ⟨String.toList_inj.mp hbase, hnumber⟩

theorem numbered_ne (base : String) (n : ℕ) : numbered base n ≠ base := by
  intro h
  have h := congrArg (fun s : String => s.toList.length) h
  simp only [toList_numbered, List.length_append, suffix, List.length_cons] at h
  omega

/-! ## Numbered paths -/

namespace RawPath

theorem components_append {s t : List Char} (ht : '/' ∉ t) : ∃ init last,
    components s = init ++ [last] ∧ components (s ++ t) = init ++ [last ++ t] := by
  induction s with
  | nil =>
    refine ⟨[], [], rfl, ?_⟩
    rw [List.nil_append, List.nil_append]
    induction t with
    | nil => rfl
    | cons c t ih =>
      obtain ⟨hc, hrest⟩ := not_or.mp (mt List.mem_cons.mpr ht)
      rw [components, if_neg (Ne.symm hc), ih hrest]
  | cons c s ih =>
    obtain ⟨init, last, hs, hst⟩ := ih
    rw [List.cons_append, components, components]
    by_cases hc : c = '/'
    · exact ⟨[] :: init, last, by rw [if_pos hc, hs, List.cons_append],
        by rw [if_pos hc, hst, List.cons_append]⟩
    · rw [if_neg hc, if_neg hc, hs, hst]
      cases init with
      | nil => exact ⟨[], c :: last, rfl, rfl⟩
      | cons comp init => exact ⟨(c :: comp) :: init, last, rfl, rfl⟩

/-- The path ends in a name: neither in a slash nor in a dot behind one. -/
def EndsInName (s : String) : Prop :=
  (ofString s).comps.getLast? ≠ some "" ∧ (ofString s).comps.getLast? ≠ some "."

theorem slash_not_mem_suffix (n : ℕ) : '/' ∉ suffix n := by
  unfold suffix
  rw [List.mem_cons, not_or]
  exact ⟨by decide, not_mem_toDigits (by decide)⟩

theorem comps_numbered (s : String) (n : ℕ) : ∃ init last,
    (ofString s).comps = init ++ [String.ofList last] ∧
      (ofString (numbered s n)).comps = init ++ [String.ofList (last ++ suffix n)] := by
  obtain ⟨init, last, hs, hsn⟩ := components_append (s := s.toList) (slash_not_mem_suffix n)
  refine ⟨init.map String.ofList, last, ?_, ?_⟩
  · show (components s.toList).map String.ofList = _
    rw [hs, List.map_append, List.map_singleton]
  · show (components (numbered s n).toList).map String.ofList = _
    rw [toList_numbered, hsn, List.map_append, List.map_singleton]

theorem absolute_numbered (s : String) (n : ℕ) (h : (ofString s).absolute = false) :
    (ofString (numbered s n)).absolute = false := by
  have h := of_decide_eq_false h
  refine decide_eq_false ?_
  rw [toList_numbered]
  cases hs : s.toList with
  | nil =>
    intro hhead
    have hhead := Option.some.inj hhead
    cases hhead
  | cons c cs =>
    rw [hs] at h
    exact h

theorem ne_of_suffix (last : List Char) (n : ℕ) {s : String} (h : '-' ∉ s.toList) :
    String.ofList (last ++ suffix n) ≠ s := by
  rintro rfl
  rw [String.toList_ofList] at h
  exact h (List.mem_append_right _ List.mem_cons_self)

theorem dotdot_numbered (s : String) (n : ℕ) (h : ".." ∉ (ofString s).comps) :
    ".." ∉ (ofString (numbered s n)).comps := by
  obtain ⟨init, last, hs, hsn⟩ := comps_numbered s n
  rw [hs, List.mem_append, not_or] at h
  rw [hsn, List.mem_append, not_or, List.mem_singleton]
  exact ⟨h.1, (ne_of_suffix last n (by decide)).symm⟩

/-- Where a numbered name leads: next to the name, or below it where that does not end in one. -/
theorem key_numbered (s : String) (n : ℕ) : ∃ init last,
    (ofString (numbered s n)).key = init ++ [String.ofList (last ++ suffix n)] ∧
      (EndsInName s → (ofString s).key = init ++ [String.ofList last]) ∧
      (¬ EndsInName s → (ofString s).key = init) := by
  obtain ⟨init, last, hs, hsn⟩ := comps_numbered s n
  refine ⟨init.filter fun c => c ≠ "" ∧ c ≠ ".", last, ?_, ?_, ?_⟩
  · unfold key
    rw [hsn, List.filter_append, List.filter_cons_of_pos, List.filter_nil]
    exact decide_eq_true ⟨ne_of_suffix last n (by decide), ne_of_suffix last n (by decide)⟩
  · rintro ⟨hempty, hdot⟩
    rw [hs, List.getLast?_append, List.getLast?_singleton, Option.some_or] at hempty hdot
    unfold key
    rw [hs, List.filter_append, List.filter_cons_of_pos, List.filter_nil]
    exact decide_eq_true ⟨fun h => hempty (congrArg some h), fun h => hdot (congrArg some h)⟩
  · intro hends
    unfold key
    rw [hs, List.filter_append, List.filter_cons_of_neg, List.filter_nil, List.append_nil]
    intro hname
    obtain ⟨hempty, hdot⟩ := of_decide_eq_true hname
    refine hends ⟨?_, ?_⟩
    · rw [hs, List.getLast?_append, List.getLast?_singleton, Option.some_or]
      exact fun h => hempty (Option.some.inj h)
    · rw [hs, List.getLast?_append, List.getLast?_singleton, Option.some_or]
      exact fun h => hdot (Option.some.inj h)

end RawPath

end Horsie.Lib
