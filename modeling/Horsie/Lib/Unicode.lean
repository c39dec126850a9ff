import Mathlib.Algebra.Order.Ring.Nat
import Mathlib.Data.List.Infix

/-!
# Texts as bytes, and in lower case

Where a text is in another, counted in bytes of its UTF-8 form, and the lower case of a text as the
source language computes it. The tables of Unicode are a parameter: a character may have several
characters for its lower case, of other sizes than its own, and that of a capital sigma depends on
what stands around it.
-/

namespace Horsie.Lib

variable {text needle start rest before after : List Char} {offset place : ℕ} {c : Char}

/-! ## Bytes -/

def bytes (text : List Char) : ℕ := (text.map Char.utf8Size).sum

@[simp] theorem bytes_nil : bytes [] = 0 := rfl

@[simp] theorem bytes_cons : bytes (c :: text) = c.utf8Size + bytes text := by
  unfold bytes
  rw [List.map_cons, List.sum_cons]

@[simp] theorem bytes_append : bytes (start ++ rest) = bytes start + bytes rest := by
  unfold bytes
  rw [List.map_append, List.sum_append]

theorem utf8ByteSize_ofList (text : List Char) :
    (String.ofList text).utf8ByteSize = bytes text := by
  induction text with
  | nil => rfl
  | cons c text ih =>
    rw [← List.singleton_append, String.ofList_append, String.utf8ByteSize_append, ih,
      ← String.singleton_eq_ofList, String.utf8ByteSize_singleton, bytes_append, bytes_cons,
      bytes_nil, Nat.add_zero]

theorem utf8ByteSize_eq (s : String) : s.utf8ByteSize = bytes s.toList := by
  rw [← utf8ByteSize_ofList, String.ofList_toList]

theorem isPrefix_of_bytes_le (h : start <+: text) (h' : rest <+: text)
    (hle : bytes start ≤ bytes rest) : start <+: rest := by
  rcases List.prefix_or_prefix_of_prefix h h' with hp | ⟨more, rfl⟩
  · exact hp
  · cases more with
    | nil => exact ⟨[], by rw [List.append_nil, List.append_nil]⟩
    | cons c more =>
      have hpos := c.utf8Size_pos
      rw [bytes_append, bytes_cons] at hle
      omega

/-- How many characters stand before a byte offset: none at all where it is inside a character, or
behind the end. -/
def charsBefore : List Char → ℕ → Option ℕ
  | _, 0 => some 0
  | [], _ + 1 => none
  | c :: text, offset + 1 =>
    if c.utf8Size ≤ offset + 1 then (charsBefore text (offset + 1 - c.utf8Size)).map (· + 1)
    else none

theorem charsBefore_bytes (start rest : List Char) :
    charsBefore (start ++ rest) (bytes start) = some start.length := by
  induction start with
  | nil => cases rest <;> rfl
  | cons c start ih =>
    have hpos := c.utf8Size_pos
    obtain ⟨n, hn⟩ : ∃ n, bytes (c :: start) = n + 1 := by
      rw [bytes_cons]
      exact ⟨c.utf8Size - 1 + bytes start, by omega⟩
    rw [List.cons_append, hn, charsBefore, ← hn, bytes_cons, if_pos (Nat.le_add_right _ _),
      Nat.add_sub_cancel_left, ih]
    rfl

theorem charsBefore_eq_some (h : charsBefore text offset = some place) :
    ∃ start rest, text = start ++ rest ∧ bytes start = offset ∧ start.length = place := by
  induction text generalizing offset place with
  | nil =>
    cases offset with
    | zero =>
      cases h
      exact ⟨[], [], rfl, rfl, rfl⟩
    | succ offset => cases h
  | cons c text ih =>
    cases offset with
    | zero =>
      cases h
      exact ⟨[], c :: text, rfl, rfl, rfl⟩
    | succ offset =>
      rw [charsBefore] at h
      split_ifs at h with hle
      obtain ⟨place', h', rfl⟩ := Option.map_eq_some_iff.mp h
      obtain ⟨start, rest, rfl, hbytes, rfl⟩ := ih h'
      refine ⟨c :: start, rest, rfl, ?_, rfl⟩
      rw [bytes_cons, hbytes]
      omega

/-! ## Where a text occurs -/

/-- The byte offset at which `needle` first occurs. -/
def find (needle : List Char) : List Char → Option ℕ
  | [] => if needle <+: [] then some 0 else none
  | c :: text =>
    if needle <+: c :: text then some 0 else (find needle text).map (· + c.utf8Size)

/-- `needle` occurs in the text after `before`, and nowhere earlier. -/
structure FirstAt (needle text before : List Char) : Prop where
  occurs : before ++ needle <+: text
  first : ∀ before', before' ++ needle <+: text → before.length ≤ before'.length

theorem find_cons_of_not (h : ¬ needle <+: c :: text) :
    find needle (c :: text) = (find needle text).map (· + c.utf8Size) := by
  rw [find, if_neg h]

theorem find_eq_some (h : find needle text = some offset) :
    ∃ before, FirstAt needle text before ∧ bytes before = offset := by
  induction text generalizing offset with
  | nil =>
    rw [find] at h
    split_ifs at h with hp
    exact ⟨[], ⟨hp, fun _ _ => Nat.zero_le _⟩, Option.some.inj h⟩
  | cons c text ih =>
    by_cases hp : needle <+: c :: text
    · rw [find, if_pos hp] at h
      exact ⟨[], ⟨hp, fun _ _ => Nat.zero_le _⟩, Option.some.inj h⟩
    · rw [find_cons_of_not hp] at h
      obtain ⟨offset', h', rfl⟩ := Option.map_eq_some_iff.mp h
      obtain ⟨before, hbefore, rfl⟩ := ih h'
      refine ⟨c :: before, ⟨List.cons_prefix_cons.mpr ⟨rfl, hbefore.occurs⟩, ?_⟩, ?_⟩
      · intro before' h
        cases before' with
        | nil => exact absurd h hp
        | cons c' before' =>
          exact Nat.succ_le_succ (hbefore.first before' (List.cons_prefix_cons.mp h).2)
      · rw [bytes_cons, Nat.add_comm]

theorem find_eq_none (h : find needle text = none) : ¬ needle <:+: text := by
  induction text with
  | nil =>
    rw [find] at h
    split_ifs at h with hp
    rw [List.infix_nil]
    rintro rfl
    exact hp List.nil_prefix
  | cons c text ih =>
    by_cases hp : needle <+: c :: text
    · rw [find, if_pos hp] at h
      cases h
    · rw [find_cons_of_not hp, Option.map_eq_none_iff] at h
      rw [List.infix_cons_iff]
      rintro (hp' | hi)
      · exact hp hp'
      · exact ih h hi

theorem FirstAt.find_eq (h : FirstAt needle text before) :
    find needle text = some (bytes before) := by
  cases hf : find needle text with
  | none =>
    obtain ⟨rest, hrest⟩ := h.occurs
    exact absurd ⟨before, rest, hrest⟩ (find_eq_none hf)
  | some offset =>
    obtain ⟨before', h', rfl⟩ := find_eq_some hf
    have hlen : before'.length = before.length :=
      Nat.le_antisymm (h'.first before h.occurs) (h.first before' h'.occurs)
    have hpre : before' <+: before :=
      List.prefix_of_prefix_length_le ((List.prefix_append _ _).trans h'.occurs)
        ((List.prefix_append _ _).trans h.occurs) (Nat.le_of_eq hlen)
    rw [hpre.eq_of_length hlen]

theorem find_isSome : (find needle text).isSome = true ↔ needle <:+: text := by
  constructor
  · intro h
    obtain ⟨offset, ho⟩ := Option.isSome_iff_exists.mp h
    obtain ⟨before, hb, -⟩ := find_eq_some ho
    obtain ⟨rest, hrest⟩ := hb.occurs
    exact ⟨before, rest, hrest⟩
  · intro h
    by_contra hnone
    exact find_eq_none (Option.not_isSome_iff_eq_none.mp hnone) h

/-! ## Lower case -/

/-- What Unicode says of characters. -/
structure Casing where
  lower : Char → List Char
  cased : Char → Bool
  caseIgnorable : Char → Bool

variable (U : Casing)

namespace Casing

def caseIgnorableThenCased (text : List Char) : Bool :=
  match text.dropWhile U.caseIgnorable with
  | c :: _ => U.cased c
  | [] => false

/-- The lower case of a capital sigma: at the end of a word it has its own form. -/
def lowerSigma (before after : List Char) : Char :=
  if U.caseIgnorableThenCased before && !U.caseIgnorableThenCased after then 'ς' else 'σ'

/-- The lower case of what comes after `before`, which stands there backwards. -/
def lowerAfter (before : List Char) : List Char → List Char
  | [] => []
  | c :: text =>
    (if c = 'Σ' then [U.lowerSigma before text] else U.lower c) ++ lowerAfter (c :: before) text

def toLowercase (text : List Char) : List Char := U.lowerAfter [] text

/-- Characters with one character of the same size for their lower case, whatever stands around
them. -/
def Plain (f : Char → Char) (text : List Char) : Prop :=
  ∀ c ∈ text, c ≠ 'Σ' ∧ U.lower c = [f c] ∧ (f c).utf8Size = c.utf8Size

-- the characters of the text are gone through, not all there are
instance (f : Char → Char) (text : List Char) : Decidable (U.Plain f text) :=
  List.decidableBAll (fun c => c ≠ 'Σ' ∧ U.lower c = [f c] ∧ (f c).utf8Size = c.utf8Size) text

variable {U} {f : Char → Char}

theorem Plain.lowerAfter (h : U.Plain f text) (before : List Char) :
    U.lowerAfter before text = text.map f := by
  induction text generalizing before with
  | nil => rfl
  | cons c text ih =>
    obtain ⟨hsigma, hlower, -⟩ := h c List.mem_cons_self
    rw [Casing.lowerAfter, if_neg hsigma, hlower,
      ih (fun c' hc' => h c' (List.mem_cons_of_mem c hc'))]
    rfl

theorem Plain.toLowercase (h : U.Plain f text) : U.toLowercase text = text.map f :=
  h.lowerAfter []

theorem Plain.bytes_map (h : U.Plain f text) : bytes (text.map f) = bytes text := by
  unfold bytes
  rw [List.map_map]
  exact congrArg List.sum (List.map_congr_left fun c hc => (h c hc).2.2)

theorem Plain.part (h : U.Plain f text) (hi : start <:+: text) : U.Plain f start :=
  fun c hc => h c (hi.subset hc)

end Casing

end Horsie.Lib
