import Horsie.AgentCore.Tool
import Horsie.Lib.Unicode

/-!
# The middle of a long result

A result that is too long loses its middle, and a marker says how many bytes are missing. The marker
is as long as its number, and its number depends on how long it is, so it is written twice: the
second one reports what would be missing with the first. The two agree exactly if they are equally
long, and what is kept is then as long as planned exactly if the end begins at a character
(`bounded_exact_iff`).
-/

namespace Horsie.AgentCore

open Horsie.Lib (bytes charsBefore)

variable {n : ℕ} {cs : List Char}

/-! ## Cuts at characters -/

theorem takeBytes_isPrefix (n : ℕ) (cs : List Char) : takeBytes n cs <+: cs := by
  induction cs generalizing n with
  | nil => exact List.prefix_refl _
  | cons c cs ih =>
    rw [takeBytes]
    split_ifs
    · exact List.cons_prefix_cons.mpr ⟨rfl, ih _⟩
    · exact List.nil_prefix

theorem bytes_takeBytes_le (n : ℕ) (cs : List Char) : bytes (takeBytes n cs) ≤ n := by
  induction cs generalizing n with
  | nil => exact Nat.zero_le _
  | cons c cs ih =>
    rw [takeBytes]
    split_ifs with hc
    · have h := ih (n - c.utf8Size)
      rw [Lib.bytes_cons]
      omega
    · exact Nat.zero_le _

/-- What is dropped is longer than asked for, unless a character begins there. -/
theorem dropBytes_split (h : n ≤ bytes cs) : ∃ front, cs = front ++ dropBytes n cs ∧
    n ≤ bytes front ∧ (bytes front = n ↔ (charsBefore cs n).isSome = true) := by
  induction cs generalizing n with
  | nil =>
    obtain rfl := Nat.le_zero.mp h
    exact ⟨[], rfl, Nat.zero_le _, iff_of_true rfl rfl⟩
  | cons c cs ih =>
    by_cases hn : n = 0
    · subst hn
      exact ⟨[], by rw [dropBytes, if_pos rfl, List.nil_append], Nat.zero_le _,
        iff_of_true rfl (by rw [charsBefore, Option.isSome_some])⟩
    · obtain ⟨k, rfl⟩ := Nat.exists_eq_succ_of_ne_zero hn
      rw [dropBytes, if_neg hn]
      by_cases hc : c.utf8Size ≤ k + 1
      · obtain ⟨front, hsplit, hle, hiff⟩ := ih (n := k + 1 - c.utf8Size) (by
          rw [Lib.bytes_cons] at h
          omega)
        refine ⟨c :: front, by rw [List.cons_append, ← hsplit], ?_, ?_⟩
        · rw [Lib.bytes_cons]
          omega
        · rw [charsBefore, if_pos hc, Option.isSome_map, ← hiff, Lib.bytes_cons]
          omega
      · refine ⟨[c], ?_, ?_, ?_⟩
        · have hzero : k + 1 - c.utf8Size = 0 := by omega
          rw [hzero]
          cases cs with
          | nil => rfl
          | cons d cs => rw [dropBytes, if_pos rfl, List.singleton_append]
        · rw [Lib.bytes_cons]
          omega
        · rw [charsBefore, if_neg hc, Lib.bytes_cons, Lib.bytes_nil]
          refine iff_of_false (by omega) ?_
          rw [Option.isSome_none]
          exact Bool.false_ne_true

/-! ## The marker -/

def digits (n : ℕ) : ℕ := (Nat.toDigits 10 n).length

theorem digits_le (h : n < 2 ^ 64) : digits n ≤ 20 :=
  (Nat.length_toDigits_le_iff (by decide) (by decide)).mpr (Nat.lt_trans h (by decide))

theorem digits_mono {m : ℕ} (h : m ≤ n) : digits m ≤ digits n := by
  have hn : n < 10 ^ digits n :=
    (Nat.length_toDigits_le_iff (by decide) Nat.length_toDigits_pos).mp (Nat.le_refl _)
  exact (Nat.length_toDigits_le_iff (by decide) Nat.length_toDigits_pos).mpr
    (Nat.lt_of_le_of_lt h hn)

theorem utf8ByteSize_toString (n : ℕ) : (toString n).utf8ByteSize = digits n := by
  have hascii : ∀ l : List Char, (∀ c ∈ l, c.isDigit = true) → bytes l = l.length := by
    intro l hl
    induction l with
    | nil => rfl
    | cons c l ih =>
      have hc : c.utf8Size = 1 := by
        have hdigit := (Char.isDigit_iff_toNat.mp (hl c List.mem_cons_self)).2
        rw [Char.utf8Size_eq_one_iff, UInt32.le_iff_toNat_le]
        exact Nat.le_trans hdigit (by decide)
      rw [Lib.bytes_cons, hc, ih fun d hd => hl d (List.mem_cons_of_mem _ hd), List.length_cons]
      omega
  rw [Lib.utf8ByteSize_eq]
  show bytes (Nat.repr n).toList = digits n
  rw [Nat.toList_repr]
  exact hascii _ fun c hc => Nat.isDigit_of_mem_toDigits (by decide) (by decide) hc

theorem utf8ByteSize_omissionMarker (n : ℕ) : (omissionMarker n).utf8ByteSize = 107 + digits n := by
  unfold omissionMarker
  simp only [String.utf8ByteSize_append, utf8ByteSize_toString]
  have hbefore : "\n\n… ".utf8ByteSize = 6 := by decide +kernel
  have hafter : " byte(s) omitted by the final tool-output guard. ".utf8ByteSize = 49 := by
    decide +kernel
  have hadvice : "Narrow the request to inspect the missing content.\n\n".utf8ByteSize = 52 := by
    decide +kernel
  omega

/-! ## What is kept -/

def reported (size : ℕ) : ℕ :=
  size - (maxToolResultBytes - (omissionMarker (size - maxToolResultBytes)).utf8ByteSize)

def retained (size : ℕ) : ℕ := maxToolResultBytes - (omissionMarker (reported size)).utf8ByteSize

/-- The beginning that is kept of a text that is too long. -/
def keptHead (output : String) : List Char :=
  takeBytes (retained output.utf8ByteSize / 2) output.toList

def keptTail (output : String) : List Char :=
  dropBytes (output.utf8ByteSize - (retained output.utf8ByteSize - bytes (keptHead output)))
    output.toList

variable {output : String}

theorem boundToolOutput_of_le (h : output.utf8ByteSize ≤ maxToolResultBytes) :
    (boundToolOutput output).output = output := by
  unfold boundToolOutput
  rw [if_pos h]

theorem boundToolOutput_of_lt (h : maxToolResultBytes < output.utf8ByteSize) :
    (boundToolOutput output).output = String.ofList (keptHead output) ++
      omissionMarker (reported output.utf8ByteSize) ++ String.ofList (keptTail output) := by
  unfold boundToolOutput keptTail keptHead
  rw [if_neg (Nat.not_le.mpr h), ← Lib.utf8ByteSize_ofList]
  rfl

/-- What is promised of the guard: the text is short enough, it is the original where that was, and
else its beginning, a marker with the number of the bytes left out, and its end. -/
structure Guarded (output : String) : Prop where
  bounded : (boundToolOutput output).output.utf8ByteSize ≤ maxToolResultBytes
  whole : output.utf8ByteSize ≤ maxToolResultBytes → (boundToolOutput output).output = output
  cut : maxToolResultBytes < output.utf8ByteSize → ∃ omitted,
    output.toList = keptHead output ++ omitted ++ keptTail output ∧
      (boundToolOutput output).output = String.ofList (keptHead output) ++
        omissionMarker (bytes omitted) ++ String.ofList (keptTail output)

/-- What the guard has to leave out at least, and the length of a marker that says so. -/
def excess (output : String) : ℕ := output.utf8ByteSize - maxToolResultBytes

def markerSize (output : String) : ℕ := (omissionMarker (excess output)).utf8ByteSize

/-- The text fits; or what is too long and the marker's length on top of it have equally many
digits, and a character begins where the end is to begin: as many bytes before the end of the text
as the marker and the beginning leave. -/
def Even (output : String) : Prop :=
  output.utf8ByteSize ≤ maxToolResultBytes ∨
    digits (excess output + markerSize output) = digits (excess output) ∧
      (charsBefore output.toList (output.utf8ByteSize - (maxToolResultBytes - markerSize output -
        bytes (takeBytes ((maxToolResultBytes - markerSize output) / 2) output.toList)))).isSome =
          true

/-! ## The number reported -/

theorem markerSize_eq (output : String) : markerSize output = 107 + digits (excess output) :=
  utf8ByteSize_omissionMarker _

/-- The first marker has its place in what is kept, so its length is what is left out besides. -/
theorem reported_eq (h : maxToolResultBytes < output.utf8ByteSize)
    (hsize : output.utf8ByteSize < 2 ^ 64) :
    reported output.utf8ByteSize = excess output + markerSize output := by
  have hdigits : digits (excess output) ≤ 20 :=
    digits_le (Nat.lt_of_le_of_lt (Nat.sub_le _ _) hsize)
  have hmarker := markerSize_eq output
  have hmax : maxToolResultBytes = 65536 := rfl
  unfold reported
  show output.utf8ByteSize - (maxToolResultBytes - markerSize output) = _
  have hexcess : excess output = output.utf8ByteSize - maxToolResultBytes := rfl
  omega

theorem retained_eq (h : maxToolResultBytes < output.utf8ByteSize)
    (hsize : output.utf8ByteSize < 2 ^ 64) : retained output.utf8ByteSize =
      maxToolResultBytes - (107 + digits (excess output + markerSize output)) := by
  unfold retained
  rw [reported_eq h hsize, utf8ByteSize_omissionMarker]

/-- The second marker is no shorter than the first, and there is room for it. -/
theorem digits_bounds (h : maxToolResultBytes < output.utf8ByteSize)
    (hsize : output.utf8ByteSize < 2 ^ 64) :
    digits (excess output) ≤ digits (excess output + markerSize output) ∧
      digits (excess output + markerSize output) ≤ 20 := by
  refine ⟨digits_mono (Nat.le_add_right _ _), ?_⟩
  rw [← reported_eq h hsize]
  exact digits_le (Nat.lt_of_le_of_lt (Nat.sub_le _ _) hsize)

theorem bytes_keptHead_le (output : String) :
    bytes (keptHead output) ≤ retained output.utf8ByteSize / 2 :=
  bytes_takeBytes_le _ _

/-- What is kept of a text that is too long: the end begins behind the beginning, at the place asked
for or later. -/
theorem kept_split (h : maxToolResultBytes < output.utf8ByteSize) :
    ∃ omitted, output.toList = keptHead output ++ omitted ++ keptTail output ∧
      output.utf8ByteSize - retained output.utf8ByteSize ≤ bytes omitted ∧
      (bytes omitted = output.utf8ByteSize - retained output.utf8ByteSize ↔
        (charsBefore output.toList (output.utf8ByteSize -
          (retained output.utf8ByteSize - bytes (keptHead output)))).isSome = true) := by
  have hhead := bytes_keptHead_le output
  have hretained : retained output.utf8ByteSize ≤ maxToolResultBytes := Nat.sub_le _ _
  have hstart : output.utf8ByteSize - (retained output.utf8ByteSize - bytes (keptHead output)) ≤
      bytes output.toList := by
    rw [← Lib.utf8ByteSize_eq]
    exact Nat.sub_le _ _
  obtain ⟨front, hsplit, hle, hiff⟩ := dropBytes_split hstart
  have hbefore : keptHead output <+: front := by
    refine Lib.isPrefix_of_bytes_le (takeBytes_isPrefix _ _) ⟨_, hsplit.symm⟩ ?_
    show bytes (keptHead output) ≤ bytes front
    omega
  obtain ⟨omitted, rfl⟩ := hbefore
  rw [Lib.bytes_append] at hle hiff
  refine ⟨omitted, hsplit, by omega, ?_⟩
  rw [← hiff]
  omega

theorem omissionMarker_inj {m : ℕ} (h : omissionMarker m = omissionMarker n) : m = n := by
  unfold omissionMarker at h
  have hnumber : toString m = toString n :=
    (String.append_right_inj _).mp ((String.append_left_inj _).mp ((String.append_left_inj _).mp h))
  have hdigits : Nat.toDigits 10 m = Nat.toDigits 10 n := by
    have hlists := congrArg String.toList hnumber
    rwa [Nat.toString_eq_repr, Nat.toString_eq_repr, Nat.toList_repr, Nat.toList_repr] at hlists
  rw [← Nat.ofDigitChars_ten_toDigits (n := m), hdigits, Nat.ofDigitChars_ten_toDigits]

/-! ## The guard -/

theorem boundToolOutput_bounded (hsize : output.utf8ByteSize < 2 ^ 64) :
    (boundToolOutput output).output.utf8ByteSize ≤ maxToolResultBytes := by
  by_cases h : output.utf8ByteSize ≤ maxToolResultBytes
  · rwa [boundToolOutput_of_le h]
  · have hlt := Nat.not_le.mp h
    obtain ⟨omitted, hsplit, hle, -⟩ := kept_split hlt
    have hwhole : output.utf8ByteSize =
        bytes (keptHead output) + bytes omitted + bytes (keptTail output) := by
      rw [Lib.utf8ByteSize_eq, hsplit, Lib.bytes_append, Lib.bytes_append]
    have hretained := retained_eq hlt hsize
    have hdigits := (digits_bounds hlt hsize).2
    have hmax : maxToolResultBytes = 65536 := rfl
    rw [boundToolOutput_of_lt hlt, String.utf8ByteSize_append, String.utf8ByteSize_append,
      Lib.utf8ByteSize_ofList, Lib.utf8ByteSize_ofList, reported_eq hlt hsize,
      utf8ByteSize_omissionMarker]
    omega

/-- The number is right exactly if the second marker is as long as the first and the end begins
where it was to begin. -/
theorem reported_right_iff {omitted : List Char}
    (h : maxToolResultBytes < output.utf8ByteSize) (hsize : output.utf8ByteSize < 2 ^ 64)
    (hsplit : output.toList = keptHead output ++ omitted ++ keptTail output) :
    reported output.utf8ByteSize = bytes omitted ↔ Even output := by
  obtain ⟨omitted', hsplit', hle, hiff⟩ := kept_split h
  have hsame : omitted = omitted' := by
    rw [hsplit] at hsplit'
    exact (List.append_right_inj _).mp ((List.append_left_inj _).mp hsplit')
  subst hsame
  obtain ⟨hmono, hroom⟩ := digits_bounds h hsize
  have hretained := retained_eq h hsize
  have hmarker := markerSize_eq output
  have hexcess : excess output = output.utf8ByteSize - maxToolResultBytes := rfl
  have hmax : maxToolResultBytes = 65536 := rfl
  rw [reported_eq h hsize]
  by_cases hdigits : digits (excess output + markerSize output) = digits (excess output)
  · have hkept : retained output.utf8ByteSize = maxToolResultBytes - markerSize output := by
      omega
    unfold Even
    rw [← hkept, or_iff_right (Nat.not_le.mpr h), and_iff_right hdigits]
    show _ ↔ (charsBefore output.toList (output.utf8ByteSize -
      (retained output.utf8ByteSize - bytes (keptHead output)))).isSome = true
    rw [← hiff]
    omega
  · refine iff_of_false (by omega) ?_
    rintro (hfits | heven)
    · exact Nat.not_le.mpr h hfits
    · exact hdigits heven.1

theorem Guarded.even (hsize : output.utf8ByteSize < 2 ^ 64)
    (h : Guarded output) : Even output := by
  by_cases hfits : output.utf8ByteSize ≤ maxToolResultBytes
  · exact .inl hfits
  · have hlt := Nat.not_le.mp hfits
    obtain ⟨omitted, hsplit, hcut⟩ := h.cut hlt
    rw [boundToolOutput_of_lt hlt] at hcut
    refine (reported_right_iff hlt hsize hsplit).mp ?_
    exact omissionMarker_inj ((String.append_right_inj _).mp ((String.append_left_inj _).mp hcut))

theorem Even.guarded (hsize : output.utf8ByteSize < 2 ^ 64)
    (h : Even output) : Guarded output := by
  refine ⟨boundToolOutput_bounded hsize, boundToolOutput_of_le, fun hlt => ?_⟩
  obtain ⟨omitted, hsplit, -⟩ := kept_split hlt
  refine ⟨omitted, hsplit, ?_⟩
  rw [boundToolOutput_of_lt hlt, (reported_right_iff hlt hsize hsplit).mpr h]

/-- The guard keeps its promise exactly of the texts that fit, and of those where both markers are
equally long and the end begins at a character. -/
theorem bounded_exact_iff (output : String) (hsize : output.utf8ByteSize < 2 ^ 64) :
    Guarded output ↔ Even output :=
  ⟨Guarded.even hsize, Even.guarded hsize⟩

/-- A text of one letter. -/
def page (n : ℕ) : String := String.ofList (List.replicate n 'a')

theorem utf8ByteSize_page (n : ℕ) : (page n).utf8ByteSize = n := by
  rw [page, Lib.utf8ByteSize_ofList]
  induction n with
  | zero => rfl
  | succ n ih =>
    rw [List.replicate_succ, Lib.bytes_cons, ih]
    show 1 + n = n + 1
    omega

theorem bounded_exact_page : (page 66000).utf8ByteSize < 2 ^ 64 ∧
    (Guarded (page 66000) ↔ Even (page 66000)) :=
  have hsize : (page 66000).utf8ByteSize < 2 ^ 64 := by
    rw [utf8ByteSize_page]
    decide
  ⟨hsize, bounded_exact_iff (page 66000) hsize⟩

/-- A text that is one byte too long: the first marker says so in one digit, the second needs three
for the 109 bytes it reports, and 111 are missing. -/
theorem bounded_two_digits_short :
    ¬ ∀ output : String, output.utf8ByteSize < 2 ^ 64 → Guarded output := by
  intro h
  have hsize : (page 65537).utf8ByteSize < 2 ^ 64 := by
    rw [utf8ByteSize_page]
    decide
  have hexcess : excess (page 65537) = 1 := by
    rw [excess, utf8ByteSize_page]
    rfl
  have heven := (h _ hsize).even hsize
  unfold Even at heven
  rw [markerSize_eq, hexcess, utf8ByteSize_page] at heven
  rcases heven with hfits | ⟨hdigits, -⟩
  · exact absurd hfits (by decide)
  · cases hdigits

end Horsie.AgentCore
