import Horsie.Lib.Text
import Mathlib.Data.List.TakeDrop

/-!
# Line endings

A text is its lines with their endings: a line ends with a line feed, with a carriage return and a
line feed, or, where it is the last one, with nothing. Given the lines, the text determines their
endings.
-/

namespace Horsie.Lib

inductive Ending
  | bare
  | lf
  | crlf
deriving DecidableEq

def Ending.text : Ending → String
  | bare => ""
  | lf => "\n"
  | crlf => "\r\n"

/-- The lines with their endings in one text. -/
def joinLines : List String → List Ending → String
  | line :: lines, ending :: endings => line ++ ending.text ++ joinLines lines endings
  | _, _ => ""

def endingOf (part : List Char) : Ending := if part.getLast? = some '\r' then .crlf else .lf

def endings (s : String) : List Ending :=
  (segments s.toList).dropLast.map endingOf ++
    if (segments s.toList).getLast? = some [] then [] else [.bare]

def Ended (es : List Ending) : Prop := ∀ e ∈ es.dropLast, e ≠ .bare

/-- The text ends with a line feed. -/
def EndsInNewline (s : String) : Prop := s.toList.getLast? = some '\n'

instance (s : String) : Decidable (EndsInNewline s) := inferInstanceAs (Decidable (_ = _))

/-! ## A text and its lines -/

theorem segments_split (cs : List Char) : ∃ parts last,
    segments cs = parts ++ [last] ∧ cs = (parts.map (· ++ ['\n'])).flatten ++ last := by
  induction cs with
  | nil => exact ⟨[], [], rfl, rfl⟩
  | cons c cs ih =>
    obtain ⟨parts, last, hsegments, hcs⟩ := ih
    unfold segments
    by_cases hc : c = '\n'
    · refine ⟨[] :: parts, last, ?_, ?_⟩
      · rw [if_pos hc, hsegments]
        rfl
      · rw [hc, List.map_cons, List.flatten_cons, List.append_assoc, ← hcs]
        rfl
    · rw [if_neg hc, hsegments]
      cases parts with
      | nil =>
        refine ⟨[], c :: last, rfl, ?_⟩
        rw [hcs]
        rfl
      | cons part parts =>
        refine ⟨(c :: part) :: parts, last, rfl, ?_⟩
        rw [hcs]
        rfl

theorem line_ending (part : List Char) :
    String.ofList (stripReturn part) ++ (endingOf part).text = String.ofList (part ++ ['\n']) := by
  unfold stripReturn endingOf
  by_cases hcr : part.getLast? = some '\r'
  · rw [if_pos hcr, if_pos hcr]
    have hpart : part.dropLast ++ ['\r'] = part := List.dropLast_append_getLast? '\r' hcr
    conv_rhs => rw [← hpart]
    rw [String.ofList_append, String.ofList_append, String.append_assoc]
    rfl
  · rw [if_neg hcr, if_neg hcr, String.ofList_append]
    rfl

theorem joinLines_append {ls ls' : List String} {es es' : List Ending} (h : ls.length = es.length) :
    joinLines (ls ++ ls') (es ++ es') = joinLines ls es ++ joinLines ls' es' := by
  induction ls generalizing es with
  | nil =>
    obtain rfl := List.length_eq_zero_iff.mp h.symm
    show joinLines ls' es' = "" ++ joinLines ls' es'
    rw [String.empty_append]
  | cons l ls ih =>
    cases es with
    | nil => cases h
    | cons e es =>
      have hlen : ls.length = es.length := Nat.succ.inj h
      show l ++ e.text ++ joinLines (ls ++ ls') (es ++ es') = l ++ e.text ++ joinLines ls es ++ _
      rw [ih hlen]
      simp only [String.append_assoc]

theorem joinLines_parts (parts : List (List Char)) :
    joinLines ((parts.map stripReturn).map String.ofList) (parts.map endingOf) =
      String.ofList (parts.map (· ++ ['\n'])).flatten := by
  induction parts with
  | nil => rfl
  | cons part parts ih =>
    simp only [List.map_cons, joinLines, List.flatten_cons, String.ofList_append]
    rw [line_ending, ih, String.ofList_append]

theorem lines_of_segments {s : String} {parts : List (List Char)} {last : List Char}
    (h : segments s.toList = parts ++ [last]) :
    lines s = (parts.map stripReturn).map String.ofList ++
      if last = [] then [] else [String.ofList last] := by
  unfold lines
  simp only [h, List.getLast?_concat, List.dropLast_concat]
  cases last with
  | nil => exact (List.append_nil _).symm
  | cons c cs => rfl

theorem endings_of_segments {s : String} {parts : List (List Char)} {last : List Char}
    (h : segments s.toList = parts ++ [last]) :
    endings s = parts.map endingOf ++ if last = [] then [] else [.bare] := by
  unfold endings
  simp only [h, List.getLast?_concat, List.dropLast_concat, Option.some_inj]

theorem endings_length (s : String) : (endings s).length = (lines s).length := by
  obtain ⟨parts, last, hsegments, -⟩ := segments_split s.toList
  rw [lines_of_segments hsegments, endings_of_segments hsegments]
  split <;> simp

theorem joinLines_endings (s : String) : joinLines (lines s) (endings s) = s := by
  obtain ⟨parts, last, hsegments, hs⟩ := segments_split s.toList
  have htext : String.ofList (parts.map (· ++ ['\n'])).flatten ++ String.ofList last = s := by
    rw [← String.ofList_append, ← hs, String.ofList_toList]
  rw [lines_of_segments hsegments, endings_of_segments hsegments, joinLines_append (by simp),
    joinLines_parts]
  cases last with
  | nil => exact htext
  | cons c cs => exact (congrArg _ (String.append_empty.trans String.append_empty)).trans htext

theorem endings_ended (s : String) : Ended (endings s) := by
  obtain ⟨parts, last, hsegments, -⟩ := segments_split s.toList
  have hparts : ∀ e ∈ parts.map endingOf, e ≠ .bare := by
    intro e he
    obtain ⟨part, -, rfl⟩ := List.mem_map.mp he
    unfold endingOf
    split <;> exact Ending.noConfusion
  rw [endings_of_segments hsegments]
  split
  · rw [List.append_nil]
    exact fun e he => hparts e (List.dropLast_subset _ he)
  · rw [Ended, List.dropLast_concat]
    exact hparts

/-! ## The endings of a text -/

/-- Two endings followed by something are the same where the texts are. -/
theorem ending_text_append {e e' : Ending} {rest rest' : String} (he : e ≠ .bare) (he' : e' ≠ .bare)
    (h : e.text ++ rest = e'.text ++ rest') : e = e' := by
  have hchars := congrArg String.toList h
  rw [String.toList_append, String.toList_append] at hchars
  cases e <;> cases e' <;> first | rfl | contradiction | simp [Ending.text] at hchars

theorem ending_text_inj {e e' : Ending} (h : e.text = e'.text) : e = e' := by
  cases e <;> cases e' <;> first | rfl | exact absurd h (by decide)

/-- Given the lines, a text has its endings in one way only. -/
theorem joinLines_inj {ls : List String} {es es' : List Ending} (hlen : es.length = ls.length)
    (hlen' : es'.length = ls.length) (hes : Ended es) (hes' : Ended es')
    (h : joinLines ls es = joinLines ls es') : es = es' := by
  induction ls generalizing es es' with
  | nil => rw [List.length_eq_zero_iff.mp hlen, List.length_eq_zero_iff.mp hlen']
  | cons l ls ih =>
    cases es with
    | nil => cases hlen
    | cons e es =>
      cases es' with
      | nil => cases hlen'
      | cons e' es' =>
        have hrest : e.text ++ joinLines ls es = e'.text ++ joinLines ls es' := by
          have h : l ++ e.text ++ joinLines ls es = l ++ e'.text ++ joinLines ls es' := h
          rw [String.append_assoc, String.append_assoc] at h
          exact String.append_right_inj l |>.mp h
        have hl : es.length = ls.length := Nat.succ.inj hlen
        have hl' : es'.length = ls.length := Nat.succ.inj hlen'
        cases ls with
        | nil =>
          obtain rfl := List.length_eq_zero_iff.mp hl
          obtain rfl := List.length_eq_zero_iff.mp hl'
          obtain rfl : e = e' := ending_text_inj (by simpa [joinLines] using hrest)
          rfl
        | cons l' ls =>
          have hne : es ≠ [] := List.ne_nil_of_length_eq_add_one hl
          have hne' : es' ≠ [] := List.ne_nil_of_length_eq_add_one hl'
          rw [Ended, List.dropLast_cons_of_ne_nil hne] at hes
          rw [Ended, List.dropLast_cons_of_ne_nil hne'] at hes'
          obtain ⟨he, hended⟩ := List.forall_mem_cons.mp hes
          obtain ⟨he', hended'⟩ := List.forall_mem_cons.mp hes'
          obtain rfl := ending_text_append he he' hrest
          rw [ih hl hl' hended hended' ((String.append_right_inj _).mp hrest)]

/-! ## One separator -/

variable {sep : Ending} {trailing : Bool} {n k : ℕ} {ls : List String}

/-- The ending of the line `k` of `n` that are joined with one separator. -/
def endingAt (sep : Ending) (trailing : Bool) (n k : ℕ) : Ending :=
  if k + 1 < n ∨ trailing = true then sep else .bare

/-- The endings of `n` lines that are joined with one separator. -/
def sharedEndings (sep : Ending) (trailing : Bool) (n : ℕ) : List Ending :=
  (List.range n).map (endingAt sep trailing n)

theorem sharedEndings_get (h : k < n) :
    (sharedEndings sep trailing n)[k]? = some (endingAt sep trailing n k) := by
  unfold sharedEndings
  rw [List.getElem?_map, List.getElem?_range h]
  rfl

theorem sharedEndings_length : (sharedEndings sep trailing n).length = n := by
  rw [sharedEndings, List.length_map, List.length_range]

theorem sharedEndings_cons : sharedEndings sep trailing (n + 2) =
    sep :: sharedEndings sep trailing (n + 1) := by
  have hfirst : endingAt sep trailing (n + 2) 0 = sep := if_pos (.inl (by omega))
  unfold sharedEndings
  rw [List.range_succ_eq_map, List.map_cons, hfirst, List.map_map]
  congr 1
  refine List.map_congr_left fun k _ => ?_
  unfold endingAt
  refine if_congr ?_ rfl rfl
  rw [Nat.succ_eq_add_one]
  exact or_congr_left (by omega)

theorem sharedEndings_ended (hsep : sep ≠ .bare) : Ended (sharedEndings sep trailing n) := by
  induction n with
  | zero => exact fun e he => absurd he List.not_mem_nil
  | succ n ih =>
    cases n with
    | zero => exact fun e he => absurd he List.not_mem_nil
    | succ n =>
      have hne : sharedEndings sep trailing (n + 1) ≠ [] :=
        List.ne_nil_of_length_eq_add_one sharedEndings_length
      rw [Ended, sharedEndings_cons, List.dropLast_cons_of_ne_nil hne]
      exact List.forall_mem_cons.mpr ⟨hsep, ih⟩

theorem endsInNewline_append {s t : String} (h : t ≠ "") :
    EndsInNewline (s ++ t) ↔ EndsInNewline t := by
  have hne : t.toList ≠ [] := fun hnil => h (String.toList_inj.mp hnil)
  unfold EndsInNewline
  rw [String.toList_append, List.getLast?_append_of_ne_nil _ hne]

theorem endsInNewline_text (hsep : sep ≠ .bare) (s : String) : EndsInNewline (s ++ sep.text) := by
  have htext : sep.text ≠ "" ∧ EndsInNewline sep.text := by
    cases sep <;> first | exact absurd rfl hsep | exact ⟨by decide, by decide⟩
  exact (endsInNewline_append htext.1).mpr htext.2

theorem shared_one (line : String) : joinLines [line] (sharedEndings sep trailing 1) =
    line ++ (if trailing then sep else .bare).text := by
  cases trailing <;> exact String.append_empty

theorem shared_cons (line line' : String) : joinLines (line :: line' :: ls)
    (sharedEndings sep trailing (ls.length + 2)) = line ++ sep.text ++
      joinLines (line' :: ls) (sharedEndings sep trailing (ls.length + 1)) := by
  rw [sharedEndings_cons]
  rfl

theorem shared_eq_empty (hsep : sep ≠ .bare) {line : String} :
    joinLines (line :: ls) (sharedEndings sep trailing (ls.length + 1)) = "" ↔
      trailing = false ∧ line = "" ∧ ls = [] := by
  have hsome : ∀ s : String, s ++ sep.text ≠ "" := by
    intro s hs
    have hnewline := endsInNewline_text hsep s
    rw [hs] at hnewline
    cases hnewline
  cases ls with
  | nil =>
    show joinLines [line] (sharedEndings sep trailing 1) = "" ↔ _
    rw [shared_one]
    cases trailing with
    | true => exact iff_of_false (hsome line) fun h => Bool.noConfusion h.1
    | false =>
      have hbare : line ++ Ending.bare.text = line := String.append_empty
      simp [hbare]
  | cons line' ls =>
    show joinLines _ (sharedEndings sep trailing (ls.length + 2)) = "" ↔ _
    rw [shared_cons]
    refine iff_of_false (fun h => ?_) fun h => List.cons_ne_nil _ _ h.2.2
    exact hsome line (String.append_eq_empty_iff.mp h).1

/-- What it takes for lines joined with one separator to end in a line feed. -/
theorem endsInNewline_shared (hsep : sep ≠ .bare) :
    EndsInNewline (joinLines ls (sharedEndings sep trailing ls.length)) ↔
      if trailing then ls ≠ []
      else ∃ last ∈ ls.getLast?, EndsInNewline last ∨ last = "" ∧ ls.length ≠ 1 := by
  induction ls with
  | nil =>
    have hnil : ¬ EndsInNewline "" := by decide
    show EndsInNewline "" ↔ _
    cases trailing <;> simp [hnil]
  | cons line ls ih =>
    cases ls with
    | nil =>
      show EndsInNewline (joinLines [line] (sharedEndings sep trailing 1)) ↔ _
      rw [shared_one]
      cases trailing with
      | true => exact iff_of_true (endsInNewline_text hsep line) (List.cons_ne_nil _ _)
      | false =>
        have hbare : line ++ Ending.bare.text = line := String.append_empty
        simp [hbare]
    | cons line' ls =>
      show EndsInNewline (joinLines _ (sharedEndings sep trailing (ls.length + 2))) ↔ _
      rw [shared_cons]
      by_cases hempty : joinLines (line' :: ls) (sharedEndings sep trailing (ls.length + 1)) = ""
      · obtain ⟨rfl, rfl, rfl⟩ := (shared_eq_empty hsep).mp hempty
        rw [hempty, String.append_empty]
        exact iff_of_true (endsInNewline_text hsep line) ⟨"", rfl, .inr ⟨rfl, by simp⟩⟩
      · rw [endsInNewline_append hempty]
        refine Iff.trans ih ?_
        cases trailing with
        | true => exact iff_of_true (List.cons_ne_nil _ _) (List.cons_ne_nil _ _)
        | false =>
          simp only [Bool.false_eq_true, if_false, List.getLast?_cons_cons]
          refine exists_congr fun last => and_congr_right fun hlast => or_congr_right ?_
          refine and_congr_right fun hnone => iff_of_true ?_ (by simp)
          -- a last line that is empty and alone would leave nothing
          intro hlen
          obtain rfl := List.length_eq_zero_iff.mp (Nat.succ.inj hlen)
          obtain rfl : line' = last := Option.some.inj hlast
          exact hempty ((shared_eq_empty hsep).mpr ⟨rfl, hnone, rfl⟩)

end Horsie.Lib
