import Horsie.Lib.Pieces
import Horsie.Tools.Edits
import Horsie.Tools.Update

/-!
# Editing by line numbers

A file is read by its lines, and lines are replaced by their numbers. The edit splits the whole file
and joins it again with one separator, so it is exact where the other lines have that as their
ending, and writing back what was read changes nothing where the reader shows the lines as they are
(`replaced_exactly_iff`).
-/

namespace Horsie.Tools

open Horsie.Lib

/-! ## The tools -/

structure ReadFileInput where
  path : String
  startLine : Option ℕ
  endLine : Option ℕ
deriving DecidableEq

structure ReplaceLinesInput where
  path : String
  startLine : ℕ
  endLine : ℕ
  replacement : String
deriving DecidableEq

/-- What `read_file` shows of a file. -/
def shownLines (content : String) (startLine endLine : Option ℕ) : Except String String :=
  let lines := Lib.lines content
  match startLine, endLine with
  | some s, some e =>
    if e < s then .error s!"start_line {s} is after end_line {e}; the range must be ascending"
    else .ok ("\n".intercalate ((lines.take (min e lines.length)).drop (min (s - 1) lines.length)))
  | some s, none => .ok ("\n".intercalate (lines.drop (min (s - 1) lines.length)))
  | none, _ => .ok content

def readFile (t : Tree) (workingDir : String) (input : ReadFileInput) : Except String String := do
  let content ← readText t (joinPath workingDir input.path)
  shownLines content input.startLine input.endLine

/-- The text that `replace_lines` writes. -/
def ReplaceLinesInput.newContent (input : ReplaceLinesInput) (content : String) : String :=
  let sep := if (splitOnce ['\r', '\n'] content.toList).isSome then "\r\n" else "\n"
  let lines := Lib.lines content
  let start := min (input.startLine - 1) lines.length
  let stop := max (min input.endLine lines.length) start
  let joined :=
    sep.intercalate (lines.take start ++ Lib.lines input.replacement ++ lines.drop stop)
  if content.toList.getLast? = some '\n' then joined ++ sep else joined

/-- The new text and its confirmation. -/
def ReplaceLinesInput.edit (input : ReplaceLinesInput) (content : String) :
    Except String (String × String) :=
  let new := input.newContent content
  let range := changedRange content.toList new.toList
  let header := s!"Replaced lines {input.startLine}-{input.endLine} in '{input.path}'."
  .ok (new, match numberedWindow new range.1 range.2 with
    | some window => s!"{header}\n\n{window}"
    | none => header)

def replaceLines (t : Tree) (workingDir : String) (input : ReplaceLinesInput) :
    Tree × Except String String :=
  editText t (joinPath workingDir input.path) input.edit

/-! ## What is to hold -/

variable {t : Tree} {workingDir content result : String} {input : ReplaceLinesInput}

/-- The range is one of lines of the file. -/
structure ReplaceLinesInput.Within (input : ReplaceLinesInput) (content : String) : Prop where
  start : 1 ≤ input.startLine
  ascending : input.startLine ≤ input.endLine
  stop : input.endLine ≤ (lines content).length

/-- The lines outside the range keep their bytes and their endings. -/
def ReplaceLinesInput.KeepsOthers (input : ReplaceLinesInput) (content result : String) : Prop :=
  ∃ mid, pieces result.toList = (pieces content.toList).take (input.startLine - 1) ++ mid ++
    (pieces content.toList).drop input.endLine

/-- Only the lines of the range are changed, the final line feed is there if it was, and what was
read there changes nothing. -/
structure ReplaceLinesInput.Exact (input : ReplaceLinesInput) (content result : String) : Prop where
  others : input.KeepsOthers content result
  newline : EndsInNewline result ↔ EndsInNewline content
  reread : shownLines content (some input.startLine) (some input.endLine) = .ok input.replacement →
    result = content

def ReplaceLinesInput.after (input : ReplaceLinesInput) (content : String) : List String :=
  (lines content).take (input.startLine - 1) ++ lines input.replacement ++
    (lines content).drop input.endLine

/-- The endings that `n` lines of the file get. -/
def joinedEndings (content : String) (n : ℕ) : List Ending :=
  sharedEndings (separatorOf content) (decide (EndsInNewline content)) n

/-- The lines outside the range have the endings that they get. -/
def ReplaceLinesInput.FitsOthers (input : ReplaceLinesInput) (content : String) : Prop :=
  let joined := joinedEndings content (input.after content).length
  joined.take (input.startLine - 1) = (endings content).take (input.startLine - 1) ∧
    joined.drop (input.startLine - 1 + (lines input.replacement).length) =
      (endings content).drop input.endLine

/-- Without a final line feed the last line is not blank, unless it alone replaces all lines. -/
def ReplaceLinesInput.FitsLast (input : ReplaceLinesInput) (content : String) : Prop :=
  ¬ EndsInNewline content → (input.after content).getLast? = some "" →
    input.after content = [""] ∧ input.startLine - 1 = 0 ∧
      input.endLine = (lines content).length

def ReplaceLinesInput.selected (input : ReplaceLinesInput) (content : String) : List String :=
  ((lines content).take input.endLine).drop (input.startLine - 1)

/-- What was read is split into the lines it was joined from, and all lines have the separator. -/
def ReplaceLinesInput.FitsSelected (input : ReplaceLinesInput) (content : String) : Prop :=
  lines input.replacement = input.selected content ∧
    endings content = joinedEndings content (lines content).length ∨ lines content = [""]

/-- Joining the lines with one separator gives them the endings they have. -/
structure ReplaceLinesInput.Fits (input : ReplaceLinesInput) (content : String) : Prop where
  others : input.FitsOthers content
  last : input.FitsLast content
  reread : shownLines content (some input.startLine) (some input.endLine) = .ok input.replacement →
    input.FitsSelected content

/-! ## The file that is written -/

def ReplaceLinesInput.joined (input : ReplaceLinesInput) (content : String) : String :=
  joinLines (input.after content) (joinedEndings content (input.after content).length)

theorem after_length (h : input.Within content) : (input.after content).length =
    input.startLine - 1 + (lines input.replacement).length +
      ((lines content).length - input.endLine) := by
  obtain ⟨hs, hse, he⟩ := h
  simp only [ReplaceLinesInput.after, List.length_append, List.length_take, List.length_drop]
  omega

theorem newContent_eq (h : input.Within content) : input.newContent content =
    if EndsInNewline content ∧ input.after content = [] then (separatorOf content).text
    else input.joined content := by
  obtain ⟨hs, hse, he⟩ := h
  have hstart : min (input.startLine - 1) (lines content).length = input.startLine - 1 := by omega
  have hstop : max (min input.endLine (lines content).length) (input.startLine - 1) =
      input.endLine := by
    omega
  have hsep : (if (splitOnce ['\r', '\n'] content.toList).isSome then "\r\n" else "\n") =
      (separatorOf content).text := read_separator
  unfold ReplaceLinesInput.newContent
  simp only [hstart, hstop, hsep]
  rw [ReplaceLinesInput.joined, joinedEndings, ← render_eq]
  unfold ReplaceLinesInput.after TextFile.render
  generalize (lines content).take (input.startLine - 1) ++ lines input.replacement ++
    (lines content).drop input.endLine = ls
  by_cases hn : EndsInNewline content
  · rw [if_pos (show content.toList.getLast? = some '\n' from hn)]
    cases ls with
    | nil => simp [hn]
    | cons l ls => simp [hn]
  · rw [if_neg (show ¬ content.toList.getLast? = some '\n' from hn)]
    simp [hn]

theorem after_lines (content : String) (input : ReplaceLinesInput) :
    ∀ line ∈ input.after content, '\n' ∉ line.toList := by
  have hlines := newline_notMem_lines content
  refine List.forall_mem_append.mpr ⟨List.forall_mem_append.mpr ⟨fun l hl => ?_, ?_⟩,
    fun l hl => ?_⟩
  · exact hlines l (List.mem_of_mem_take hl)
  · exact newline_notMem_lines input.replacement
  · exact hlines l (List.mem_of_mem_drop hl)

theorem pieces_joinedLines
    (h : EndsInNewline content ∨ (input.after content).getLast? ≠ some "") :
    pieces (input.joined content).toList = List.zipWith block (input.after content)
      (joinedEndings content (input.after content).length) :=
  pieces_shared separatorOf_ne_bare (after_lines content input) (h.imp_left decide_eq_true)

theorem pieces_length (content : String) :
    (pieces content.toList).length = (lines content).length := by
  rw [pieces_text, List.length_zipWith, endings_length, Nat.min_self]

theorem keepsOthers_iff (h : input.Within content)
    (hlast : EndsInNewline content ∨ (input.after content).getLast? ≠ some "") :
    input.KeepsOthers content (input.joined content) ↔ input.FitsOthers content := by
  have hafter := after_length h
  obtain ⟨hs, hse, he⟩ := h
  have hsh : (joinedEndings content (input.after content).length).length =
      (input.after content).length := sharedEndings_length
  have hes := endings_length content
  have hstart : ((pieces content.toList).take (input.startLine - 1)).length =
      input.startLine - 1 := by
    rw [List.length_take, pieces_length]
    omega
  have hfront : ((lines content).take (input.startLine - 1)).length = input.startLine - 1 := by
    rw [List.length_take]
    omega
  have hbefore : (input.after content).take (input.startLine - 1) =
      (lines content).take (input.startLine - 1) := by
    rw [ReplaceLinesInput.after, List.append_assoc, List.take_left' hfront]
  have hbehind : (input.after content).drop
      (input.startLine - 1 + (lines input.replacement).length) =
      (lines content).drop input.endLine :=
    List.drop_left' (by rw [List.length_append, hfront])
  rw [ReplaceLinesInput.KeepsOthers, pieces_joinedLines hlast,
    framed_iff (p := (lines input.replacement).length), hstart, pieces_text]
  · simp only [List.take_zipWith, List.drop_zipWith, hbefore, hbehind]
    refine and_congr ⟨fun h => ?_, fun h => by rw [h]⟩ ⟨fun h => ?_, fun h => by rw [h]⟩
    · refine blocks_inj ?_ ?_ h <;> simp only [List.length_take] <;> omega
    · refine blocks_inj ?_ ?_ h <;> simp only [List.length_drop] <;> omega
  · rw [hstart, List.length_zipWith, List.length_drop, pieces_length]
    omega

theorem newline_joined_iff (hne : ¬ (EndsInNewline content ∧ input.after content = [])) :
    (EndsInNewline (input.joined content) ↔ EndsInNewline content) ↔
    (¬ EndsInNewline content → (input.after content).getLast? = some "" →
      input.after content = [""]) := by
  rw [ReplaceLinesInput.joined, joinedEndings, newline_iff]
  by_cases hn : EndsInNewline content
  · rw [if_pos hn]
    exact iff_of_true (fun h => hne ⟨hn, h⟩) fun h => absurd hn h
  · rw [if_neg hn]
    refine ⟨fun h _ hlast => ?_, fun h last hlast => ⟨?_, ?_⟩⟩
    · obtain ⟨l, hl⟩ := List.length_eq_one_iff.mp ((h "" hlast).2 rfl)
      rw [hl] at hlast
      obtain rfl : l = "" := Option.some.inj hlast
      exact hl
    · intro hend
      exact after_lines content input last (List.mem_of_getLast? hlast)
        (List.mem_of_getLast? hend)
    · rintro rfl
      rw [h hn hlast]
      rfl

theorem keeps_all (hs : input.startLine - 1 = 0) (he : input.endLine = (lines content).length)
    (result : String) : input.KeepsOthers content result ∧ input.FitsOthers content := by
  refine ⟨⟨pieces result.toList, ?_⟩, ?_, ?_⟩
  · rw [hs, he, List.drop_of_length_le (pieces_length content).le]
    exact (List.append_nil _).symm
  · rw [hs]
    rfl
  · rw [he, List.drop_of_length_le (endings_length content).le, List.drop_of_length_le]
    rw [joinedEndings, sharedEndings_length, ReplaceLinesInput.after, hs, he, List.drop_length,
      List.append_nil]
    exact (Nat.zero_add _).ge

theorem joined_blank (hn : ¬ EndsInNewline content) (hone : input.after content = [""]) :
    input.joined content = "" := by
  rw [ReplaceLinesInput.joined, hone]
  exact (shared_eq_empty separatorOf_ne_bare).mpr ⟨decide_eq_false hn, rfl, rfl⟩

theorem kept_iff (h : input.Within content) :
    (input.KeepsOthers content (input.newContent content) ∧
      (EndsInNewline (input.newContent content) ↔ EndsInNewline content)) ↔
    input.FitsOthers content ∧ input.FitsLast content := by
  have hlen := after_length h
  obtain ⟨hs, hse, he⟩ := id h
  by_cases hall : EndsInNewline content ∧ input.after content = []
  · -- nothing is left but one separator
    rw [newContent_eq h, if_pos hall]
    rw [hall.2, List.length_nil] at hlen
    have hstart : input.startLine - 1 = 0 := by omega
    have hend : input.endLine = (lines content).length := by omega
    obtain ⟨hkeeps, hfits⟩ := keeps_all hstart hend (separatorOf content).text
    refine iff_of_true ⟨hkeeps, iff_of_true ?_ hall.1⟩ ⟨hfits, fun hn => absurd hall.1 hn⟩
    have hsep := endsInNewline_text (@separatorOf_ne_bare content) ""
    rwa [String.empty_append] at hsep
  · rw [newContent_eq h, if_neg hall, newline_joined_iff hall]
    by_cases hlast : EndsInNewline content ∨ (input.after content).getLast? ≠ some ""
    · rw [keepsOthers_iff h hlast]
      have hfree : ∀ p : Prop, ¬ EndsInNewline content →
          (input.after content).getLast? = some "" → p :=
        fun p hn hblank => (not_or.mpr ⟨hn, not_not.mpr hblank⟩ hlast).elim
      exact and_congr_right fun _ => iff_of_true (hfree _) (hfree _)
    · obtain ⟨hn, hblank⟩ := not_or.mp hlast
      have hblank := not_not.mp hblank
      constructor
      · -- of a file that becomes empty, no other line is kept
        rintro ⟨⟨mid, hmid⟩, hone⟩
        have hone := hone hn hblank
        rw [joined_blank hn hone] at hmid
        have hx := congrArg List.length hmid
        have hzero : (lines "").length = 0 := rfl
        simp only [List.length_append, List.length_take, List.length_drop, pieces_length] at hx
        have hstart : input.startLine - 1 = 0 := by omega
        have hend : input.endLine = (lines content).length := by omega
        exact ⟨(keeps_all hstart hend "").2, fun _ _ => ⟨hone, hstart, hend⟩⟩
      · rintro ⟨-, hall⟩
        obtain ⟨hone, hstart, hend⟩ := hall hn hblank
        exact ⟨(keeps_all hstart hend _).1, fun _ _ => hone⟩

/-! ## Writing back what was read -/

/-- A line that lost a carriage return is not the one that was read. -/
theorem strip_eq {line : String} {e e' : Ending}
    (hcr : e = .lf → line.toList.getLast? ≠ some '\r')
    (h : block (String.ofList (stripReturn line.toList)) e' = block line e) :
    String.ofList (stripReturn line.toList) = line := by
  unfold stripReturn at h ⊢
  split_ifs at h ⊢ with hr
  · exfalso
    have hline : line = String.ofList line.toList.dropLast ++ "\r" := by
      rw [← String.toList_inj, String.toList_append, String.toList_ofList]
      exact (List.dropLast_append_getLast? '\r' hr).symm
    have htext : e'.text = "\r" ++ e.text := by
      have hboth := String.toList_inj.mp h
      conv_rhs at hboth => rw [hline, String.append_assoc]
      exact (String.append_right_inj _).mp hboth
    cases e with
    | lf => exact hcr rfl hr
    | bare | crlf => cases e' <;> exact absurd htext (by decide)
  · exact String.ofList_toList

theorem lines_shown {ls : List String} {es es' : List Ending}
    (hls : ∀ line ∈ ls, '\n' ∉ line.toList)
    (hcr : ∀ p ∈ ls.zip es, p.2 = .lf → p.1.toList.getLast? ≠ some '\r')
    (hlen : es.length = ls.length) (hlen' : es'.length = (lines ("\n".intercalate ls)).length)
    (h : List.zipWith block (lines ("\n".intercalate ls)) es' = List.zipWith block ls es) :
    lines ("\n".intercalate ls) = ls := by
  induction ls generalizing es es' with
  | nil => rfl
  | cons l ls ih =>
    obtain ⟨hl, hmore⟩ := List.forall_mem_cons.mp hls
    cases es with
    | nil => cases hlen
    | cons e es =>
      cases ls with
      | nil =>
        rw [String.intercalate_singleton, lines_one hl] at h ⊢
        split_ifs at h ⊢
        · cases h
        · rfl
      | cons l' ls =>
        rw [String.intercalate_cons_cons, lines_more hl] at h hlen' ⊢
        cases es' with
        | nil => cases hlen'
        | cons e' es' =>
          obtain ⟨hhead, htail⟩ := List.cons_eq_cons.mp h
          obtain ⟨hone, hrest⟩ := List.forall_mem_cons.mp hcr
          rw [strip_eq hone hhead, ih hmore hrest (Nat.succ.inj hlen) (Nat.succ.inj hlen') htail]

theorem selected_text (h : input.Within content) :
    shownLines content (some input.startLine) (some input.endLine) =
      .ok ("\n".intercalate (input.selected content)) := by
  obtain ⟨hs, hse, he⟩ := h
  have hstart : min (input.startLine - 1) (lines content).length = input.startLine - 1 := by omega
  simp only [shownLines, ReplaceLinesInput.selected, if_neg (Nat.not_lt.mpr hse),
    Nat.min_eq_left he, hstart]

theorem after_selected (h : input.Within content)
    (hput : lines input.replacement = input.selected content) :
    input.after content = lines content := by
  have hse := h.ascending
  have htake : (lines content).take (input.startLine - 1) =
      ((lines content).take input.endLine).take (input.startLine - 1) := by
    rw [List.take_take, Nat.min_eq_left (by omega)]
  rw [ReplaceLinesInput.after, hput, ReplaceLinesInput.selected, htake, List.take_append_drop,
    List.take_append_drop]

/-- A file with the same pieces has the same lines in the range. -/
theorem selected_of_pieces (h : input.Within content)
    (hshown : "\n".intercalate (input.selected content) = input.replacement)
    (hpieces : List.zipWith block (input.after content)
      (joinedEndings content (input.after content).length) =
        List.zipWith block (lines content) (endings content)) :
    lines input.replacement = input.selected content := by
  have hparts := after_length h
  obtain ⟨hs, hse, he⟩ := h
  have hes := endings_length content
  have hsh : (joinedEndings content (input.after content).length).length =
      (input.after content).length := sharedEndings_length
  have hlen := congrArg List.length hpieces
  simp only [List.length_zipWith] at hlen
  have hfront : ((lines content).take (input.startLine - 1)).length = input.startLine - 1 := by
    rw [List.length_take]
    omega
  have hnew : ((input.after content).drop (input.startLine - 1)).take
      (lines input.replacement).length = lines input.replacement := by
    rw [ReplaceLinesInput.after, List.append_assoc, List.drop_left' hfront, List.take_left]
  have hold : ((lines content).drop (input.startLine - 1)).take
      (lines input.replacement).length = input.selected content := by
    rw [ReplaceLinesInput.selected, List.drop_take]
    congr 1
    omega
  have hmid := congrArg (fun l => (l.drop (input.startLine - 1)).take
    (lines input.replacement).length) hpieces
  simp only [List.drop_zipWith, List.take_zipWith, hnew, hold] at hmid
  rw [← hshown] at hmid ⊢
  refine lines_shown (fun l hl => ?_) (fun p hp => ?_) ?_ ?_ hmid
  · exact newline_notMem_lines content l (List.mem_of_mem_take (List.mem_of_mem_drop hl))
  · rw [hshown, ← hold, List.zip, ← List.take_zipWith, ← List.drop_zipWith] at hp
    exact (line_of_ending content p (List.mem_of_mem_drop (List.mem_of_mem_take hp))).2
  · rw [hshown, ← hold]
    simp only [List.length_take, List.length_drop, hes]
  · rw [List.length_take, List.length_drop, hsh, hshown]
    omega

/-- What was read and written back is what was there. -/
theorem reread_iff (h : input.Within content)
    (hshown : "\n".intercalate (input.selected content) = input.replacement) :
    input.newContent content = content ↔ input.FitsSelected content := by
  obtain ⟨hs, hse, he⟩ := id h
  rw [newContent_eq h]
  constructor
  · intro heq
    split_ifs at heq with hall
    · right
      rw [← heq]
      cases hsep : separatorOf content <;> first | exact absurd hsep separatorOf_ne_bare | decide
    · left
      have hlast : EndsInNewline content ∨ (input.after content).getLast? ≠ some "" := by
        by_contra hnot
        obtain ⟨hn, hblank⟩ := not_or.mp hnot
        have hone := (newline_joined_iff hall).mp (by rw [heq]) hn (not_not.mp hblank)
        rw [← heq, joined_blank hn hone] at he
        exact absurd (hs.trans (hse.trans he)) (by decide)
      have hpieces := pieces_joinedLines hlast
      rw [heq, pieces_text] at hpieces
      have hput := selected_of_pieces h hshown hpieces.symm
      rw [after_selected h hput] at hpieces
      exact ⟨hput, blocks_inj (endings_length content) sharedEndings_length hpieces⟩
  · rintro (⟨hput, hendings⟩ | hblank)
    · rw [ReplaceLinesInput.joined, after_selected h hput, if_neg, ← hendings, joinLines_endings]
      rintro ⟨-, hnil⟩
      rw [hnil, List.length_nil] at he
      omega
    · have hlen := endings_length content
      rw [hblank] at hlen he
      have hend : input.endLine = 1 := Nat.le_antisymm he (hs.trans hse)
      have hstart : input.startLine - 1 = 0 := by omega
      obtain ⟨e, hes⟩ := List.length_eq_one_iff.mp hlen
      have htext : content = e.text := by
        rw [← joinLines_endings content, hblank, hes]
        exact String.append_empty.trans String.empty_append
      have hput : lines input.replacement = [] := by
        rw [← hshown, ReplaceLinesInput.selected, hblank, hend, hstart]
        decide
      have hnil : input.after content = [] := by
        rw [ReplaceLinesInput.after, hput, hblank, hend, hstart]
        rfl
      rw [htext] at hblank hnil ⊢
      cases e with
      | bare => cases hblank
      | lf | crlf => rw [if_pos ⟨by decide, hnil⟩]; decide

/-! ## Exact edits -/

/-- An edit by line numbers is carried out, and is exact where the separator fits. -/
theorem replaced_exactly_iff
    (hfound : found t (joinPath workingDir input.path) = some (.file (.text content)))
    (hin : input.Within content) :
    (∃ t' shown result, replaceLines t workingDir input = (t', .ok shown) ∧
      found t' (joinPath workingDir input.path) = some (.file (.text result)) ∧
      input.Exact content result) ↔ input.Fits content := by
  obtain ⟨t', hdone, hthere⟩ := editText_done hfound (show input.edit content = _ from rfl)
  have hreread : (shownLines content (some input.startLine) (some input.endLine) =
      .ok input.replacement → input.newContent content = content) ↔
      (shownLines content (some input.startLine) (some input.endLine) = .ok input.replacement →
        input.FitsSelected content) := by
    refine forall_congr' fun hshown => reread_iff hin ?_
    exact Except.ok.inj ((selected_text hin).symm.trans hshown)
  constructor
  · rintro ⟨t'', shown, result, hrun, hfile, hothers, hnewline, hback⟩
    obtain rfl : t' = t'' := (Prod.mk.inj (hdone.symm.trans hrun)).1
    rw [hthere] at hfile
    cases hfile
    obtain ⟨hfits, hlast⟩ := (kept_iff hin).mp ⟨hothers, hnewline⟩
    exact ⟨hfits, hlast, hreread.mp hback⟩
  · rintro ⟨hfits, hlast, hback⟩
    obtain ⟨hothers, hnewline⟩ := (kept_iff hin).mpr ⟨hfits, hlast⟩
    exact ⟨t', _, _, hdone, hthere, hothers, hnewline, hreread.mpr hback⟩

/-- The first of two lines is replaced. -/
theorem replaced_exactly_first : ∃ t' shown result,
    replaceLines exampleTree "/w" ⟨"a", 1, 1, "X"⟩ = (t', .ok shown) ∧
    found t' (joinPath "/w" "a") = some (.file (.text result)) ∧
    ReplaceLinesInput.Exact ⟨"a", 1, 1, "X"⟩ "1\n2\n" result :=
  (replaced_exactly_iff (by decide +kernel) ⟨by decide, by decide, by decide +kernel⟩).mpr
    ⟨⟨by decide +kernel, by decide +kernel⟩, fun h => absurd (by decide +kernel) h,
      fun h => absurd h (by decide +kernel)⟩

/-- The lines after the one that is replaced get another ending. -/
theorem others_converted : ¬ ∀ (t : Tree) (workingDir content : String) (input : ReplaceLinesInput),
    found t (joinPath workingDir input.path) = some (.file (.text content)) →
    input.Within content → ∃ t' shown result,
      replaceLines t workingDir input = (t', .ok shown) ∧
      found t' (joinPath workingDir input.path) = some (.file (.text result)) ∧
      input.Exact content result := by
  intro hall
  obtain ⟨t', shown, result, hrun, hthere, ⟨mid, hmid⟩, -, -⟩ :=
    hall mixedTree "/w" "1\r\n2\n3\n" ⟨"a", 1, 1, "X"⟩ (by decide +kernel)
      ⟨by decide, by decide, by decide +kernel⟩
  have hfile : found (replaceLines mixedTree "/w" ⟨"a", 1, 1, "X"⟩).1 (joinPath "/w" "a") =
      some (.file (.text "X\r\n2\r\n3\r\n")) := by
    decide +kernel
  rw [hrun] at hfile
  cases hthere.symm.trans hfile
  have hpieces : pieces ("1\r\n2\n3\n" : String).toList =
      [['1', '\r', '\n'], ['2', '\n'], ['3', '\n']] := by
    decide +kernel
  have hlast := congrArg List.getLast? hmid
  rw [hpieces, List.getLast?_append_of_ne_nil _ (by decide)] at hlast
  exact absurd hlast (by decide +kernel)

end Horsie.Tools
