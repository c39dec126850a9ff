import Horsie.Lib.LineEnding
import Mathlib.Data.List.Infix

/-!
# The pieces of a text

A text cut after every line feed: its lines with the bytes that end them. The pieces of a text are
those of its start and those of the rest wherever the start ends with a line feed, and lines joined
with endings have the lines with their endings as pieces.
-/

namespace Horsie.Lib

variable {cs rest : List Char}

/-- The text in pieces, each up to its line feed. -/
def pieces : List Char → List (List Char)
  | [] => []
  | c :: cs =>
    if c = '\n' then [c] :: pieces cs
    else match pieces cs with
      | [] => [[c]]
      | piece :: more => (c :: piece) :: more

theorem pieces_newline : pieces ('\n' :: cs) = ['\n'] :: pieces cs := by
  rw [pieces, if_pos rfl]

theorem pieces_line (h : '\n' ∉ cs) :
    pieces (cs ++ '\n' :: rest) = (cs ++ ['\n']) :: pieces rest := by
  induction cs with
  | nil => exact pieces_newline
  | cons c cs ih =>
    obtain ⟨hc, hcs⟩ := not_or.mp (List.mem_cons.not.mp h)
    show pieces (c :: (cs ++ '\n' :: rest)) = _
    rw [pieces, if_neg (Ne.symm hc), ih hcs]
    rfl

theorem pieces_last (h : '\n' ∉ cs) : pieces cs = if cs = [] then [] else [cs] := by
  induction cs with
  | nil => rfl
  | cons c cs ih =>
    obtain ⟨hc, hcs⟩ := not_or.mp (List.mem_cons.not.mp h)
    rw [pieces, if_neg (Ne.symm hc), ih hcs, if_neg (List.cons_ne_nil c cs)]
    cases cs <;> rfl

theorem framed_iff {α : Type} {z x y : List α} {p : ℕ} (hlen : z.length = x.length + p + y.length) :
    (∃ mid, z = x ++ mid ++ y) ↔ z.take x.length = x ∧ z.drop (x.length + p) = y := by
  constructor
  · rintro ⟨mid, rfl⟩
    obtain rfl : mid.length = p := by
      simp only [List.length_append] at hlen
      omega
    rw [← List.length_append, List.drop_left, List.append_assoc, List.take_left]
    exact ⟨rfl, rfl⟩
  · rintro ⟨hx, hy⟩
    refine ⟨(z.drop x.length).take p, ?_⟩
    rw [List.append_assoc, ← hy, ← List.drop_drop, List.take_append_drop]
    conv_rhs => rw [← hx]
    rw [List.length_take_of_le (by omega), List.take_append_drop]

/-! ## Lines with their endings -/

variable {ls : List String} {es es' : List Ending}

def block (line : String) (e : Ending) : List Char := (line ++ e.text).toList

theorem block_inj {line : String} {e e' : Ending} (h : block line e = block line e') : e = e' :=
  ending_text_inj ((String.append_right_inj line).mp (String.toList_inj.mp h))

theorem blocks_inj (hlen : es.length = ls.length) (hlen' : es'.length = ls.length)
    (h : List.zipWith block ls es = List.zipWith block ls es') : es = es' := by
  induction ls generalizing es es' with
  | nil => rw [List.length_eq_zero_iff.mp hlen, List.length_eq_zero_iff.mp hlen']
  | cons l ls ih =>
    cases es with
    | nil => cases hlen
    | cons e es =>
      cases es' with
      | nil => cases hlen'
      | cons e' es' =>
        obtain ⟨he, hes⟩ := List.cons_eq_cons.mp h
        rw [block_inj he, ih (Nat.succ.inj hlen) (Nat.succ.inj hlen') hes]

theorem newline_notMem_segments (cs : List Char) : ∀ part ∈ segments cs, '\n' ∉ part := by
  induction cs with
  | nil => simp [segments]
  | cons c cs ih =>
    unfold segments
    split_ifs with hc
    · exact List.forall_mem_cons.mpr ⟨List.not_mem_nil, ih⟩
    · cases h : segments cs with
      | nil => exact fun _ hp => absurd hp List.not_mem_nil
      | cons part parts =>
        rw [h] at ih
        obtain ⟨hpart, hparts⟩ := List.forall_mem_cons.mp ih
        refine List.forall_mem_cons.mpr ⟨?_, hparts⟩
        exact List.mem_cons.not.mpr (not_or.mpr ⟨Ne.symm hc, hpart⟩)

theorem newline_notMem_lines (s : String) : ∀ line ∈ lines s, '\n' ∉ line.toList := by
  obtain ⟨parts, last, hsegments, -⟩ := segments_split s.toList
  have hnone := newline_notMem_segments s.toList
  rw [hsegments] at hnone
  obtain ⟨hparts, hlast⟩ := List.forall_mem_append.mp hnone
  rw [lines_of_segments hsegments]
  refine List.forall_mem_append.mpr ⟨fun line hline => ?_, fun line hline => ?_⟩
  · obtain ⟨stripped, hs, rfl⟩ := List.mem_map.mp hline
    obtain ⟨part, hp, rfl⟩ := List.mem_map.mp hs
    rw [String.toList_ofList]
    intro hmem
    refine hparts part hp ?_
    unfold stripReturn at hmem
    split_ifs at hmem
    · exact List.dropLast_subset _ hmem
    · exact hmem
  · split_ifs at hline
    · cases hline
    · rw [List.mem_singleton.mp hline, String.toList_ofList]
      exact hlast last (List.mem_singleton_self _)

/-- Joined lines have the lines with their endings as pieces, up to an empty last line without an
ending, which is none. -/
theorem pieces_joined (hlines : ∀ line ∈ ls, '\n' ∉ line.toList) (hlen : es.length = ls.length)
    (hes : Ended es) :
    pieces (joinLines ls es).toList = (List.zipWith block ls es).filter (· ≠ []) := by
  induction ls generalizing es with
  | nil =>
    rw [List.length_eq_zero_iff.mp hlen]
    rfl
  | cons l ls ih =>
    cases es with
    | nil => cases hlen
    | cons e es =>
      obtain ⟨hl, hls⟩ := List.forall_mem_cons.mp hlines
      have hlen' : es.length = ls.length := Nat.succ.inj hlen
      have hes' : Ended es := by
        cases es with
        | nil => exact fun e he => absurd he List.not_mem_nil
        | cons e' es =>
          rw [Ended, List.dropLast_cons_of_ne_nil (List.cons_ne_nil _ _)] at hes
          exact (List.forall_mem_cons.mp hes).2
      show pieces (l ++ e.text ++ joinLines ls es).toList = _
      rw [List.zipWith_cons_cons, List.filter_cons, String.toList_append]
      cases e with
      | bare =>
        -- a line without an ending is the last
        obtain rfl : es = [] := by
          by_contra hne
          rw [Ended, List.dropLast_cons_of_ne_nil hne] at hes
          exact (List.forall_mem_cons.mp hes).1 rfl
        obtain rfl := List.length_eq_zero_iff.mp hlen'.symm
        have hblock : block l .bare = l.toList := congrArg String.toList String.append_empty
        show pieces ((l ++ Ending.bare.text).toList ++ []) = _
        rw [List.append_nil]
        show pieces (block l .bare) = _
        rw [hblock, pieces_last hl]
        by_cases hnil : l.toList = [] <;> simp [hnil]
      | lf =>
        have hcut : (l ++ Ending.lf.text).toList ++ (joinLines ls es).toList =
            l.toList ++ '\n' :: (joinLines ls es).toList := by
          simp [Ending.text]
        rw [hcut, pieces_line hl, ih hls hlen' hes', if_pos (by simp [block, Ending.text])]
        simp [block, Ending.text]
      | crlf =>
        have hcut : (l ++ Ending.crlf.text).toList ++ (joinLines ls es).toList =
            (l.toList ++ ['\r']) ++ '\n' :: (joinLines ls es).toList := by
          simp [Ending.text]
        rw [hcut, pieces_line (by simp [hl]), ih hls hlen' hes',
          if_pos (by simp [block, Ending.text])]
        simp [block, Ending.text]

/-- A line without an ending is not empty, and one before a bare line feed does not end in a
carriage return. -/
theorem line_of_ending (s : String) : ∀ p ∈ (lines s).zip (endings s),
    (p.2 = .bare → p.1 ≠ "") ∧ (p.2 = .lf → p.1.toList.getLast? ≠ some '\r') := by
  obtain ⟨parts, last, hsegments, -⟩ := segments_split s.toList
  rw [lines_of_segments hsegments, endings_of_segments hsegments, List.zip_append (by simp)]
  refine List.forall_mem_append.mpr ⟨fun p hp => ?_, fun p hp => ?_⟩
  · rw [List.map_map, List.zip_map', List.mem_map] at hp
    obtain ⟨part, -, rfl⟩ := hp
    show (endingOf part = .bare → _) ∧
      (endingOf part = .lf → (String.ofList (stripReturn part)).toList.getLast? ≠ _)
    unfold endingOf stripReturn
    split_ifs with hr
    · exact ⟨by rintro ⟨⟩, by rintro ⟨⟩⟩
    · rw [String.toList_ofList]
      exact ⟨by rintro ⟨⟩, fun _ => hr⟩
  · split_ifs at hp with hlast
    · cases hp
    · rw [List.mem_singleton.mp hp]
      refine ⟨fun _ hnil => hlast ?_, Ending.noConfusion⟩
      rw [← String.toList_ofList (l := last), show String.ofList last = "" from hnil]
      rfl

theorem pieces_text (s : String) :
    pieces s.toList = List.zipWith block (lines s) (endings s) := by
  have hjoined := pieces_joined (newline_notMem_lines s) (endings_length s) (endings_ended s)
  rw [joinLines_endings] at hjoined
  rw [hjoined, List.filter_eq_self]
  intro b hb
  rw [← List.map_uncurry_zip_eq_zipWith, List.mem_map] at hb
  obtain ⟨⟨l, e⟩, hp, rfl⟩ := hb
  refine decide_eq_true fun hnil => ?_
  obtain ⟨hl, he⟩ := String.append_eq_empty_iff.mp (String.toList_inj.mp hnil)
  refine (line_of_ending s _ hp).1 ?_ hl
  exact ending_text_inj (show e.text = Ending.bare.text from he)

/-! ## One separator -/

variable {sep : Ending} {trailing : Bool}

theorem block_separator (hsep : sep ≠ .bare) (line : String) : block line sep ≠ [] := by
  intro h
  have hnewline := endsInNewline_text hsep line
  rw [EndsInNewline, show (line ++ sep.text).toList = [] from h] at hnewline
  cases hnewline

theorem blocks_shared (hsep : sep ≠ .bare) (h : trailing = true ∨ ls.getLast? ≠ some "") :
    ∀ b ∈ List.zipWith block ls (sharedEndings sep trailing ls.length), b ≠ [] := by
  induction ls with
  | nil => exact fun b hb => absurd hb List.not_mem_nil
  | cons l ls ih =>
    cases ls with
    | cons l' ls =>
      show ∀ b ∈ List.zipWith block _ (sharedEndings sep trailing (ls.length + 2)), b ≠ []
      rw [sharedEndings_cons, List.zipWith_cons_cons]
      exact List.forall_mem_cons.mpr ⟨block_separator hsep l, ih h⟩
    | nil =>
      refine List.forall_mem_singleton.mpr ?_
      cases trailing with
      | true => exact block_separator hsep l
      | false =>
        intro hnil
        have hl : block l .bare = l.toList := congrArg String.toList String.append_empty
        refine h.resolve_left Bool.false_ne_true (congrArg some ?_)
        exact String.toList_inj.mp (hl.symm.trans hnil)

/-- Lines that are joined with one separator are the pieces, unless the last is empty and has no
ending. -/
theorem pieces_shared (hsep : sep ≠ .bare) (hlines : ∀ line ∈ ls, '\n' ∉ line.toList)
    (h : trailing = true ∨ ls.getLast? ≠ some "") :
    pieces (joinLines ls (sharedEndings sep trailing ls.length)).toList =
      List.zipWith block ls (sharedEndings sep trailing ls.length) := by
  rw [pieces_joined hlines sharedEndings_length (sharedEndings_ended hsep), List.filter_eq_self]
  exact fun b hb => decide_eq_true (blocks_shared hsep h b hb)

/-! ## Lines that are read again -/

theorem segments_line {line rest : List Char} (h : '\n' ∉ line) :
    segments (line ++ '\n' :: rest) = line :: segments rest := by
  induction line with
  | nil => exact if_pos rfl
  | cons c line ih =>
    obtain ⟨hc, hline⟩ := not_or.mp (List.mem_cons.not.mp h)
    show (if c = '\n' then _ else (segments (line ++ '\n' :: rest)).modifyHead (c :: ·)) = _
    rw [if_neg (Ne.symm hc), ih hline]
    rfl

theorem segments_last {line : List Char} (h : '\n' ∉ line) : segments line = [line] := by
  induction line with
  | nil => rfl
  | cons c line ih =>
    obtain ⟨hc, hline⟩ := not_or.mp (List.mem_cons.not.mp h)
    rw [segments, if_neg (Ne.symm hc), ih hline]
    rfl

theorem lines_one {line : String} (h : '\n' ∉ line.toList) :
    lines line = if line = "" then [] else [line] := by
  rw [@lines_of_segments line [] _ (segments_last h), String.ofList_toList]
  exact if_congr (by rw [← String.toList_inj]; rfl) rfl rfl

theorem lines_more {line rest : String} (h : '\n' ∉ line.toList) :
    lines (line ++ "\n" ++ rest) = String.ofList (stripReturn line.toList) :: lines rest := by
  obtain ⟨parts, last, hsegments, -⟩ := segments_split rest.toList
  have hcut : (line ++ "\n" ++ rest).toList = line.toList ++ '\n' :: rest.toList := by
    simp
  have hall : segments (line ++ "\n" ++ rest).toList = (line.toList :: parts) ++ [last] := by
    rw [hcut, segments_line h, hsegments]
    rfl
  rw [lines_of_segments hall, lines_of_segments hsegments]
  rfl

end Horsie.Lib
