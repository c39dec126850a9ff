import Horsie.Lib.LineEnding
import Horsie.Lib.Splice
import Horsie.Tools.Hunks

/-!
# What an update changes

An update should change a file where its hunks match and nowhere else. The file is split into lines
and joined again with one separator for all of them, and a final line feed where it had one: a line
that ended otherwise is converted, and what is last in the end decides about the final line feed. A
range is where a hunk was put when it was its turn: the hunks after it may move it.
-/

namespace Horsie.Tools

open Horsie.Lib

variable {t t' : Tree} {root path content result : String} {hunk : Hunk} {hunks : List Hunk}
  {planned : PlannedFile} {lines : List String} {changes : List (Splice String)}
  {ranges : List (ℕ × ℕ)} {trailing : Bool} {sep : Ending} {n k : ℕ}

def Hunk.change (hunk : Hunk) (start : ℕ) : Splice String := ⟨start, hunk.old.length, hunk.new⟩

/-- The changes that hunks make to lines, one after another: every hunk that is not of context
only is put where its old form stands, and one whose old form stands nowhere was put in before. -/
def changesOf (lines : List String) : List Hunk → List (Splice String)
  | [] => []
  | hunk :: hunks =>
    if hunk.contextOnly then changesOf lines hunks else
    match TextFile.windows lines hunk.old with
    | [start] => hunk.change start :: changesOf ((hunk.change start).splice lines) hunks
    | _ => changesOf lines hunks

def linesAfter (content : String) (changes : List (Splice String)) : List String :=
  Splice.spliceAll changes (Lib.lines content)

/-- The ranges say where in the resulting file, of `n` lines, the changes are: the line of a change
that no later one replaces is where its range says. A change that only deletes is where the line
after it is. -/
def Shown (n : ℕ) : List (Splice String) → List (ℕ × ℕ) → Prop
  | [], [] => True
  | change :: changes, (first, last) :: ranges =>
    (1 ≤ first ∧ last ≤ n ∧ last + 1 = first + max change.put.length 1 ∧
      ∀ j < max change.put.length 1, ∀ k ∈ Splice.carryAll changes (change.start + j),
        k + 1 = first + j) ∧
    Shown n changes ranges
  | _, _ => False

/-- The result of an update is the file with the matched lines replaced: the lines outside the
matches keep their endings, the final line feed is there if it was, and the ranges are positions in
the result. -/
structure Updated (content : String) (changes : List (Splice String)) (result : String)
    (ranges : List (ℕ × ℕ)) : Prop where
  bytes : ∃ es, es.length = (linesAfter content changes).length ∧ Ended es ∧
    result = joinLines (linesAfter content changes) es ∧
    ∀ i, ∀ e ∈ (endings content)[i]?, ∀ k ∈ Splice.carryAll changes i, es[k]? = some e
  newline : EndsInNewline result ↔ EndsInNewline content
  ranges : Shown (linesAfter content changes).length changes ranges

def separatorOf (content : String) : Ending :=
  if (splitOnce ['\r', '\n'] content.toList).isSome then .crlf else .lf

/-- Nothing of a change is moved by the changes after it, and its range is in the file. -/
def Unmoved (n : ℕ) : List (Splice String) → Prop
  | [] => True
  | change :: changes =>
    (change.start + max change.put.length 1 ≤ n ∧
      ∀ j < max change.put.length 1, ∀ k ∈ Splice.carryAll changes (change.start + j),
        k = change.start + j) ∧
    Unmoved n changes

/-- Joining the changed lines with one separator is the same as leaving their endings to them, and
no change moves another. -/
structure Uniform (content : String) (changes : List (Splice String)) : Prop where
  /-- A line outside the matches has the ending that a line gets where it is carried. -/
  endings : ∀ i, ∀ e ∈ (endings content)[i]?, ∀ k ∈ Splice.carryAll changes i,
    e = endingAt (separatorOf content) (decide (EndsInNewline content))
      (linesAfter content changes).length k
  /-- Lines are left to a file with a final line feed, and what is last in another does not look
  like one. -/
  newline : if EndsInNewline content then linesAfter content changes ≠ []
    else ∀ last ∈ (linesAfter content changes).getLast?, ¬ EndsInNewline last ∧
      (last = "" → (linesAfter content changes).length = 1)
  ranges : Unmoved (linesAfter content changes).length changes

/-! ## The file that is written -/

theorem separatorOf_ne_bare : separatorOf content ≠ .bare := by
  unfold separatorOf
  split <;> exact Ending.noConfusion

theorem read_separator : (TextFile.read content).separator = (separatorOf content).text := by
  unfold TextFile.read separatorOf
  split <;> rfl

theorem render_eq : TextFile.render ⟨lines, sep.text, trailing⟩ =
    joinLines lines (sharedEndings sep trailing lines.length) := by
  induction lines with
  | nil => cases trailing <;> rfl
  | cons line lines ih =>
    cases lines with
    | nil => cases trailing <;>
      simp [TextFile.render, sharedEndings, endingAt, joinLines, Ending.text]
    | cons line' lines =>
      have hcons : TextFile.render ⟨line :: line' :: lines, sep.text, trailing⟩ =
          line ++ sep.text ++ TextFile.render ⟨line' :: lines, sep.text, trailing⟩ := by
        unfold TextFile.render
        simp only [List.isEmpty_cons, Bool.not_false, Bool.and_true,
          String.intercalate_cons_cons]
        split <;> simp only [String.append_assoc]
      rw [hcons, ih]
      show _ = joinLines _ (sharedEndings sep trailing (lines.length + 2))
      rw [sharedEndings_cons]
      rfl

def rangeOf (change : Splice String) : ℕ × ℕ :=
  (change.start + 1, change.start + max change.put.length 1)

theorem windows_fit {window : List String} {start : ℕ}
    (h : TextFile.windows lines window = [start]) : start + window.length ≤ lines.length := by
  have hmem : start ∈ TextFile.windows lines window := by
    rw [h]
    exact List.mem_singleton_self start
  have hlt := List.mem_range.mp (List.mem_filter.mp hmem).1
  omega

theorem applyHunks_changes {file file' : TextFile} {path : String} {number already : ℕ}
    (h : applyHunks path file number hunks = .ok (file', ranges, already)) :
    file' = { file with lines := Splice.spliceAll (changesOf file.lines hunks) file.lines } ∧
      ranges = (changesOf file.lines hunks).map rangeOf ∧
      Splice.FitAll (changesOf file.lines hunks) file.lines := by
  induction hunks generalizing file number ranges already with
  | nil =>
    obtain ⟨rfl, rfl, rfl⟩ : file = file' ∧ [] = ranges ∧ 0 = already := by
      simpa [applyHunks] using h
    exact ⟨rfl, rfl, trivial⟩
  | cons hunk hunks ih =>
    unfold changesOf
    cases hc : hunk.contextOnly with
    | true =>
      obtain ⟨n, hrest, -⟩ := (applyHunks_context hc).mp h
      exact ih hrest
    | false =>
      rcases (applyHunks_change hc).mp h with
        ⟨start, rest, hw, hrest, rfl⟩ | ⟨n, ⟨hw, -⟩, hrest, -⟩
      · obtain ⟨hfile, rfl, hfit⟩ := ih hrest
        simp only [Bool.false_eq_true, if_false, hw]
        exact ⟨hfile, rfl, windows_fit hw, hfit⟩
      · simp only [Bool.false_eq_true, if_false, hw]
        exact ih hrest

theorem shown_iff : Shown n changes (changes.map rangeOf) ↔ Unmoved n changes := by
  induction changes with
  | nil => exact Iff.rfl
  | cons change changes ih =>
    refine and_congr ?_ ih
    constructor
    · rintro ⟨-, hlast, -, hlines⟩
      refine ⟨hlast, fun j hj k hk => ?_⟩
      have hshown := hlines j hj k hk
      omega
    · rintro ⟨hlast, hlines⟩
      refine ⟨Nat.le_add_left 1 _, hlast, by omega, fun j hj k hk => ?_⟩
      have hshown := hlines j hj k hk
      omega

theorem newline_iff : (EndsInNewline (joinLines lines (sharedEndings (separatorOf content)
    (decide (EndsInNewline content)) lines.length)) ↔ EndsInNewline content) ↔
    if EndsInNewline content then lines ≠ []
    else ∀ last ∈ lines.getLast?, ¬ EndsInNewline last ∧ (last = "" → lines.length = 1) := by
  rw [endsInNewline_shared separatorOf_ne_bare]
  by_cases h : EndsInNewline content
  · simp [h]
  · simp only [h, decide_false, Bool.false_eq_true, if_false, iff_false, not_exists, not_and,
      not_or, not_not]

/-- The lines with the endings of the separator are the file with its matched lines replaced exactly
where the changes are uniform. -/
theorem updated_shared_iff (hfit : Splice.FitAll changes (Lib.lines content)) :
    Updated content changes (joinLines (linesAfter content changes)
      (sharedEndings (separatorOf content) (decide (EndsInNewline content))
        (linesAfter content changes).length)) (changes.map rangeOf) ↔ Uniform content changes := by
  have hkept : ∀ i, ∀ e ∈ (endings content)[i]?, ∀ k ∈ Splice.carryAll changes i,
      k < (linesAfter content changes).length := by
    intro i e he k hk
    have hi : i < (Lib.lines content).length := by
      rw [← endings_length]
      exact (List.getElem?_eq_some_iff.mp he).1
    have hget : (linesAfter content changes)[k]? = (Lib.lines content)[i]? :=
      Splice.spliceAll_carryAll hfit hk
    rw [List.getElem?_eq_getElem hi] at hget
    exact (List.getElem?_eq_some_iff.mp hget).1
  constructor
  · rintro ⟨⟨es, hlen, hes, hjoin, hown⟩, hn, hr⟩
    obtain rfl := joinLines_inj sharedEndings_length hlen
      (sharedEndings_ended separatorOf_ne_bare) hes hjoin
    refine ⟨fun i e he k hk => ?_, newline_iff.mp hn, shown_iff.mp hr⟩
    have hget := hown i e he k hk
    rw [sharedEndings_get (hkept i e he k hk)] at hget
    exact (Option.some.inj hget).symm
  · rintro ⟨hown, hn, hr⟩
    refine ⟨⟨_, sharedEndings_length, sharedEndings_ended separatorOf_ne_bare, rfl, ?_⟩,
      newline_iff.mpr hn, shown_iff.mpr hr⟩
    intro i e he k hk
    rw [sharedEndings_get (hkept i e he k hk), hown i e he k hk]

theorem updated_nil : Updated content [] content [] := by
  refine ⟨⟨endings content, endings_length content, endings_ended content, ?_, ?_⟩, Iff.rfl,
    trivial⟩
  · exact (joinLines_endings content).symm
  · intro i e he k hk
    obtain rfl : i = k := Option.some.inj hk
    exact he

theorem write_of_runFile (hcontent : planned.content = .write content) (hkind : planned.kind ≠ 'A')
    (h : runFile t planned = (t', .ok ())) :
    t.write (toPath planned.path) (.text content) = .ok t' := by
  unfold runFile at h
  rw [hcontent] at h
  simp only [hkind, if_false, outcome] at h
  cases hw : t.write (toPath planned.path) (.text content) with
  | error e => simp [hw] at h
  | ok t₁ =>
    rw [hw] at h
    rw [(Prod.mk.inj h).1]

/-- An update that was carried out changed only what its hunks matched exactly where there was
nothing to put in, or the changes are uniform. -/
theorem updated_iff (hfound : found t (joinPath root path) = some (.file (.text content)))
    (hplan : planFile t root (.update path hunks) = .ok planned)
    (hrun : runFile t planned = (t', .ok ())) :
    (∃ result, found t' (joinPath root path) = some (.file (.text result)) ∧
      Updated content (changesOf (Lib.lines content) hunks) result planned.ranges) ↔
    changesOf (Lib.lines content) hunks = [] ∨
      Uniform content (changesOf (Lib.lines content) hunks) := by
  unfold planFile at hplan
  dsimp only [FilePatch.path] at hplan
  rw [hfound] at hplan
  cases hhunks : applyHunks path (.read content) 1 hunks with
  | error e => simp [hhunks, bind, Except.bind] at hplan
  | ok r =>
    obtain ⟨file, ranges, already⟩ := r
    obtain ⟨rfl, rfl, hfit⟩ := applyHunks_changes hhunks
    simp only [hhunks, bind, Except.bind, pure, Except.pure, Except.ok.injEq] at hplan
    subst hplan
    have hlines : (TextFile.read content).lines = Lib.lines content := rfl
    rw [hlines] at hfit hrun
    rw [hlines]
    generalize hchanges : changesOf (Lib.lines content) hunks = changes at hfit hrun
    cases changes with
    | nil =>
      obtain rfl : t = t' := (Prod.mk.inj hrun).1
      exact iff_of_true ⟨content, hfound, updated_nil⟩ (.inl rfl)
    | cons change changes =>
      have hfile : TextFile.render { TextFile.read content with
          lines := Splice.spliceAll (change :: changes) (Lib.lines content) } =
          joinLines (linesAfter content (change :: changes)) (sharedEndings (separatorOf content)
            (decide (EndsInNewline content)) (linesAfter content (change :: changes)).length) := by
        rw [← render_eq, ← read_separator]
        rfl
      have hwrite := write_of_runFile rfl (show 'M' ≠ 'A' by decide) hrun
      rw [hfile] at hwrite
      have hthere : found t' (joinPath root path) = some (.file (.text
          (joinLines (linesAfter content (change :: changes)) (sharedEndings (separatorOf content)
            (decide (EndsInNewline content))
            (linesAfter content (change :: changes)).length)))) := by
        unfold found
        rw [FileTree.lookup_of_write (lookup_of_found hfound) hwrite]
        rfl
      rw [or_iff_right (List.cons_ne_nil _ _), ← updated_shared_iff hfit, hthere]
      constructor
      · rintro ⟨result, hresult, hupdated⟩
        cases hresult
        exact hupdated
      · exact fun hupdated => ⟨_, rfl, hupdated⟩

def replaceFirst : List Hunk := [⟨[.remove "1", .add "X"]⟩]

theorem updated_replaceFirst : ∃ t',
    runFile exampleTree ⟨"/w/a", "a", 'M', .write "X\n2\n", [(1, 1)], none⟩ = (t', .ok ()) ∧
    ∃ result, found t' (joinPath "/w" "a") = some (.file (.text result)) ∧
      Updated "1\n2\n" (changesOf (Lib.lines "1\n2\n") replaceFirst) result [(1, 1)] := by
  have hfound : found exampleTree (joinPath "/w" "a") = some (.file (.text "1\n2\n")) := by
    decide +kernel
  have hplan : planFile exampleTree "/w" (.update "a" replaceFirst) =
      .ok ⟨"/w/a", "a", 'M', .write "X\n2\n", [(1, 1)], none⟩ := by
    decide +kernel
  have hdone : (runFile exampleTree ⟨"/w/a", "a", 'M', .write "X\n2\n", [(1, 1)], none⟩).2 =
      .ok () := by
    decide +kernel
  refine ⟨_, Prod.ext rfl hdone, (updated_iff hfound hplan (Prod.ext rfl hdone)).mpr (.inr ?_)⟩
  have hchanges : changesOf (Lib.lines "1\n2\n") replaceFirst = [⟨0, 1, ["X"]⟩] := by
    decide +kernel
  have hendings : endings "1\n2\n" = [.lf, .lf] := by
    decide +kernel
  rw [hchanges]
  refine ⟨fun i e he k hk => ?_, by decide +kernel, ⟨by decide +kernel, ?_⟩, trivial⟩
  · rw [hendings] at he
    cases i with
    | zero => cases hk
    | succ i =>
      cases i with
      | zero =>
        cases he
        cases hk
        decide +kernel
      | succ i => cases he
  · intro j hj k hk
    exact (Option.some.inj hk).symm

/-- A file with two kinds of line endings. -/
def mixedTree : Tree :=
  match exampleTree.write (toPath "/w/a") (.text "1\r\n2\n3\n") with
  | .ok t => t
  | .error _ => exampleTree

/-- The lines after the one that is replaced are converted. -/
theorem endings_converted : ¬ ∀ t root path hunks content planned t',
    found t (joinPath root path) = some (.file (.text content)) →
    planFile t root (.update path hunks) = .ok planned → runFile t planned = (t', .ok ()) →
    ∃ result, found t' (joinPath root path) = some (.file (.text result)) ∧
      Updated content (changesOf (Lib.lines content) hunks) result planned.ranges := by
  intro h
  have hfound : found mixedTree (joinPath "/w" "a") = some (.file (.text "1\r\n2\n3\n")) := by
    decide +kernel
  have hchanges : changesOf (Lib.lines "1\r\n2\n3\n") replaceFirst = [⟨0, 1, ["X"]⟩] := by
    decide +kernel
  obtain ⟨planned, hplan, hwritten, hthere⟩ : ∃ planned,
      planFile mixedTree "/w" (.update "a" replaceFirst) = .ok planned ∧
      (runFile mixedTree planned).2 = .ok () ∧
      found (runFile mixedTree planned).1 "/w/a" = some (.file (.text "X\r\n2\r\n3\r\n")) :=
    ⟨⟨"/w/a", "a", 'M', .write "X\r\n2\r\n3\r\n", [(1, 1)], none⟩, by decide +kernel,
      by decide +kernel, by decide +kernel⟩
  obtain ⟨result, hresult, hupdated⟩ := h mixedTree "/w" "a" replaceFirst "1\r\n2\n3\n" planned
    (runFile mixedTree planned).1 hfound hplan (Prod.ext rfl hwritten)
  have hjoin : joinPath "/w" "a" = "/w/a" := by decide +kernel
  rw [hjoin, hthere] at hresult
  cases hresult
  rw [hchanges] at hupdated
  obtain ⟨es, hlen, hes, hbytes, hown⟩ := hupdated.bytes
  have hendings : endings "1\r\n2\n3\n" = [.crlf, .lf, .lf] := by
    decide +kernel
  have hsecond : es[1]? = some .lf := hown 1 .lf (by rw [hendings]; rfl) 1 rfl
  obtain ⟨e, e₁, e', rfl⟩ := List.length_eq_three.mp (hlen.trans (by decide +kernel))
  obtain rfl : e₁ = .lf := Option.some.inj hsecond
  revert hbytes
  cases e <;> cases e' <;> decide +kernel

end Horsie.Tools
