import Horsie.Tools.ApplyPatch

/-!
# Hunks

What one hunk and a list of hunks do to the lines of a file. A hunk of context changes nothing. Any
other is put where its old form stands, if that is in one place; where it is in no place, the hunk
counts as applied if its new form is in one.
-/

namespace Horsie.Tools

variable {file file' : TextFile} {hunk : Hunk} {hunks : List Hunk} {path : String}
  {number already : ℕ} {ranges : List (ℕ × ℕ)} {lines : List String}

def Hunk.old (hunk : Hunk) : List String := hunk.lines.filterMap fun
  | .context value | .remove value => some value
  | .add _ => none

def Hunk.new (hunk : Hunk) : List String := hunk.lines.filterMap fun
  | .context value | .add value => some value
  | .remove _ => none

def Hunk.contextOnly (hunk : Hunk) : Bool := hunk.lines.all fun
  | .context _ => true
  | _ => false

/-- The hunk can be told to be applied: its old form is nowhere, and its new form in one place. -/
def Hunk.AppliedTo (hunk : Hunk) (lines : List String) : Prop :=
  TextFile.windows lines hunk.old = [] ∧ hunk.new ≠ [] ∧
    ∃ start, TextFile.windows lines hunk.new = [start]

namespace TextFile

def putIn (file : TextFile) (hunk : Hunk) (start : ℕ) : TextFile :=
  { file with lines :=
      file.lines.take start ++ hunk.new ++ file.lines.drop (start + hunk.old.length) }

theorem applyHunk_eq : file.applyHunk hunk path number =
    match windows file.lines hunk.old with
    | [] =>
      if hunk.new.isEmpty then .error s!"{path}: hunk {number} did not match" else
      match windows file.lines hunk.new with
      | [start] => .ok (file, start + 1, start + max hunk.new.length 1, true)
      | [] => .error s!"{path}: hunk {number} did not match"
      | many => .error (s!"{path}: hunk {number} already-applied form matched {many.length} " ++
        "locations; include more context")
    | [start] => .ok (file.putIn hunk start, start + 1, start + max hunk.new.length 1, false)
    | many =>
      .error s!"{path}: hunk {number} matched {many.length} locations; include more context" := rfl

theorem applyHunk_ok {first last : ℕ} {applied : Bool} :
    file.applyHunk hunk path number = .ok (file', first, last, applied) ↔
      (∃ start, windows file.lines hunk.old = [start] ∧ file' = file.putIn hunk start ∧
        first = start + 1 ∧ last = start + max hunk.new.length 1 ∧ applied = false) ∨
      (∃ start, windows file.lines hunk.old = [] ∧ hunk.new ≠ [] ∧
        windows file.lines hunk.new = [start] ∧ file' = file ∧
        first = start + 1 ∧ last = start + max hunk.new.length 1 ∧ applied = true) := by
  rw [applyHunk_eq]
  cases windows file.lines hunk.old with
  | nil =>
    cases hnew : hunk.new with
    | nil => simp
    | cons line new =>
      simp only [List.isEmpty_cons, Bool.false_eq_true, if_false]
      cases windows file.lines (line :: new) with
      | nil => simp
      | cons start rest =>
        cases rest with
        | nil =>
          simp only [Except.ok.injEq, Prod.mk.injEq, List.cons.injEq, and_true, exists_eq_left',
            true_and, ne_eq, reduceCtorEq, not_false_eq_true, false_and, exists_false, false_or]
          constructor
          · rintro ⟨rfl, rfl, rfl, rfl⟩
            exact ⟨rfl, rfl, rfl, rfl⟩
          · rintro ⟨rfl, rfl, rfl, rfl⟩
            exact ⟨rfl, rfl, rfl, rfl⟩
        | cons => simp
  | cons start rest =>
    cases rest with
    | nil =>
      simp only [Except.ok.injEq, Prod.mk.injEq, List.cons.injEq, and_true, exists_eq_left',
        reduceCtorEq, false_and, exists_false, or_false]
      constructor
      · rintro ⟨rfl, rfl, rfl, rfl⟩
        exact ⟨rfl, rfl, rfl, rfl⟩
      · rintro ⟨rfl, rfl, rfl, rfl⟩
        exact ⟨rfl, rfl, rfl, rfl⟩
    | cons => simp

end TextFile

/-! ## Hunks in turn -/

theorem applyHunks_cons : applyHunks path file number (hunk :: hunks) =
    if hunk.contextOnly then
      (applyHunks path file (number + 1) hunks).bind fun (file, ranges, already) =>
        .ok (file, ranges, already + 1)
    else
      (file.applyHunk hunk path number).bind fun (file, first, last, wasApplied) =>
        (applyHunks path file (number + 1) hunks).bind fun (file, ranges, already) =>
          .ok (if wasApplied then (file, ranges, already + 1)
            else (file, (first, last) :: ranges, already)) := rfl

theorem applyHunks_context (h : hunk.contextOnly = true) :
    applyHunks path file number (hunk :: hunks) = .ok (file', ranges, already) ↔
      ∃ n, applyHunks path file (number + 1) hunks = .ok (file', ranges, n) ∧ already = n + 1 := by
  rw [applyHunks_cons, if_pos h]
  cases applyHunks path file (number + 1) hunks with
  | error e => simp [Except.bind]
  | ok r =>
    obtain ⟨f, rs, n⟩ := r
    simp [Except.bind, and_assoc, eq_comm]

theorem applyHunks_change (h : hunk.contextOnly = false) :
    applyHunks path file number (hunk :: hunks) = .ok (file', ranges, already) ↔
      (∃ start rest, TextFile.windows file.lines hunk.old = [start] ∧
        applyHunks path (file.putIn hunk start) (number + 1) hunks = .ok (file', rest, already) ∧
        ranges = (start + 1, start + max hunk.new.length 1) :: rest) ∨
      (∃ n, hunk.AppliedTo file.lines ∧
        applyHunks path file (number + 1) hunks = .ok (file', ranges, n) ∧ already = n + 1) := by
  have hneg : ¬ hunk.contextOnly = true := by rw [h]; exact Bool.false_ne_true
  rw [applyHunks_cons, if_neg hneg]
  constructor
  · intro hr
    cases hone : file.applyHunk hunk path number with
    | error e =>
      rw [hone] at hr
      cases hr
    | ok r =>
      obtain ⟨f, first, last, applied⟩ := r
      rw [hone] at hr
      cases hrest : applyHunks path f (number + 1) hunks with
      | error e =>
        dsimp only [Except.bind] at hr
        rw [hrest] at hr
        cases hr
      | ok r =>
        obtain ⟨f', rs, n⟩ := r
        dsimp only [Except.bind] at hr
        rw [hrest] at hr
        rcases TextFile.applyHunk_ok.mp hone with
          ⟨start, hw, rfl, rfl, rfl, rfl⟩ | ⟨start, hold, hnew, hw, rfl, rfl, rfl, rfl⟩
        · obtain ⟨rfl, rfl, rfl⟩ : f' = file' ∧ _ = ranges ∧ n = already := by
            simpa using hr
          exact .inl ⟨start, rs, hw, hrest, rfl⟩
        · obtain ⟨rfl, rfl, rfl⟩ : f' = file' ∧ rs = ranges ∧ n + 1 = already := by
            simpa using hr
          exact .inr ⟨n, ⟨hold, hnew, start, hw⟩, hrest, rfl⟩
  · rintro (⟨start, rest, hw, hrest, rfl⟩ | ⟨n, ⟨hold, hnew, start, hw⟩, hrest, rfl⟩)
    · have hone : file.applyHunk hunk path number =
          .ok (file.putIn hunk start, start + 1, start + max hunk.new.length 1, false) :=
        TextFile.applyHunk_ok.mpr (.inl ⟨start, hw, rfl, rfl, rfl, rfl⟩)
      rw [hone]
      dsimp only [Except.bind]
      rw [hrest]
      rfl
    · have hone : file.applyHunk hunk path number =
          .ok (file, start + 1, start + max hunk.new.length 1, true) :=
        TextFile.applyHunk_ok.mpr (.inr ⟨start, hold, hnew, hw, rfl, rfl, rfl, rfl⟩)
      rw [hone]
      dsimp only [Except.bind]
      rw [hrest]
      rfl

/-- Hunks that change nothing are of context, or each can be told to be applied. -/
theorem applyHunks_unchanged : (∃ file' n, applyHunks path file number hunks = .ok (file', [], n)) ↔
    ∀ hunk ∈ hunks, hunk.contextOnly = true ∨ hunk.AppliedTo file.lines := by
  induction hunks generalizing number with
  | nil => exact iff_of_true ⟨file, 0, rfl⟩ fun hunk h => absurd h List.not_mem_nil
  | cons hunk hunks ih =>
    rw [List.forall_mem_cons, ← @ih (number + 1)]
    cases hc : hunk.contextOnly with
    | true =>
      simp only [applyHunks_context hc, true_or, true_and]
      constructor
      · rintro ⟨file', n, m, h, -⟩
        exact ⟨file', m, h⟩
      · rintro ⟨file', m, h⟩
        exact ⟨file', m + 1, m, h, rfl⟩
    | false =>
      simp only [applyHunks_change hc, Bool.false_eq_true, false_or]
      constructor
      · rintro ⟨file', n, ⟨start, rest, -, -, hr⟩ | ⟨m, ha, h, -⟩⟩
        · cases hr
        · exact ⟨ha, file', m, h⟩
      · rintro ⟨ha, file', m, h⟩
        exact ⟨file', m + 1, .inr ⟨m, ha, h, rfl⟩⟩

end Horsie.Tools
