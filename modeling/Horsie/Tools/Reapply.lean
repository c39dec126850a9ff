import Horsie.Tools.Hunks

/-!
# Applying a patch again

A patch that was applied is told to be applied by the marks it leaves: an added file by its content,
a deleted or moved one by what is where, and a hunk by its new form standing in one place and its
old form in none. A hunk that only deletes leaves no mark, and the form of another may stand
elsewhere too: where a mark is missing, the second application fails or goes on to change the file.
-/

namespace Horsie.Tools

variable {t t' : Tree} {root patch : String} {file : FilePatch} {sections : List FilePatch}
  {planned : PlannedFile}

/-- What a patch that was carried out says. -/
def report (planned : List PlannedFile) : String :=
  s!"Applied patch to {planned.length} file(s)." ++ String.join (planned.map showFile)

/-- A patch finds all of its sections applied, says so and changes nothing. -/
def Reapplied (t : Tree) (root patch : String) : Prop :=
  ∃ sections planned, parsePatch patch = .ok sections ∧ planAll t root sections = .ok planned ∧
    (∀ p ∈ planned, p.kind = '=') ∧ exec t root patch = (t, .ok (report planned))

/-- The marks of a section in a tree: the hunks of an update are of context, or stand in the file in
their new form, once, and not in their old one. -/
def Marked (t : Tree) (root : String) : FilePatch → Prop
  | .update path hunks => ∃ content, found t (joinPath root path) = some (.file (.text content)) ∧
      ∀ hunk ∈ hunks, hunk.contextOnly = true ∨ hunk.AppliedTo (Lib.lines content)
  | .add path lines =>
    found t (joinPath root path) = some (.file (.text (addedContent lines)))
  | .delete path => found t (joinPath root path) = none
  | .move src dst =>
    found t (joinPath root src) = none ∧ isFile t (joinPath root dst) = true

/-! ## Sections -/

theorem content_of_planFile (h : planFile t root file = .ok planned) (hk : planned.kind = '=') :
    planned.content = .none := by
  unfold planFile at h
  cases file with
  | update path hunks =>
    dsimp only [FilePatch.path] at h
    split at h
    · rename_i content _
      cases hr : applyHunks path (.read content) 1 hunks with
      | error e => simp [hr, bind, Except.bind] at h
      | ok r =>
        obtain ⟨f, ranges, n⟩ := r
        simp only [hr, bind, Except.bind, pure, Except.pure, Except.ok.injEq] at h
        subst h
        cases ranges with
        | nil => rfl
        | cons => cases hk
    · cases h
    · cases h
  | add path lines =>
    dsimp only [FilePatch.path] at h
    split at h
    · cases h
    · cases h
      dsimp only at hk ⊢
      split at hk
      · rename_i halready
        rw [if_pos halready]
      · cases hk
  | delete path =>
    dsimp only [FilePatch.path] at h
    split at h
    · cases h
    · cases h
      dsimp only at hk ⊢
      split at hk
      · rename_i halready
        rw [if_pos halready]
      · cases hk
  | move src dst =>
    dsimp only [FilePatch.path] at h
    split_ifs at h
    · cases h
      rfl
    · cases h
      cases hk

/-- A section finds itself applied exactly where the tree has its marks. -/
theorem planFile_applied_iff :
    (∃ planned, planFile t root file = .ok planned ∧ planned.kind = '=') ↔ Marked t root file := by
  cases file with
  | update path hunks =>
    unfold Marked planFile
    dsimp only [FilePatch.path]
    split
    · rename_i content hfound
      have hall : (∃ file' n, applyHunks path (.read content) 1 hunks = .ok (file', [], n)) ↔
          ∀ hunk ∈ hunks, hunk.contextOnly = true ∨ hunk.AppliedTo (Lib.lines content) :=
        applyHunks_unchanged
      simp only [hfound, Option.some_inj, Lib.Node.file.injEq, Content.text.injEq,
        exists_eq_left', ← hall]
      cases hr : applyHunks path (.read content) 1 hunks with
      | error e => simp [bind, Except.bind]
      | ok r =>
        obtain ⟨f, ranges, n⟩ := r
        cases ranges <;> simp [bind, Except.bind, pure, Except.pure]
    · rename_i bytes hfound
      simp [hfound]
    · rename_i hother _
      refine iff_of_false (fun h => ?_) fun h => ?_
      · obtain ⟨p, hp, -⟩ := h
        cases hp
      · obtain ⟨content, hfound, -⟩ := h
        exact hother content hfound
  | add path lines =>
    unfold Marked planFile
    dsimp only [FilePatch.path]
    by_cases halready : found t (joinPath root path) = some (.file (.text (addedContent lines)))
    · rw [decide_eq_true halready]
      simp [halready]
    · rw [decide_eq_false halready]
      refine iff_of_false ?_ halready
      rintro ⟨p, hp, hk⟩
      split at hp
      · cases hp
      · cases hp
        cases hk
  | delete path =>
    unfold Marked planFile
    dsimp only [FilePatch.path]
    cases hf : found t (joinPath root path) with
    | none => simp
    | some node =>
      refine iff_of_false ?_ (by simp)
      rintro ⟨p, hp, hk⟩
      split at hp
      · cases hp
      · cases hp
        cases hk
  | move src dst =>
    unfold Marked planFile
    dsimp only [FilePatch.path]
    by_cases halready : (found t (joinPath root src)).isNone && isFile t (joinPath root dst)
    · rw [if_pos halready]
      rw [Bool.and_eq_true, Option.isNone_iff_eq_none] at halready
      exact iff_of_true ⟨_, rfl, rfl⟩ halready
    · rw [if_neg halready]
      rw [Bool.and_eq_true, Option.isNone_iff_eq_none] at halready
      refine iff_of_false ?_ halready
      rintro ⟨p, hp, hk⟩
      split_ifs at hp
      cases hp
      cases hk

/-! ## Patches -/

theorem planAll_applied_iff :
    (∃ planned, planAll t root sections = .ok planned ∧ ∀ p ∈ planned, p.kind = '=') ↔
      ∀ file ∈ sections, Marked t root file := by
  unfold planAll
  induction sections with
  | nil =>
    exact iff_of_true ⟨[], rfl, fun p hp => absurd hp List.not_mem_nil⟩
      fun file h => absurd h List.not_mem_nil
  | cons file files ih =>
    rw [List.forall_mem_cons, ← ih, ← planFile_applied_iff, List.mapM_cons]
    cases hone : planFile t root file with
    | error e => simp [bind, Except.bind]
    | ok p =>
      cases hrest : files.mapM (planFile t root) with
      | error e => simp [bind, Except.bind]
      | ok ps => simp [bind, Except.bind, pure, Except.pure]

/-- A plan with nothing to carry out leaves the tree as it is. -/
theorem execute_of_none {plan : List PlannedFile} (h : ∀ p ∈ plan, p.content = .none) :
    execute t plan = (t, .ok ()) := by
  induction plan with
  | nil => rfl
  | cons p plan ih =>
    obtain ⟨hp, hplan⟩ := List.forall_mem_cons.mp h
    have hrun : runFile t p = (t, .ok ()) := by
      unfold runFile
      rw [hp]
    rw [execute, hrun]
    exact ih hplan

theorem contents_of_planAll {plan : List PlannedFile} (h : planAll t root sections = .ok plan)
    (hk : ∀ p ∈ plan, p.kind = '=') : ∀ p ∈ plan, p.content = .none := by
  unfold planAll at h
  induction sections generalizing plan with
  | nil =>
    cases h
    exact fun p hp => absurd hp List.not_mem_nil
  | cons file files ih =>
    rw [List.mapM_cons] at h
    cases hone : planFile t root file with
    | error e => simp [hone, bind, Except.bind] at h
    | ok p =>
      cases hrest : files.mapM (planFile t root) with
      | error e => simp [hone, hrest, bind, Except.bind] at h
      | ok ps =>
        obtain rfl : p :: ps = plan := by
          simpa [hone, hrest, bind, Except.bind, pure, Except.pure] using h
        obtain ⟨hp, hps⟩ := List.forall_mem_cons.mp hk
        exact List.forall_mem_cons.mpr ⟨content_of_planFile hone hp, ih hrest hps⟩

def deleteLine : String :=
  "*** Begin Patch\n*** Update File: a\n@@\n-1\n*** End Patch"

end Horsie.Tools
