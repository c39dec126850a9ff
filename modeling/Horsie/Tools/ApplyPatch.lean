import Horsie.Lib.FileTree
import Horsie.Tools.Patch

/-!
# Applying a patch

Every section of a patch is checked against the files as they are before the patch, and planned;
then the planned writes, deletes and moves are carried out one after another. Nothing is touched
before all is planned. Sections are kept apart by the spelling of their paths only: two that meet in
one file, or one in the directory of another, were planned against a tree that the first of them
has changed.
-/

namespace Horsie.Tools

open Horsie.Lib

/-- What is in a file: text where it is valid UTF-8, bytes otherwise. -/
inductive Content
  | text (content : String)
  | binary (bytes : List UInt8)
deriving DecidableEq

abbrev Tree := FileTree Content

/-! ## Paths -/

/-- `root.join(path)`. -/
def joinPath (root path : String) : String :=
  if "/".toList.isPrefixOf path.toList then path
  else if "/".toList.isSuffixOf root.toList then root ++ path
  else root ++ "/" ++ path

def pathSegments : List Char → List (List Char)
  | [] => [[]]
  | c :: cs => if c = '/' then [] :: pathSegments cs else (pathSegments cs).modifyHead (c :: ·)

/-- An absolute path as the operating system reads it. -/
def toPath (path : String) : Path :=
  let segments := (pathSegments path.toList).map String.ofList
  { components := (segments.filter fun s => decide (s ≠ "") && decide (s ≠ ".")).map fun s =>
      if s = ".." then .up else .name s
    dirOnly := decide (segments.getLast? = some "") || decide (segments.getLast? = some ".") }

def parentDisplay (path : String) : String :=
  let rest := ((path.toList.reverse.dropWhile (· = '/')).dropWhile (· ≠ '/')).dropWhile (· = '/')
  if rest.isEmpty then "/" else String.ofList rest.reverse

/-- What is at a path, if anything: `exists` and `is_file` ask this only. -/
def found (t : Tree) (path : String) : Option (Node Content) := (t.lookup (toPath path)).toOption

def isFile (t : Tree) (path : String) : Bool :=
  match found t path with
  | some (.file _) => true
  | _ => false

/-! ## Text files and hunks -/

structure TextFile where
  lines : List String
  separator : String
  trailingNewline : Bool
deriving DecidableEq

namespace TextFile

def read (content : String) : TextFile where
  lines := Lib.lines content
  separator := if (splitOnce ['\r', '\n'] content.toList).isSome then "\r\n" else "\n"
  trailingNewline := content.toList.getLast? = some '\n'

def render (file : TextFile) : String :=
  let content := file.separator.intercalate file.lines
  if file.trailingNewline && !file.lines.isEmpty then content ++ file.separator else content

/-- Where `window` occurs among the lines. -/
def windows (lines window : List String) : List ℕ :=
  (List.range (lines.length + 1 - window.length)).filter fun i =>
    decide ((lines.drop i).take window.length = window)

def applyHunk (file : TextFile) (hunk : Hunk) (path : String) (number : ℕ) :
    Except String (TextFile × ℕ × ℕ × Bool) :=
  let old := hunk.lines.filterMap fun
    | .context value | .remove value => some value
    | .add _ => none
  let new := hunk.lines.filterMap fun
    | .context value | .add value => some value
    | .remove _ => none
  match windows file.lines old with
  | [] =>
    if new.isEmpty then .error s!"{path}: hunk {number} did not match" else
    match windows file.lines new with
    | [start] => .ok (file, start + 1, start + max new.length 1, true)
    | [] => .error s!"{path}: hunk {number} did not match"
    | many => .error (s!"{path}: hunk {number} already-applied form matched {many.length} " ++
      "locations; include more context")
  | [start] =>
    .ok ({ file with
        lines := file.lines.take start ++ new ++ file.lines.drop (start + old.length) },
      start + 1, start + max new.length 1, false)
  | many => .error s!"{path}: hunk {number} matched {many.length} locations; include more context"

end TextFile

/-! ## The plan -/

inductive PlannedContent
  | write (content : String)
  | delete
  | move (dst : String)
  | none
deriving DecidableEq

structure PlannedFile where
  path : String
  shownPath : String
  kind : Char
  content : PlannedContent
  ranges : List (ℕ × ℕ)
  note : Option String
deriving DecidableEq

/-- The hunks of an update in turn: the file they leave, their ranges and how many were applied
already. `number` is that of the first. -/
def applyHunks (path : String) (file : TextFile) (number : ℕ) :
    List Hunk → Except String (TextFile × List (ℕ × ℕ) × ℕ)
  | [] => .ok (file, [], 0)
  | hunk :: hunks =>
    if hunk.lines.all fun | .context _ => true | _ => false then do
      let (file, ranges, already) ← applyHunks path file (number + 1) hunks
      return (file, ranges, already + 1)
    else do
      let (file, first, last, wasApplied) ← file.applyHunk hunk path number
      let (file, ranges, already) ← applyHunks path file (number + 1) hunks
      return if wasApplied then (file, ranges, already + 1)
        else (file, (first, last) :: ranges, already)

def addedContent (lines : List String) : String := "\n".intercalate lines ++ "\n"

/-- The plan of one section, checked against the tree `t`. -/
def planFile (t : Tree) (root : String) (file : FilePatch) : Except String PlannedFile :=
  let path := joinPath root file.path
  match file with
  | .update shown hunks =>
    match found t path with
    | some (.file (.text content)) => do
      let (file, ranges, already) ← applyHunks shown (.read content) 1 hunks
      return { path, shownPath := shown, ranges
               kind := if ranges.isEmpty then '=' else 'M'
               content := if ranges.isEmpty then .none else .write file.render
               note := if 0 < already then some s!"{already} hunk(s) already applied" else none }
    | some (.file (.binary _)) =>
      .error s!"failed to read '{path}': stream did not contain valid UTF-8"
    | _ => .error s!"cannot update '{shown}': file does not exist"
  | .add shown lines =>
    let content := addedContent lines
    let already := decide (found t path = some (.file (.text content)))
    if (found t path).isSome && !already then
      .error s!"cannot add '{shown}': path already exists"
    else .ok
      { path, shownPath := shown
        kind := if already then '=' else 'A'
        content := if already then .none else .write content
        ranges := if already then [] else [(1, lines.length)]
        note := if already then some "already applied" else none }
  | .delete shown =>
    let already := (found t path).isNone
    if (found t path).isSome && !isFile t path then .error s!"cannot delete '{shown}': not a file"
    else .ok
      { path, shownPath := shown
        kind := if already then '=' else 'D'
        content := if already then .none else .delete
        ranges := []
        note := if already then some "already applied" else none }
  | .move src dst =>
    let destination := joinPath root dst
    if (found t path).isNone && isFile t destination then .ok
      { path, shownPath := s!"{src} -> {dst}", kind := '=', content := .none, ranges := []
        note := some "already applied" }
    else if !isFile t path then .error s!"cannot move '{src}': source file does not exist"
    else if (found t destination).isSome then
      .error s!"cannot move to '{dst}': destination already exists"
    else .ok
      { path, shownPath := s!"{src} -> {dst}", kind := 'R', content := .move destination
        ranges := [], note := none }

def planAll (t : Tree) (root : String) (patch : List FilePatch) :
    Except String (List PlannedFile) :=
  patch.mapM (planFile t root)

/-! ## The execution -/

/-- `create_dir_all` of a path's directory. -/
def createParent (t : Tree) (path : String) : Tree × Except String Unit :=
  if (toPath path).components.isEmpty then (t, .ok ()) else
  match t.makeDirs [] (toPath path).components.dropLast with
  | (t, .ok _) => (t, .ok ())
  | (t, .error e) =>
    (t, .error s!"failed to create directory '{parentDisplay path}': {e.message}")

/-- The tree after an operation, or as it was and why. -/
def outcome (t : Tree) (failed : String) (r : Except OsError Tree) : Tree × Except String Unit :=
  match r with
  | .ok t' => (t', .ok ())
  | .error e => (t, .error (failed ++ ": " ++ e.message))

def runFile (t : Tree) (file : PlannedFile) : Tree × Except String Unit :=
  match file.content with
  | .write content =>
    let made := if file.kind = 'A' then createParent t file.path else (t, .ok ())
    match made with
    | (t, .error e) => (t, .error e)
    | (t, .ok ()) =>
      outcome t s!"failed to write '{file.path}'" (t.write (toPath file.path) (.text content))
  | .delete => outcome t s!"failed to delete '{file.path}'" (t.removeFile (toPath file.path))
  | .move dst =>
    match createParent t dst with
    | (t, .error e) => (t, .error e)
    | (t, .ok ()) =>
      outcome t s!"failed to move '{file.path}' to '{dst}'"
        (t.rename (toPath file.path) (toPath dst))
  | .none => (t, .ok ())

def execute (t : Tree) : List PlannedFile → Tree × Except String Unit
  | [] => (t, .ok ())
  | file :: files =>
    match runFile t file with
    | (t, .error e) => (t, .error e)
    | (t, .ok ()) => execute t files

def showFile (file : PlannedFile) : String :=
  let ranges := file.ranges.map fun (first, last) =>
    if first = last then toString first else s!"{first}-{last}"
  s!"\n{file.kind} {file.shownPath}" ++
    (if ranges.isEmpty then "" else s!" (lines " ++ ", ".intercalate ranges ++ ")") ++
    (match file.note with
      | some note => s!" — {note}"
      | none => "")

/-- Plan, then carry out. -/
def apply (t : Tree) (root : String) (patch : List FilePatch) : Tree × Except String String :=
  match planAll t root patch with
  | .error reason => (t, .error reason)
  | .ok planned =>
    match execute t planned with
    | (t, .error reason) => (t, .error reason)
    | (t, .ok ()) =>
      (t, .ok (s!"Applied patch to {planned.length} file(s)." ++
        String.join (planned.map showFile)))

/-- The tool: the files it leaves, and its output or the reason it failed. -/
def exec (t : Tree) (workingDir patch : String) : Tree × Except String String :=
  if maxPatchBytes < patch.utf8ByteSize then
    (t, .error s!"patch is {patch.utf8ByteSize} bytes; the maximum is {maxPatchBytes}")
  else
    match parsePatch patch with
    | .error reason => (t, .error reason)
    | .ok parsed => apply t workingDir parsed

/-! ## Section by section -/

def applyOne (t : Tree) (root : String) (file : FilePatch) : Option Tree :=
  match planFile t root file with
  | .error _ => none
  | .ok planned =>
    match runFile t planned with
    | (_, .error _) => none
    | (t, .ok ()) => some t

/-- The sections applied one after another, each to the tree the ones before it left. -/
def applyEach (t : Tree) (root : String) (patch : List FilePatch) : Option Tree :=
  patch.foldlM (fun t file => applyOne t root file) t

/-- A patch that is refused, by its syntax, a hunk's context or a precondition, changes no file; and
one whose plan is accepted is carried out to its end, and leaves what its sections leave applied one
after another. -/
def PatchAtomic (t : Tree) (root patch : String) : Prop :=
  (maxPatchBytes < patch.utf8ByteSize → ∃ reason, exec t root patch = (t, .error reason)) ∧
  (∀ reason, parsePatch patch = .error reason →
    ∃ reason', exec t root patch = (t, .error reason')) ∧
  ∀ sections, parsePatch patch = .ok sections →
    (∀ reason, planAll t root sections = .error reason →
      ∃ reason', exec t root patch = (t, .error reason')) ∧
    ∀ planned, planAll t root sections = .ok planned →
      ∃ t', execute t planned = (t', .ok ()) ∧ applyEach t root sections = some t'

/-- The two trees show a section the same: the text it changes, and what its paths lead to. -/
def SameSight (t t' : Tree) (root : String) : FilePatch → Prop
  | .update path _ | .add path _ =>
    found t (joinPath root path) = found t' (joinPath root path)
  | .delete path =>
    (found t (joinPath root path)).isSome = (found t' (joinPath root path)).isSome ∧
      isFile t (joinPath root path) = isFile t' (joinPath root path)
  | .move src dst =>
    (found t (joinPath root src)).isSome = (found t' (joinPath root src)).isSome ∧
      isFile t (joinPath root src) = isFile t' (joinPath root src) ∧
      (found t (joinPath root dst)).isSome = (found t' (joinPath root dst)).isSome ∧
      isFile t (joinPath root dst) = isFile t' (joinPath root dst)

/-- There is room for the file that a section adds or moves: its path names a file, and neither a
file nor a directory is in the way. -/
def HasRoom (t : Tree) (root : String) : FilePatch → Prop
  | .update _ _ | .delete _ => True
  | .add path _ =>
    found t (joinPath root path) = none → t.canPlace (toPath (joinPath root path)) = true
  | .move src dst =>
    (found t (joinPath root src)).isSome → t.canPlace (toPath (joinPath root dst)) = true

/-- Every section finds, in the tree the sections before it left, what it would have found in the
tree `t₀` before the patch, and room for what it adds or moves. -/
def Undisturbed (t₀ : Tree) (root : String) (t : Tree) : List FilePatch → Prop
  | [] => True
  | file :: files =>
    SameSight t₀ t root file ∧ HasRoom t root file ∧
      ∀ t', applyOne t root file = some t' → Undisturbed t₀ root t' files

variable {t t' t₀ : Tree} {root : String} {file : FilePatch} {planned : PlannedFile}

theorem isNone_congr {a b : Option (Node Content)} (h : a.isSome = b.isSome) :
    a.isNone = b.isNone := by
  rw [← Option.not_isSome, ← Option.not_isSome, h]

theorem planFile_congr (h : SameSight t t' root file) :
    planFile t root file = planFile t' root file := by
  cases file with
  | update path hunks =>
    replace h : found t (joinPath root path) = found t' (joinPath root path) := h
    unfold planFile
    simp only [FilePatch.path]
    rw [h]
  | add path lines =>
    replace h : found t (joinPath root path) = found t' (joinPath root path) := h
    have halready : decide (found t (joinPath root path)
          = some (.file (.text (addedContent lines))))
        = decide (found t' (joinPath root path) = some (.file (.text (addedContent lines)))) :=
      decide_eq_decide.mpr (by rw [h])
    unfold planFile
    dsimp only [FilePatch.path]
    rw [halready, h]
  | delete path =>
    obtain ⟨hsome, hfile⟩ := h
    unfold planFile
    dsimp only [FilePatch.path]
    rw [isNone_congr hsome, hsome, hfile]
  | move src dst =>
    obtain ⟨hsome, hfile, hsome', hfile'⟩ := h
    unfold planFile
    dsimp only [FilePatch.path]
    rw [isNone_congr hsome, hsome', hfile, hfile']

variable {path : String}

theorem lookup_of_found {node : Node Content} (h : found t path = some node) :
    t.lookup (toPath path) = .ok node := by
  unfold found at h
  cases hl : t.lookup (toPath path) with
  | error e => simp [hl, Except.toOption] at h
  | ok node' => simpa [hl, Except.toOption] using h

theorem found_of_isFile (h : isFile t path = true) :
    ∃ content, found t path = some (.file content) := by
  unfold isFile at h
  split at h
  · exact ⟨_, ‹_›⟩
  · cases h

theorem createParent_eq {t₁ : Tree} {q : Place}
    (hroom : t.canPlace (toPath path) = true)
    (h : t.makeDirs [] (toPath path).components.dropLast = (t₁, .ok q)) :
    createParent t path = (t₁, .ok ()) := by
  obtain ⟨n, -, -, hcs, -⟩ := FileTree.canPlace_iff.mp hroom
  have hne : (toPath path).components.isEmpty = false := by
    rw [hcs]
    simp
  unfold createParent
  simp only [hne, Bool.false_eq_true, if_false, h]

theorem runFile_ok (hplan : planFile t root file = .ok planned) (hroom : HasRoom t root file) :
    ∃ t', runFile t planned = (t', .ok ()) := by
  have hnone : ∀ {planned : PlannedFile}, planned.content = .none →
      ∃ t', runFile t planned = (t', .ok ()) := by
    intro planned hc
    refine ⟨t, ?_⟩
    unfold runFile
    rw [hc]
  unfold planFile at hplan
  cases file with
  | update path hunks =>
    dsimp only [FilePatch.path] at hplan
    split at hplan
    · rename_i content hfound
      cases hhunks : applyHunks path (.read content) 1 hunks with
      | error e => simp [hhunks, bind, Except.bind] at hplan
      | ok result =>
        obtain ⟨file, ranges, already⟩ := result
        simp only [hhunks, bind, Except.bind, pure, Except.pure, Except.ok.injEq] at hplan
        subst hplan
        by_cases hempty : ranges.isEmpty
        · exact hnone (if_pos hempty)
        · obtain ⟨t', ht'⟩ := FileTree.write_of_file (lookup_of_found hfound) (.text file.render)
          refine ⟨t', ?_⟩
          unfold runFile
          simp [hempty, outcome, ht']
    · cases hplan
    · cases hplan
  | add path lines =>
    dsimp only [FilePatch.path] at hplan
    by_cases halready : found t (joinPath root path) = some (.file (.text (addedContent lines)))
    · rw [decide_eq_true halready, Bool.not_true, Bool.and_false,
        if_neg Bool.false_ne_true, Except.ok.injEq] at hplan
      subst hplan
      exact hnone rfl
    · rw [decide_eq_false halready, Bool.not_false, Bool.and_true] at hplan
      by_cases hexists : (found t (joinPath root path)).isSome = true
      · rw [if_pos hexists] at hplan
        cases hplan
      · rw [if_neg hexists, Except.ok.injEq] at hplan
        subst hplan
        have hcan := hroom (by simpa using hexists)
        obtain ⟨t₁, q, t₂, hmake, hwrite⟩ :=
          FileTree.write_of_canPlace hcan (.text (addedContent lines))
        refine ⟨t₂, ?_⟩
        unfold runFile
        simp only [Bool.false_eq_true, if_false, if_true, createParent_eq hcan hmake, outcome,
          hwrite]
  | delete path =>
    dsimp only [FilePatch.path] at hplan
    rw [← Option.not_isSome] at hplan
    by_cases hexists : (found t (joinPath root path)).isSome = true
    · by_cases hfile : isFile t (joinPath root path) = true
      · simp only [hexists, hfile, Bool.not_true, Bool.and_false, Bool.false_eq_true, if_false,
          Except.ok.injEq] at hplan
        subst hplan
        obtain ⟨content, hfound⟩ := found_of_isFile hfile
        obtain ⟨t', ht'⟩ := FileTree.removeFile_of_file (lookup_of_found hfound)
        refine ⟨t', ?_⟩
        unfold runFile
        simp only [outcome, ht']
      · simp [hexists, hfile] at hplan
    · simp only [hexists, Bool.not_false, Bool.false_and, Bool.false_eq_true, if_false, if_true,
        Except.ok.injEq] at hplan
      subst hplan
      exact hnone rfl
  | move src dst =>
    dsimp only [FilePatch.path] at hplan
    split_ifs at hplan with halready hsource hdestination
    · rw [Except.ok.injEq] at hplan
      subst hplan
      exact hnone rfl
    · rw [Except.ok.injEq] at hplan
      subst hplan
      obtain ⟨content, hfound⟩ := found_of_isFile (by simpa using hsource)
      have hcan := hroom (by rw [hfound]; rfl)
      obtain ⟨t₁, q, t₂, hmake, hrename⟩ :=
        FileTree.rename_of_canPlace (lookup_of_found hfound) hcan
      refine ⟨t₂, ?_⟩
      unfold runFile
      simp only [createParent_eq hcan hmake, outcome, hrename]

/-- Undisturbed sections: the plan is carried out to its end, and each of its steps is what the
section does applied to the tree it finds. -/
theorem execute_of_undisturbed {patch : List FilePatch} {plan : List PlannedFile}
    (hplan : planAll t₀ root patch = .ok plan) (h : Undisturbed t₀ root t patch) :
    ∃ t', execute t plan = (t', .ok ()) ∧ applyEach t root patch = some t' := by
  induction patch generalizing t plan with
  | nil =>
    obtain rfl : [] = plan := Except.ok.inj hplan
    exact ⟨t, rfl, rfl⟩
  | cons file files ih =>
    obtain ⟨hsight, hroom, hrest⟩ := h
    unfold planAll at hplan
    rw [List.mapM_cons] at hplan
    cases hfile : planFile t₀ root file with
    | error e => simp [hfile, bind, Except.bind] at hplan
    | ok planned =>
      cases hfiles : files.mapM (planFile t₀ root) with
      | error e => simp [hfile, hfiles, bind, Except.bind] at hplan
      | ok plans =>
        obtain rfl : planned :: plans = plan := by
          simpa [hfile, hfiles, bind, Except.bind, pure, Except.pure] using hplan
        rw [planFile_congr hsight] at hfile
        obtain ⟨t₁, hrun⟩ := runFile_ok hfile hroom
        have hone : applyOne t root file = some t₁ := by
          unfold applyOne
          simp only [hfile, hrun]
        obtain ⟨t', hexec, heach⟩ := ih hfiles (hrest t₁ hone)
        refine ⟨t', ?_, ?_⟩
        · rw [execute, hrun]
          exact hexec
        · unfold applyEach at heach ⊢
          rw [List.foldlM_cons, hone]
          exact heach

/-- The files of the examples: a directory `w` with the one file `a`. -/
def exampleTree : Tree :=
  let made := (FileTree.empty.makeDirs [] [.name "w"]).1
  match made.write (toPath "/w/a") (.text "1\n2\n") with
  | .ok t => t
  | .error _ => made

def twoSpellings : String :=
  "*** Begin Patch\n*** Update File: a\n@@\n-1\n+X\n*** Update File: ./a\n@@\n-2\n+Y\n*** End Patch"

def changeAndAdd : String :=
  "*** Begin Patch\n*** Update File: a\n@@\n-1\n+X\n*** Add File: d/b\n+new\n*** End Patch"

end Horsie.Tools
