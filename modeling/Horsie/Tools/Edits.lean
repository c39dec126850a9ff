import Horsie.Tools.ApplyPatch

/-!
# Edits of a text file

The tools that edit one file read it whole, work out its new text and write that, and confirm with a
window on what they changed: the lines from the first to the last that differ, with their numbers.
-/

namespace Horsie.Tools

open Horsie.Lib

/-! ## Snippets -/

def contextLines : ℕ := 3
def maxSnippetBytes : ℕ := 1500
def maxSnippetLines : ℕ := 40

def commonLength : List Char → List Char → ℕ
  | a :: as, b :: bs => if a = b then commonLength as bs + 1 else 0
  | _, _ => 0

def commonEnd (old new : List Char) : ℕ :=
  commonLength (old.drop (commonLength old new)).reverse (new.drop (commonLength old new)).reverse

/-- Where the change ends in the new text: a last line feed belongs to the line it ends. -/
def changeStop (old new : List Char) : ℕ :=
  let pos := new.length - commonEnd old new
  if commonLength old new < pos ∧ new[pos - 1]? = some '\n' then pos - 1 else pos

/-- The first and the last line that differ, from 1. -/
def changedRange (old new : List Char) : ℕ × ℕ :=
  let start := (new.take (commonLength old new)).count '\n' + 1
  (start, max ((new.take (changeStop old new)).count '\n' + 1) start)

/-- The numbered lines, up to the size of a snippet. -/
def snippetRows (shown : String) : List (String × ℕ) → String
  | [] => shown
  | (line, i) :: rows =>
    let row := s!"{i + 1}→ {line}\n"
    if maxSnippetBytes < shown.utf8ByteSize + row.utf8ByteSize then
      shown ++ "… (snippet truncated)"
    else snippetRows (shown ++ row) rows

/-- The lines from `first` to `last` with those around them, if there is anything to show. -/
def numberedWindow (content : String) (first last : ℕ) : Option String :=
  let lines := Lib.lines content
  if maxSnippetLines < last - first + 1 ∨ lines.isEmpty then none
  else some (trimEnd (snippetRows ""
    ((lines.zipIdx.take (min (last + contextLines) lines.length)).drop
      (first - (contextLines + 1)))))

def maxListed : ℕ := 10

/-- Line numbers in a message, the first ten of them. -/
def lineList (lines : List ℕ) : String :=
  let shown := ", ".intercalate ((lines.take maxListed).map toString)
  if maxListed < lines.length then s!"{shown}, … ({lines.length - maxListed} more)" else shown

/-! ## Files -/

variable {t : Tree} {path content new shown reason : String}
  {edit : String → Except String (String × String)}

/-- `read_to_string`. -/
def readText (t : Tree) (path : String) : Except String String :=
  match t.lookup (toPath path) with
  | .error e => .error e.message
  | .ok .dir => .error OsError.isADirectory.message
  | .ok (.file (.binary _)) => .error "stream did not contain valid UTF-8"
  | .ok (.file (.text content)) => .ok content

/-- An edit of a file: its new text and what is said of it, or why it is refused. -/
def editText (t : Tree) (path : String) (edit : String → Except String (String × String)) :
    Tree × Except String String :=
  match readText t path with
  | .error reason => (t, .error reason)
  | .ok content =>
    match edit content with
    | .error reason => (t, .error reason)
    | .ok (new, shown) =>
      match t.write (toPath path) (.text new) with
      | .error e => (t, .error e.message)
      | .ok t' => (t', .ok shown)

theorem readText_of_found (h : found t path = some (.file (.text content))) :
    readText t path = .ok content := by
  rw [readText, lookup_of_found h]

theorem editText_done (h : found t path = some (.file (.text content)))
    (hedit : edit content = .ok (new, shown)) : ∃ t', editText t path edit = (t', .ok shown) ∧
      found t' path = some (.file (.text new)) := by
  obtain ⟨t', hwrite⟩ := FileTree.write_of_file (lookup_of_found h) (.text new)
  refine ⟨t', by simp only [editText, readText_of_found h, hedit, hwrite], ?_⟩
  rw [found, FileTree.lookup_of_write (lookup_of_found h) hwrite]
  rfl

end Horsie.Tools
