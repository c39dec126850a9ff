import Horsie.Lib.Text

/-!
# Patch documents

The text of a patch, read completely before any file is touched: file sections that update, add,
delete or move, an update in hunks of context, removed and added lines. A path may head one section
only, compared as it is written.
-/

namespace Horsie.Tools

open Horsie.Lib

def beginPatch : String := "*** Begin Patch"
def endPatch : String := "*** End Patch"
def updateFile : String := "*** Update File: "
def addFile : String := "*** Add File: "
def deleteFile : String := "*** Delete File: "
def moveFile : String := "*** Move File: "
def moveSeparator : String := " -> "
def maxPatchBytes : ℕ := 1000000
def maxFiles : ℕ := 100
def maxHunks : ℕ := 500

inductive HunkLine
  | context (value : String)
  | remove (value : String)
  | add (value : String)
deriving DecidableEq

structure Hunk where
  lines : List HunkLine
deriving DecidableEq

inductive FilePatch
  | update (path : String) (hunks : List Hunk)
  | add (path : String) (lines : List String)
  | delete (path : String)
  | move (src dst : String)
deriving DecidableEq

def FilePatch.path : FilePatch → String
  | update path _ | add path _ | delete path => path
  | move src _ => src

def isFileHeader (line : String) : Bool := "*** ".toList.isPrefixOf line.toList

def isHunkHeader (line : String) : Bool :=
  decide (line = "@@") || "@@ ".toList.isPrefixOf line.toList

def parsePath (raw : String) (line : ℕ) (seen : List String) :
    Except String (String × List String) :=
  let path := trim raw
  if path.isEmpty then .error s!"line {line}: file path cannot be empty"
  else if path.toList.contains (Char.ofNat 0) then
    .error s!"line {line}: file path contains a NUL byte"
  else if seen.contains path then
    .error (s!"line {line}: '{path}' has more than one file section; " ++
      "put all of its hunks in one section")
  else .ok (path, seen ++ [path])

def parseHunkLine (line : String) (number : ℕ) : Except String HunkLine :=
  match stripPrefix " " line, stripPrefix "-" line, stripPrefix "+" line with
  | some value, _, _ => .ok (.context value)
  | none, some value, _ => .ok (.remove value)
  | none, none, some value => .ok (.add value)
  | none, none, none =>
    .error s!"line {number}: hunk lines must start with ' ', '+', or '-'"

def parseHunkLines (number : ℕ) : List String → Except String (List HunkLine)
  | [] => .ok []
  | line :: rest => do
    let parsed ← parseHunkLine line number
    let more ← parseHunkLines (number + 1) rest
    return parsed :: more

def HunkLine.isAdd : HunkLine → Bool
  | add _ => true
  | context _ | remove _ => false

/-- A hunk of the lines up to the next header, the first of them at line `number`. -/
def parseHunk (body : List String) (number : ℕ) : Except String Hunk := do
  let parsed ← parseHunkLines number body
  if parsed.isEmpty then throw s!"line {number}: update hunk is empty"
  if parsed.all HunkLine.isAdd then
    throw s!"line {number}: insertion-only hunks are ambiguous; include an unchanged context line"
  return ⟨parsed⟩

/-- The hunks of an update, and how many the document has so far. -/
def parseHunks (number count : ℕ) : List String → Except String (List Hunk × ℕ)
  | [] => .ok ([], count)
  | line :: rest =>
    if isHunkHeader line then do
      let body := rest.takeWhile (!isHunkHeader ·)
      let hunk ← parseHunk body (number + 1)
      if maxHunks < count + 1 then throw s!"patch has more than {maxHunks} hunks"
      let (hunks, total) ← parseHunks (number + 1 + body.length) (count + 1)
        (rest.dropWhile (!isHunkHeader ·))
      return (hunk :: hunks, total)
    else .error s!"line {number}: expected '@@' to start an update hunk, found {line.quote}"
termination_by lines => lines.length
decreasing_by exact Nat.lt_succ_of_le (List.dropWhile_sublist _).length_le

def parseAdded (number : ℕ) : List String → Except String (List String)
  | [] => .ok []
  | line :: rest =>
    match stripPrefix "+" line with
    | none => .error s!"line {number}: every added-file line must start with '+'"
    | some value => do
      let more ← parseAdded (number + 1) rest
      return value :: more

/-- A file section: its header at line `number`, the lines up to the next header, the paths and the
number of hunks before it. -/
def parseSection (header : String) (body : List String) (number : ℕ) (seen : List String)
    (hunkCount : ℕ) : Except String (FilePatch × List String × ℕ) :=
  match stripPrefix updateFile header, stripPrefix addFile header, stripPrefix deleteFile header,
    stripPrefix moveFile header with
  | some rawPath, _, _, _ => do
    let (path, seen) ← parsePath rawPath number seen
    let (hunks, hunkCount) ← parseHunks (number + 1) hunkCount body
    if hunks.isEmpty then throw s!"update for '{path}' contains no hunks"
    return (.update path hunks, seen, hunkCount)
  | none, some rawPath, _, _ => do
    let (path, seen) ← parsePath rawPath number seen
    let added ← parseAdded (number + 1) body
    if added.isEmpty then throw s!"add for '{path}' contains no lines"
    return (.add path added, seen, hunkCount)
  | none, none, some rawPath, _ => do
    let (path, seen) ← parsePath rawPath number seen
    if !body.isEmpty then throw s!"line {number + 1}: a delete section cannot contain body lines"
    return (.delete path, seen, hunkCount)
  | none, none, none, some rawMove =>
    match splitOnce moveSeparator.toList rawMove.toList with
    | none => .error s!"line {number}: move header must be '<source> -> <destination>'"
    | some (rawFrom, rawTo) => do
      let (src, seen) ← parsePath (String.ofList rawFrom) number seen
      let (dst, seen) ← parsePath (String.ofList rawTo) number seen
      if !body.isEmpty then throw s!"line {number + 1}: a move section cannot contain body lines"
      return (.move src dst, seen, hunkCount)
  | none, none, none, none =>
    .error (s!"line {number}: expected an Update File, Add File, Delete File, or Move File " ++
      s!"header, found {header.quote}")

/-- The sections from line `number` on, after `files` others. -/
def parseSections (number files : ℕ) (seen : List String) (hunkCount : ℕ) :
    List String → Except String (List FilePatch)
  | [] => .ok []
  | header :: rest => do
    let body := rest.takeWhile (!isFileHeader ·)
    let (file, seen, hunkCount) ← parseSection header body number seen hunkCount
    if maxFiles < files + 1 then throw s!"patch changes more than {maxFiles} files"
    let more ← parseSections (number + 1 + body.length) (files + 1) seen hunkCount
      (rest.dropWhile (!isFileHeader ·))
    return file :: more
termination_by lines => lines.length
decreasing_by exact Nat.lt_succ_of_le (List.dropWhile_sublist _).length_le

/-- The complete document, without touching any file. -/
def parsePatch (input : String) : Except String (List FilePatch) :=
  let lines := Lib.lines input
  if lines.head? ≠ some beginPatch then .error s!"line 1 must be exactly '{beginPatch}'"
  else if lines.getLast? ≠ some endPatch then .error s!"the last line must be exactly '{endPatch}'"
  else if lines.length = 2 then .error "patch contains no file sections"
  else parseSections 2 0 [] 0 lines.tail.dropLast

end Horsie.Tools
