import Mathlib.Data.List.Basic

/-!
# Text

Trimming as the source language does it, over the whole Unicode `White_Space` property, and what
it means for one text to occur in another.
-/

namespace Horsie.Lib

/-- The Unicode `White_Space` property. -/
def isWhite (c : Char) : Bool :=
  let n := c.toNat
  (9 ≤ n && n ≤ 13) || n == 0x20 || n == 0x85 || n == 0xA0 || n == 0x1680 ||
    (0x2000 ≤ n && n ≤ 0x200A) || n == 0x2028 || n == 0x2029 || n == 0x202F || n == 0x205F ||
    n == 0x3000

/-- A text without its leading and trailing white space. -/
def trim (s : String) : String :=
  String.ofList (((s.toList.dropWhile isWhite).reverse.dropWhile isWhite).reverse)

/-- A text without its trailing white space. -/
def trimEnd (s : String) : String := String.ofList ((s.toList.reverse.dropWhile isWhite).reverse)

/-- Whether a text holds anything but white space. -/
def isBlank (s : String) : Bool := (trim s).isEmpty

/-- `s` occurs in `t`. -/
def Occurs (s t : String) : Prop := s.toList <:+: t.toList

theorem Occurs.refl (s : String) : Occurs s s := List.infix_rfl

theorem Occurs.trans {s t u : String} (h : Occurs s t) (h' : Occurs t u) : Occurs s u :=
  List.IsInfix.trans h h'

theorem occurs_intercalate (sep : String) {s : String} {ts : List String} (h : s ∈ ts) :
    Occurs s (sep.intercalate ts) := by
  induction ts with
  | nil => cases h
  | cons t ts ih =>
    rcases List.mem_cons.mp h with rfl | h
    · cases ts with
      | nil => rw [String.intercalate_singleton]; exact .refl s
      | cons u us =>
        rw [String.intercalate_cons_cons]
        exact ⟨[], _, by simp only [String.toList_append, List.nil_append, List.append_assoc]; rfl⟩
    · have hne : ts ≠ [] := List.ne_nil_of_mem h
      rw [String.intercalate_cons_of_ne_nil hne]
      exact (ih h).trans ⟨(t ++ sep).toList, [], by simp⟩

/-! ## Lines and prefixes -/

/-- `s` split at every line feed. -/
def segments : List Char → List (List Char)
  | [] => [[]]
  | c :: cs => if c = '\n' then [] :: segments cs else (segments cs).modifyHead (c :: ·)

def stripReturn (line : List Char) : List Char :=
  if line.getLast? = some '\r' then line.dropLast else line

/-- The lines of a text, as the source language splits it: without their line feeds and the carriage
returns before them, and without an empty last one. -/
def lines (s : String) : List String :=
  let parts := segments s.toList
  let ended := (parts.dropLast.map stripReturn).map String.ofList
  match parts.getLast? with
  | none | some [] => ended
  | some last => ended ++ [String.ofList last]

/-- The rest of `s` after `start`, where `s` starts with it. -/
def stripPrefix (start s : String) : Option String :=
  if start.toList.isPrefixOf s.toList then some (String.ofList (s.toList.drop start.length))
  else none

/-- What stands before and after the first occurrence of `sep`. -/
def splitOnce (sep : List Char) : List Char → Option (List Char × List Char)
  | [] => if sep.isEmpty then some ([], []) else none
  | c :: cs =>
    if sep.isPrefixOf (c :: cs) then some ([], (c :: cs).drop sep.length)
    else (splitOnce sep cs).map fun (before, after) => (c :: before, after)

end Horsie.Lib
