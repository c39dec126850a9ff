import Horsie.Agent.Actor

/-!
# Tools

What dispatching a tool call comes to, and the text of a result as it reaches the model: a string
verbatim, any other value as compact JSON, and no more of either than `maxToolResultBytes`.
-/

namespace Horsie.Agent.Value

def renderChar (c : Char) : String :=
  let n := c.toNat
  if n = 0x22 then "\\\""
  else if n = 0x5C then "\\\\"
  else if n = 0x0A then "\\n"
  else if n = 0x0D then "\\r"
  else if n = 0x09 then "\\t"
  else if n = 0x08 then "\\b"
  else if n = 0x0C then "\\f"
  else if n < 0x20 then
    "\\u00" ++ String.ofList [Nat.digitChar (n / 16), Nat.digitChar (n % 16)]
  else c.toString

def renderString (s : String) : String :=
  "\"" ++ String.join (s.toList.map renderChar) ++ "\""

mutual

def render : Value → String
  | .null => "null"
  | .bool b => if b then "true" else "false"
  | .num text => text
  | .str s => renderString s
  | .arr xs => "[" ++ ",".intercalate (renderList xs) ++ "]"
  | .obj fields => "\x7b" ++ ",".intercalate (renderFields fields) ++ "\x7d"

def renderList : List Value → List String
  | [] => []
  | v :: vs => v.render :: renderList vs

def renderFields : List (String × Value) → List String
  | [] => []
  | (key, v) :: rest => (renderString key ++ ":" ++ v.render) :: renderFields rest

end

end Horsie.Agent.Value

namespace Horsie.AgentCore

open Horsie.Agent

/-! ## The text of a result -/

def maxToolResultBytes : ℕ := 64 * 1024

structure BoundedToolOutput where
  output : String
  originalBytes : ℕ
  retainedBytes : ℕ
deriving DecidableEq

/-- The longest beginning of a text that fits into `n` bytes. -/
def takeBytes : ℕ → List Char → List Char
  | _, [] => []
  | n, c :: cs => if c.utf8Size ≤ n then c :: takeBytes (n - c.utf8Size) cs else []

/-- A text from the first character on that begins at byte `n` or later. -/
def dropBytes : ℕ → List Char → List Char
  | _, [] => []
  | n, c :: cs => if n = 0 then c :: cs else dropBytes (n - c.utf8Size) cs

/-- What stands in for the omitted bytes. -/
def omissionMarker (dropped : ℕ) : String :=
  "\n\n… " ++ toString dropped ++ " byte(s) omitted by the final tool-output guard. " ++
    "Narrow the request to inspect the missing content.\n\n"

/-- Cut the middle out of a text that is too long, at character boundaries. -/
def boundToolOutput (output : String) : BoundedToolOutput :=
  let originalBytes := output.utf8ByteSize
  if originalBytes ≤ maxToolResultBytes then
    ⟨output, originalBytes, originalBytes⟩
  else
    -- the marker names a count that depends on its own length, so it is written twice
    let first := omissionMarker (originalBytes - maxToolResultBytes)
    let marker := omissionMarker (originalBytes - (maxToolResultBytes - first.utf8ByteSize))
    let retained := maxToolResultBytes - marker.utf8ByteSize
    let head := String.ofList (takeBytes (retained / 2) output.toList)
    let tailStart := originalBytes - (retained - head.utf8ByteSize)
    let bounded := head ++ marker ++ String.ofList (dropBytes tailStart output.toList)
    ⟨bounded, originalBytes, bounded.utf8ByteSize⟩

/-! ## Dispatching a call -/

/-- What an ordinary tool call answered with. -/
structure ToolValue where
  value : Value
  artifacts : List ArtifactRef
  originalOutputBytes : ℕ
  spilledOutputBytes : ℕ
deriving DecidableEq

/-- What the toolbox did with a call: an ordinary result, the end of the run, or an error. -/
inductive ToolAnswer
  | result (v : ToolValue)
  | stopRun
  | error (text : String)
deriving DecidableEq

/-- One call's execution, with its readings of the clock. -/
structure Dispatch where
  answer : ToolAnswer
  startedMs : ℕ
  finishedMs : ℕ
deriving DecidableEq

namespace Dispatch

def complete (d : Dispatch) (call : ToolCallPart) (text : String) (isError : Bool)
    (artifacts : List ArtifactRef) (reported spilled : ℕ) : ToolCompletion :=
  let bounded := boundToolOutput text
  let original := max reported bounded.originalBytes
  { toolCallId := call.id
    output := bounded.output
    isError := isError
    artifacts := artifacts
    originalOutputBytes := original
    truncatedOutputBytes := original - bounded.retainedBytes
    spilledOutputBytes := spilled
    startedAtMs := d.startedMs
    atMs := d.finishedMs }

/-- What a call's execution records. A call that ends the run records nothing. -/
def completion? (d : Dispatch) (call : ToolCallPart) : Option ToolCompletion :=
  match d.answer with
  | .result v =>
    some (d.complete call (v.value.asStr.getD v.value.render) false v.artifacts
      v.originalOutputBytes v.spilledOutputBytes)
  | .stopRun => none
  | .error text => some (d.complete call text true [] 0 0)

def stopped? (d : Dispatch) (call : ToolCallPart) : Option StoppedCall :=
  match d.answer with
  | .stopRun => some ⟨call.name, call.id, call.input⟩
  | .result _ | .error _ => none

end Dispatch

end Horsie.AgentCore
