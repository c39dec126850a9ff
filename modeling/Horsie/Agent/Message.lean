import Mathlib.Algebra.Ring.Nat
import Mathlib.Data.List.Basic

/-!
# Messages

The protocol types of a conversation: roles, content parts, messages, and the inputs a turn may
start from. `Message.callIds` and `Message.resultIds` are the tool calls a message makes and the
ones it answers, which is all the repair of a history reads.
-/

namespace Horsie.Agent

/-- A JSON value. A number is kept as the text it prints as. -/
inductive Value
  | null
  | bool (b : Bool)
  | num (text : String)
  | str (s : String)
  | arr (xs : List Value)
  | obj (fields : List (String × Value))

namespace Value

mutual

def decEq : (a b : Value) → Decidable (a = b)
  | .null, .null => isTrue rfl
  | .bool a, .bool b => decidable_of_iff (a = b) (by simp)
  | .num a, .num b => decidable_of_iff (a = b) (by simp)
  | .str a, .str b => decidable_of_iff (a = b) (by simp)
  | .arr a, .arr b => @decidable_of_iff _ (a = b) (by simp) (decEqList a b)
  | .obj a, .obj b => @decidable_of_iff _ (a = b) (by simp) (decEqFields a b)
  | .null, .bool _ | .null, .num _ | .null, .str _ | .null, .arr _ | .null, .obj _
  | .bool _, .null | .bool _, .num _ | .bool _, .str _ | .bool _, .arr _ | .bool _, .obj _
  | .num _, .null | .num _, .bool _ | .num _, .str _ | .num _, .arr _ | .num _, .obj _
  | .str _, .null | .str _, .bool _ | .str _, .num _ | .str _, .arr _ | .str _, .obj _
  | .arr _, .null | .arr _, .bool _ | .arr _, .num _ | .arr _, .str _ | .arr _, .obj _
  | .obj _, .null | .obj _, .bool _ | .obj _, .num _ | .obj _, .str _ | .obj _, .arr _ =>
    isFalse (by simp)

def decEqList : (a b : List Value) → Decidable (a = b)
  | [], [] => isTrue rfl
  | [], _ :: _ | _ :: _, [] => isFalse (by simp)
  | a :: as, b :: bs =>
    @decidable_of_iff _ (a = b ∧ as = bs) (by simp)
      (@instDecidableAnd _ _ (decEq a b) (decEqList as bs))

def decEqFields : (a b : List (String × Value)) → Decidable (a = b)
  | [], [] => isTrue rfl
  | [], _ :: _ | _ :: _, [] => isFalse (by simp)
  | (k, a) :: as, (l, b) :: bs =>
    @decidable_of_iff _ (k = l ∧ a = b ∧ as = bs) (by simp [and_assoc])
      (@instDecidableAnd _ _ inferInstance
        (@instDecidableAnd _ _ (decEq a b) (decEqFields as bs)))

end

instance : DecidableEq Value := decEq

/-- The field `key` of an object. Of two fields with one name the last counts. -/
def get (v : Value) (key : String) : Option Value :=
  match v with
  | .obj fields => (fields.reverse.find? (·.1 = key)).map (·.2)
  | .null | .bool _ | .num _ | .str _ | .arr _ => none

def asStr : Value → Option String
  | .str s => some s
  | .null | .bool _ | .num _ | .arr _ | .obj _ => none

def asArray : Value → Option (List Value)
  | .arr xs => some xs
  | .null | .bool _ | .num _ | .str _ | .obj _ => none

def asBool : Value → Option Bool
  | .bool b => some b
  | .null | .num _ | .str _ | .arr _ | .obj _ => none

end Value

/-- Who a message is from. -/
inductive Role
  | user
  | assistant
  | tool
deriving DecidableEq

/-- What shape an artifact is, and the facts only that shape has. -/
inductive ArtifactKind
  | image (width height : Option ℕ)
  | document
deriving DecidableEq

/-- An image or document a message names. -/
structure ArtifactRef where
  id : String
  mediaType : String
  kind : ArtifactKind
  byteSize : ℕ
  filename : Option String
deriving DecidableEq

structure ToolCallPart where
  id : String
  name : String
  input : Value
deriving DecidableEq

structure ToolResultPart where
  toolCallId : String
  output : String
  isError : Bool
  artifacts : List ArtifactRef
deriving DecidableEq

/-- A finished subagent's result, delivered to the agent that spawned it. -/
structure SubAgentResultPart where
  subagentId : String
  title : String
  status : String
  text : String
  spawnedAtMs : ℕ
  endedAtMs : ℕ
deriving DecidableEq

inductive ContentPart
  | text (text : String)
  | toolCall (call : ToolCallPart)
  | toolResult (result : ToolResultPart)
  | thinking (text : String) (signature : Option String)
  | subAgentResult (part : SubAgentResultPart)
  | artifact (artifact : ArtifactRef)
deriving DecidableEq

namespace ContentPart

def callId? : ContentPart → Option String
  | .toolCall c => some c.id
  | .text _ | .toolResult _ | .thinking _ _ | .subAgentResult _ | .artifact _ => none

def resultId? : ContentPart → Option String
  | .toolResult r => some r.toolCallId
  | .text _ | .toolCall _ | .thinking _ _ | .subAgentResult _ | .artifact _ => none

def text? : ContentPart → Option String
  | .text t => some t
  | .toolCall _ | .toolResult _ | .thinking _ _ | .subAgentResult _ | .artifact _ => none

end ContentPart

structure Message where
  id : String
  role : Role
  parts : List ContentPart
  createdAtMs : ℕ
  startedAtMs : Option ℕ
deriving DecidableEq

namespace Message

def content (m : Message) : Role × List ContentPart := (m.role, m.parts)

def callIds (m : Message) : List String := m.parts.filterMap ContentPart.callId?

def resultIds (m : Message) : List String := m.parts.filterMap ContentPart.resultId?

def text (m : Message) : String := String.join (m.parts.filterMap ContentPart.text?)

def assistantText (id text : String) (createdAtMs : ℕ) : Message where
  id := id
  role := .assistant
  parts := [.text text]
  createdAtMs := createdAtMs
  startedAtMs := none

def toolResult (toolCallId output : String) (isError : Bool) (artifacts : List ArtifactRef)
    (createdAtMs : ℕ) : Message where
  id := "result:" ++ toolCallId
  role := .tool
  parts := [.toolResult ⟨toolCallId, output, isError, artifacts⟩]
  createdAtMs := createdAtMs
  startedAtMs := none

@[simp] theorem toolResult_role (id out : String) (e : Bool) (as : List ArtifactRef) (t : ℕ) :
    (toolResult id out e as t).role = .tool := rfl

@[simp] theorem toolResult_callIds (id out : String) (e : Bool) (as : List ArtifactRef) (t : ℕ) :
    (toolResult id out e as t).callIds = [] := rfl

@[simp] theorem toolResult_resultIds (id out : String) (e : Bool) (as : List ArtifactRef)
    (t : ℕ) : (toolResult id out e as t).resultIds = [id] := rfl

@[simp] theorem assistantText_role (id t : String) (n : ℕ) :
    (assistantText id t n).role = .assistant := rfl

@[simp] theorem assistantText_callIds (id t : String) (n : ℕ) :
    (assistantText id t n).callIds = [] := rfl

@[simp] theorem assistantText_resultIds (id t : String) (n : ℕ) :
    (assistantText id t n).resultIds = [] := rfl

end Message

/-! ## Inputs of a turn -/

structure UserMessageInput where
  id : String
  text : String
  subagentResults : List SubAgentResultPart
  artifacts : List ArtifactRef
deriving DecidableEq

structure ToolResultInput where
  toolCallId : String
  output : String
  isError : Bool
  artifacts : List ArtifactRef
deriving DecidableEq

namespace ToolResultInput

def toPart (r : ToolResultInput) : ContentPart :=
  .toolResult ⟨r.toolCallId, r.output, r.isError, r.artifacts⟩

end ToolResultInput

inductive AgentInput
  | userMessage (input : UserMessageInput)
  | toolResult (input : ToolResultInput)
  | toolResults (results : List ToolResultInput)
deriving DecidableEq

namespace AgentInput

def messageId : AgentInput → String
  | .userMessage u => u.id
  | .toolResult t => "result:" ++ t.toolCallId
  | .toolResults rs =>
    match rs.head? with
    | some first => "result:" ++ first.toolCallId
    | none => "result:none"

/-- The message an input becomes. An empty text makes no part. -/
def toMessage (input : AgentInput) (createdAtMs : ℕ) : Message where
  id := input.messageId
  role :=
    match input with
    | .userMessage _ => .user
    | .toolResult _ | .toolResults _ => .tool
  parts :=
    match input with
    | .userMessage u =>
      (if u.text.isEmpty then [] else [.text u.text]) ++ u.artifacts.map .artifact ++
        u.subagentResults.map .subAgentResult
    | .toolResult t => [t.toPart]
    | .toolResults rs => rs.map ToolResultInput.toPart
  createdAtMs := createdAtMs
  startedAtMs := none

@[simp] theorem toMessage_userMessage_role (u : UserMessageInput) (t : ℕ) :
    ((userMessage u).toMessage t).role = .user := rfl

@[simp] theorem toMessage_toolResults_role (rs : List ToolResultInput) (t : ℕ) :
    ((toolResults rs).toMessage t).role = .tool := rfl

theorem mem_userMessage_parts {u : UserMessageInput} {t : ℕ} {p : ContentPart}
    (hp : p ∈ ((userMessage u).toMessage t).parts) :
    p = .text u.text ∨ (∃ a ∈ u.artifacts, .artifact a = p) ∨
      ∃ s ∈ u.subagentResults, .subAgentResult s = p := by
  simp only [toMessage, List.mem_append, List.mem_map] at hp
  rcases hp with (hp | hp) | hp
  · split at hp
    · cases hp
    · exact .inl (List.mem_singleton.mp hp)
  · exact .inr (.inl hp)
  · exact .inr (.inr hp)

@[simp] theorem toMessage_userMessage_resultIds (u : UserMessageInput) (t : ℕ) :
    ((userMessage u).toMessage t).resultIds = [] := by
  refine List.filterMap_eq_nil_iff.mpr fun p hp => ?_
  obtain rfl | ⟨a, -, rfl⟩ | ⟨s, -, rfl⟩ := mem_userMessage_parts hp <;> rfl

@[simp] theorem toMessage_toolResults_resultIds (rs : List ToolResultInput) (t : ℕ) :
    ((toolResults rs).toMessage t).resultIds = rs.map (·.toolCallId) := by
  simp only [Message.resultIds, toMessage, List.filterMap_map]
  exact congrFun List.filterMap_eq_map' rs

end AgentInput

/-- Token usage of a model turn, as a provider reports it. -/
structure Usage where
  inputTokens : ℕ
  outputTokens : ℕ
  cacheCreationTokens : Option ℕ
  cacheReadTokens : Option ℕ
deriving DecidableEq

end Horsie.Agent
