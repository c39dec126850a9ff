import Horsie.AgentCore.Tool
import Horsie.Lib.Pairing

/-!
# The body of a Chat Completions request

A history as the messages of a request. Each result is a message of its own, and so is each note
about an artifact it could not be given; what else a message carries follows in a message of the
user or the assistant, and the artifacts of its results in one more. The wire takes results only
directly behind their calls, one each. That it is given them so, with the texts in their order, is
`WellFormed`; which histories are is `chatBody_wellFormed_iff`.
-/

namespace Horsie.Agent

def SubAgentResultPart.toWireText (r : SubAgentResultPart) : String :=
  let header := "[subagent \"" ++ r.title ++ "\" " ++ r.status ++ "]"
  if r.text.isEmpty then header else header ++ "\n\n" ++ r.text

/-- What a provider is told that cannot be shown an artifact. -/
def ArtifactRef.omittedText (a : ArtifactRef) : String :=
  let what :=
    match a.kind with
    | .image _ _ => "image"
    | .document => "document"
  match a.filename with
  | some name => "[" ++ what ++ " \"" ++ name ++ "\" omitted — this model cannot read it]"
  | none => "[" ++ what ++ " omitted — this model cannot read it]"

end Horsie.Agent

namespace Horsie.LlmProviders

open Agent (ArtifactRef ContentPart Message Role toolExchange)
open Lib (AnsweredOnce PlacedFrom Quiet Said Strict)

/-! ## Messages of the wire -/

inductive ChatRole
  | system
  | user
  | assistant
  | tool
deriving DecidableEq

inductive ChatContentPart
  | text (text : String)
  | imageBase64 (mediaType data : String)
  | fileBase64 (filename mediaType data : String)
deriving DecidableEq

inductive ChatContent
  | text (text : String)
  | parts (parts : List ChatContentPart)
deriving DecidableEq

structure ChatToolCall where
  id : String
  name : String
  arguments : String
deriving DecidableEq

structure ChatMessage where
  role : ChatRole
  content : Option ChatContent
  toolCalls : Option (List ChatToolCall)
  toolCallId : Option String
deriving DecidableEq

namespace ChatMessage

def system (text : String) : ChatMessage := ⟨.system, some (.text text), none, none⟩

def tool (id text : String) : ChatMessage := ⟨.tool, some (.text text), none, some id⟩

end ChatMessage

/-! ## Building the body -/

abbrev ArtifactBytes := String → Option String

def mediaPart (bytes : ArtifactBytes) (a : ArtifactRef) : Except String ChatContentPart :=
  match bytes a.id with
  | none => .error a.omittedText
  | some data =>
    .ok <|
      match a.kind with
      | .image _ _ => .imageBase64 a.mediaType data
      | .document => .fileBase64 (a.filename.getD "document.pdf") a.mediaType data

def attachmentText : String := "The tool call above returned the following attachment(s)."

/-- Emit a tool result's images as a user message. -/
def flushDeferred (messages : List ChatMessage) (deferred : List ChatContentPart) :
    List ChatMessage :=
  if deferred.isEmpty then messages
  else messages ++ [⟨.user, some (.parts (.text attachmentText :: deferred)), none, none⟩]

/-- What is gathered of a message: the messages sent so far, and what is still to be sent. -/
structure Gathering where
  messages : List ChatMessage
  text : String
  toolCalls : List ChatToolCall
  media : List ChatContentPart
  deferred : List ChatContentPart

def addResultArtifact (bytes : ArtifactBytes) (id : String) (g : Gathering) (a : ArtifactRef) :
    Gathering :=
  match mediaPart bytes a with
  | .ok part => { g with deferred := g.deferred ++ [part] }
  | .error note => { g with messages := g.messages ++ [.tool id note] }

def addPart (bytes : ArtifactBytes) (g : Gathering) : ContentPart → Gathering
  | .text t => { g with text := g.text ++ t }
  | .toolCall call =>
    { g with toolCalls := g.toolCalls ++ [⟨call.id, call.name, call.input.render⟩] }
  | .toolResult result =>
    result.artifacts.foldl (addResultArtifact bytes result.toolCallId)
      { g with messages := g.messages ++ [.tool result.toolCallId result.output] }
  | .thinking _ _ => g
  | .subAgentResult result => { g with text := g.text ++ result.toWireText }
  | .artifact a =>
    match mediaPart bytes a with
    | .ok part => { g with media := g.media ++ [part] }
    | .error note => { g with text := g.text ++ note }

def chatRole : Role → ChatRole
  | .assistant => .assistant
  | .user | .tool => .user

def chatContent (text : String) (media : List ChatContentPart) : Option ChatContent :=
  if media.isEmpty then
    if text.isEmpty then none else some (.text text)
  else some (.parts ((if text.isEmpty then [] else [.text text]) ++ media))

def wireMessage (role : Role) (g : Gathering) : ChatMessage where
  role := chatRole role
  content := chatContent g.text g.media
  toolCalls := if g.toolCalls.isEmpty then none else some g.toolCalls
  toolCallId := none

def sendGathered (role : Role) (g : Gathering) : List ChatMessage :=
  if g.text.isEmpty && g.toolCalls.isEmpty && g.media.isEmpty then
    flushDeferred g.messages g.deferred
  else flushDeferred (g.messages ++ [wireMessage role g]) g.deferred

def addMessage (bytes : ArtifactBytes) (messages : List ChatMessage) (m : Message) :
    List ChatMessage :=
  sendGathered m.role (m.parts.foldl (addPart bytes) ⟨messages, "", [], [], []⟩)

def buildBody (bytes : ArtifactBytes) (system : Option String) (messages : List Message) :
    List ChatMessage :=
  messages.foldl (addMessage bytes) ((system.map ChatMessage.system).toList)

/-! ## What the wire is to be -/

namespace ChatContentPart

def readText : ChatContentPart → String
  | .text t => t
  | .imageBase64 _ _ | .fileBase64 _ _ _ => ""

end ChatContentPart

namespace ChatMessage

/-- A message as a strict reader takes it: an answer, or a message with the assistant's calls. -/
def saying (m : ChatMessage) : Said String :=
  match m.role with
  | .tool => .answer (m.toolCallId.getD "")
  | .assistant => .other ((m.toolCalls.getD []).map (·.id))
  | .system | .user => .other []

def readText (m : ChatMessage) : String :=
  match m.content with
  | none => ""
  | some (.text t) => t
  | some (.parts parts) => String.join (parts.map ChatContentPart.readText)

end ChatMessage

section

variable (bytes : ArtifactBytes)

def shown (artifacts : List ArtifactRef) : List ChatContentPart :=
  artifacts.filterMap fun a => (mediaPart bytes a).toOption

/-- What is told about the artifacts that are not sent along. -/
def notes (artifacts : List ArtifactRef) : List String :=
  (artifacts.filter fun a => (bytes a.id).isNone).map ArtifactRef.omittedText

def partText : ContentPart → String
  | .text t => t
  | .toolResult result => result.output ++ String.join (notes bytes result.artifacts)
  | .subAgentResult result => result.toWireText
  | .artifact a => String.join (notes bytes [a])
  | .toolCall _ | .thinking _ _ => ""

def isResult (p : ContentPart) : Bool := p.resultId?.isSome

def resultArtifacts : ContentPart → List ArtifactRef
  | .toolResult result => result.artifacts
  | .text _ | .toolCall _ | .thinking _ _ | .subAgentResult _ | .artifact _ => []

def ownArtifact? : ContentPart → Option ArtifactRef
  | .artifact a => some a
  | .text _ | .toolCall _ | .toolResult _ | .thinking _ _ | .subAgentResult _ => none

/-- The artifacts a message's results bring along. -/
def deferredOf (m : Message) : List ChatContentPart :=
  shown bytes (m.parts.flatMap resultArtifacts)

/-- The texts of a message in their order, and the announcement of what its results bring along. -/
def historyText (m : Message) : String :=
  String.join (m.parts.map (partText bytes)) ++
    if deferredOf bytes m = [] then "" else attachmentText

def textsOf (result : Bool) (m : Message) : String :=
  String.join ((m.parts.filter (isResult · == result)).map (partText bytes))

/-- Each answer comes behind its calls and before anything else, once, and the texts are in their
order. -/
structure WellFormed (system : Option String) (H : List Message) (wire : List ChatMessage) :
    Prop where
  paired : Strict [] (wire.map ChatMessage.saying)
  texts : String.join (wire.map ChatMessage.readText) =
    system.getD "" ++ String.join (H.map (historyText bytes))

/-- A message that says anything but its results. -/
def Loud (m : Message) : Prop :=
  textsOf bytes false m ≠ "" ∨ m.callIds ≠ [] ∨
    ∃ p ∈ m.parts, ∃ a ∈ resultArtifacts p ++ (ownArtifact? p).toList, (bytes a.id).isSome = true

/-- Which histories the body keeps in order. -/
structure Keeps (H : List Message) : Prop where
  inlined : ∀ m ∈ H, ∀ p ∈ m.parts, ∀ a ∈ resultArtifacts p, (bytes a.id).isSome = true
  placed : PlacedFrom toolExchange [] H
  quiet : Quiet toolExchange (Loud bytes) H
  ordered : ∀ m ∈ H, textsOf bytes true m ++ textsOf bytes false m =
    String.join (m.parts.map (partText bytes))

end

/-! ## What is written for a message -/

section

variable {bytes : ArtifactBytes} {m : Message}

variable {a : ArtifactRef}

theorem mediaPart_of_isNone (h : (bytes a.id).isNone = true) :
    mediaPart bytes a = .error a.omittedText := by
  rw [mediaPart, Option.isNone_iff_eq_none.mp h]

theorem mediaPart_of_isSome (h : (bytes a.id).isNone = false) :
    ∃ part, mediaPart bytes a = .ok part ∧ part.readText = "" := by
  rw [mediaPart]
  cases hdata : bytes a.id with
  | none =>
    rw [hdata] at h
    cases h
  | some data =>
    refine ⟨_, rfl, ?_⟩
    cases a.kind <;> rfl

theorem shown_cons (a : ArtifactRef) (as : List ArtifactRef) : shown bytes (a :: as) =
    shown bytes [a] ++ shown bytes as :=
  List.filterMap_append (l := [a])

theorem shown_append (as as' : List ArtifactRef) : shown bytes (as ++ as') =
    shown bytes as ++ shown bytes as' :=
  List.filterMap_append

theorem notes_cons (a : ArtifactRef) (as : List ArtifactRef) : notes bytes (a :: as) =
    notes bytes [a] ++ notes bytes as := by
  unfold notes
  rw [← List.map_append, ← List.filter_append, List.singleton_append]

theorem shown_of_isNone (h : (bytes a.id).isNone = true) :
    shown bytes [a] = [] := by
  rw [shown, List.filterMap_cons_none (by rw [mediaPart_of_isNone h]; rfl), List.filterMap_nil]

theorem notes_of_isNone (h : (bytes a.id).isNone = true) :
    notes bytes [a] = [a.omittedText] := by
  simp [notes, h]

theorem shown_of_part {part : ChatContentPart}
    (h : mediaPart bytes a = .ok part) : shown bytes [a] = [part] := by
  rw [shown, List.filterMap_cons_some (by rw [h]; rfl), List.filterMap_nil]

theorem notes_of_isSome (h : (bytes a.id).isNone = false) :
    notes bytes [a] = [] := by
  simp [notes, h]

variable {as : List ArtifactRef}

theorem shown_eq_nil_iff :
    shown bytes as = [] ↔ ∀ a ∈ as, (bytes a.id).isNone = true := by
  rw [shown, List.filterMap_eq_nil_iff]
  refine forall₂_congr fun a _ => ?_
  cases hdata : (bytes a.id).isNone with
  | true => rw [mediaPart_of_isNone hdata]; exact iff_of_true rfl rfl
  | false =>
    obtain ⟨part, hpart, -⟩ := mediaPart_of_isSome hdata
    rw [hpart]
    exact iff_of_false (fun h => by cases h) Bool.false_ne_true

theorem readText_of_mem_shown {part : ChatContentPart}
    (h : part ∈ shown bytes as) : part.readText = "" := by
  obtain ⟨a, -, hpart⟩ := List.mem_filterMap.mp h
  cases hdata : (bytes a.id).isNone with
  | true =>
    rw [mediaPart_of_isNone hdata] at hpart
    cases hpart
  | false =>
    obtain ⟨part', hpart', htext⟩ := mediaPart_of_isSome hdata
    rw [hpart'] at hpart
    cases hpart
    exact htext

def toolMessages (bytes : ArtifactBytes) : ContentPart → List ChatMessage
  | .toolResult result =>
    (result.output :: notes bytes result.artifacts).map (ChatMessage.tool result.toolCallId)
  | .text _ | .toolCall _ | .thinking _ _ | .subAgentResult _ | .artifact _ => []

def wireCall? : ContentPart → Option ChatToolCall
  | .toolCall call => some ⟨call.id, call.name, call.input.render⟩
  | .text _ | .toolResult _ | .thinking _ _ | .subAgentResult _ | .artifact _ => none

theorem foldl_addResultArtifact (id : String) (as : List ArtifactRef) (g : Gathering) :
    as.foldl (addResultArtifact bytes id) g =
      { g with
        messages := g.messages ++ (notes bytes as).map (ChatMessage.tool id)
        deferred := g.deferred ++ shown bytes as } := by
  induction as generalizing g with
  | nil =>
    show g = ⟨g.messages ++ [], _, _, _, g.deferred ++ []⟩
    rw [List.append_nil, List.append_nil]
  | cons a as ih =>
    rw [List.foldl_cons, ih, notes_cons, shown_cons, List.map_append]
    cases hdata : (bytes a.id).isNone with
    | true =>
      rw [addResultArtifact, mediaPart_of_isNone hdata, notes_of_isNone hdata,
        shown_of_isNone hdata, List.nil_append, ← List.append_assoc]
      rfl
    | false =>
      obtain ⟨part, hpart, -⟩ := mediaPart_of_isSome hdata
      rw [addResultArtifact, hpart, notes_of_isSome hdata, shown_of_part hpart, List.map_nil,
        List.nil_append, ← List.append_assoc]

def waitingText (bytes : ArtifactBytes) (p : ContentPart) : String :=
  if isResult p then "" else partText bytes p

theorem addPart_eq (g : Gathering) (p : ContentPart) : addPart bytes g p =
    ⟨g.messages ++ toolMessages bytes p, g.text ++ waitingText bytes p,
      g.toolCalls ++ (wireCall? p).toList, g.media ++ shown bytes (ownArtifact? p).toList,
      g.deferred ++ shown bytes (resultArtifacts p)⟩ := by
  have hshown : shown bytes [] = [] := rfl
  cases p with
  | text _ | toolCall _ | thinking _ _ | subAgentResult _ =>
    simp [addPart, toolMessages, waitingText, isResult, ContentPart.resultId?, partText, wireCall?,
      ownArtifact?, resultArtifacts, hshown]
  | toolResult result =>
    rw [addPart, foldl_addResultArtifact]
    simp [toolMessages, waitingText, isResult, ContentPart.resultId?, wireCall?, ownArtifact?,
      resultArtifacts, hshown]
  | artifact a =>
    have hwaiting : waitingText bytes (.artifact a) = String.join (notes bytes [a]) := rfl
    rw [addPart, hwaiting]
    cases hdata : (bytes a.id).isNone with
    | true =>
      simp [mediaPart_of_isNone hdata, toolMessages, wireCall?, ownArtifact?, resultArtifacts,
        shown_of_isNone hdata, notes_of_isNone hdata, hshown]
    | false =>
      obtain ⟨part, hpart, -⟩ := mediaPart_of_isSome hdata
      simp [hpart, toolMessages, wireCall?, ownArtifact?, resultArtifacts, shown_of_part hpart,
        notes_of_isSome hdata, hshown]

theorem foldl_addPart (parts : List ContentPart) (g : Gathering) :
    parts.foldl (addPart bytes) g =
      ⟨g.messages ++ parts.flatMap (toolMessages bytes),
        g.text ++ String.join (parts.map (waitingText bytes)),
        g.toolCalls ++ parts.filterMap wireCall?,
        g.media ++ shown bytes (parts.filterMap ownArtifact?),
        g.deferred ++ shown bytes (parts.flatMap resultArtifacts)⟩ := by
  induction parts generalizing g with
  | nil => simp [shown]
  | cons p parts ih =>
    rw [List.foldl_cons, ih, addPart_eq]
    have hcalls : (p :: parts).filterMap wireCall? =
        (wireCall? p).toList ++ parts.filterMap wireCall? := by
      cases h : wireCall? p <;> simp [h]
    have hown : (p :: parts).filterMap ownArtifact? =
        (ownArtifact? p).toList ++ parts.filterMap ownArtifact? := by
      cases h : ownArtifact? p <;> simp [h]
    simp only [hcalls, hown, List.flatMap_cons, List.map_cons, String.join_cons, shown_append,
      List.append_assoc, String.append_assoc]

def gathered (bytes : ArtifactBytes) (m : Message) : Gathering where
  messages := m.parts.flatMap (toolMessages bytes)
  text := String.join (m.parts.map (waitingText bytes))
  toolCalls := m.parts.filterMap wireCall?
  media := shown bytes (m.parts.filterMap ownArtifact?)
  deferred := deferredOf bytes m

/-- The message that announces the artifacts of results, if there are any. -/
def attachments (deferred : List ChatContentPart) : List ChatMessage := flushDeferred [] deferred

def restOf (role : Role) (g : Gathering) : List ChatMessage :=
  (if g.text.isEmpty && g.toolCalls.isEmpty && g.media.isEmpty then [] else [wireMessage role g]) ++
    attachments g.deferred

theorem flushDeferred_eq (messages : List ChatMessage) (deferred : List ChatContentPart) :
    flushDeferred messages deferred = messages ++ attachments deferred := by
  rw [attachments, flushDeferred, flushDeferred]
  split_ifs
  · rw [List.append_nil]
  · rw [List.nil_append]

theorem addMessage_eq (messages : List ChatMessage) : addMessage bytes messages m =
    messages ++ ((gathered bytes m).messages ++ restOf m.role (gathered bytes m)) := by
  rw [addMessage, foldl_addPart]
  show sendGathered m.role { gathered bytes m with
    messages := messages ++ (gathered bytes m).messages
    text := "" ++ (gathered bytes m).text } = _
  rw [String.empty_append, sendGathered, restOf, ← List.append_assoc]
  split_ifs with h
  · rw [flushDeferred_eq, List.nil_append]
  · rw [flushDeferred_eq, List.append_assoc _ [_]]
    rfl

theorem buildBody_eq (system : Option String) (H : List Message) : buildBody bytes system H =
    (system.map ChatMessage.system).toList ++
      H.flatMap fun m => (gathered bytes m).messages ++ restOf m.role (gathered bytes m) := by
  unfold buildBody
  generalize (system.map ChatMessage.system).toList = messages
  induction H generalizing messages with
  | nil => exact (List.append_nil messages).symm
  | cons m H ih => rw [List.foldl_cons, ih, addMessage_eq, List.flatMap_cons, List.append_assoc]

/-! ## How it is read -/

def answerIds (bytes : ArtifactBytes) (m : Message) : List String :=
  (gathered bytes m).messages.map fun w => w.toolCallId.getD ""

/-- What the reader makes of the messages behind them. -/
def sayingsOf (bytes : ArtifactBytes) (m : Message) : List (Said String) :=
  (restOf m.role (gathered bytes m)).map ChatMessage.saying

/-- Every artifact of a result is sent along. -/
def Inlined (bytes : ArtifactBytes) (m : Message) : Prop :=
  ∀ p ∈ m.parts, ∀ a ∈ resultArtifacts p, (bytes a.id).isSome = true

theorem notes_eq_nil_iff :
    notes bytes as = [] ↔ ∀ a ∈ as, (bytes a.id).isSome = true := by
  rw [notes, List.map_eq_nil_iff, List.filter_eq_nil_iff]
  refine forall₂_congr fun a _ => ?_
  rw [← Option.not_isSome, Bool.not_eq_true', Bool.not_eq_false]

theorem map_saying_messages : (gathered bytes m).messages.map ChatMessage.saying =
    (answerIds bytes m).map .answer := by
  rw [answerIds, List.map_map]
  refine List.map_congr_left fun w hw => ?_
  obtain ⟨p, -, hp⟩ := List.mem_flatMap.mp hw
  cases p with
  | toolResult result =>
    obtain ⟨t, -, rfl⟩ := List.mem_map.mp hp
    rfl
  | text _ | toolCall _ | thinking _ _ | subAgentResult _ | artifact _ =>
    cases hp

theorem answerIds_eq_flatMap : answerIds bytes m = m.parts.flatMap fun p =>
    p.resultId?.toList.flatMap fun id =>
      List.replicate ((notes bytes (resultArtifacts p)).length + 1) id := by
  unfold answerIds gathered
  rw [List.map_flatMap]
  refine List.flatMap_congr fun p _ => ?_
  cases p with
  | toolResult result =>
    show List.map _ (List.map _ (result.output :: notes bytes result.artifacts)) =
      List.replicate _ result.toolCallId ++ []
    rw [List.map_map, List.append_nil]
    exact List.map_const'
  | text _ | toolCall _ | thinking _ _ | subAgentResult _ | artifact _ => rfl

theorem answerIds_of_inlined (h : Inlined bytes m) : answerIds bytes m = m.resultIds := by
  rw [answerIds_eq_flatMap, Message.resultIds, List.filterMap_eq_flatMap_toList]
  refine List.flatMap_congr fun p hp => ?_
  rw [notes_eq_nil_iff.mpr (h p hp)]
  cases p.resultId? <;> rfl

theorem inlined_of_nodup (h : (answerIds bytes m).Nodup) : Inlined bytes m := by
  intro p hp
  rw [answerIds_eq_flatMap] at h
  have hone := (List.nodup_flatMap.mp h).1 p hp
  cases p with
  | toolResult result =>
    have hnodup : (List.replicate ((notes bytes result.artifacts).length + 1)
        result.toolCallId).Nodup := by
      rw [← List.append_nil (List.replicate _ _)]
      exact hone
    have hlength := Nat.le_of_succ_le_succ (List.nodup_replicate.mp hnodup)
    exact notes_eq_nil_iff.mp (List.eq_nil_of_length_eq_zero (Nat.le_zero.mp hlength))
  | text _ | toolCall _ | thinking _ _ | subAgentResult _ | artifact _ =>
    exact fun a ha => absurd ha List.not_mem_nil

theorem callIds_eq_map (bytes : ArtifactBytes) (m : Message) :
    m.callIds = (gathered bytes m).toolCalls.map (·.id) := by
  unfold Message.callIds gathered
  rw [List.map_filterMap]
  refine List.filterMap_congr fun p _ => ?_
  cases p <;> rfl

theorem text_gathered : (gathered bytes m).text = textsOf bytes false m := by
  unfold gathered textsOf
  show String.join _ = _
  induction m.parts with
  | nil => rfl
  | cons p parts ih =>
    rw [List.map_cons, String.join_cons, ih, waitingText]
    cases h : isResult p with
    | true => simp [h]
    | false => simp [h]

theorem attachments_eq_nil_iff {deferred : List ChatContentPart} :
    attachments deferred = [] ↔ deferred = [] := by
  rw [attachments, flushDeferred, List.nil_append]
  cases deferred with
  | nil => exact iff_of_true rfl rfl
  | cons part parts => exact iff_of_false (List.cons_ne_nil _ _) (List.cons_ne_nil _ _)

theorem gathered_media_eq_nil_iff :
    (gathered bytes m).media = [] ∧ (gathered bytes m).deferred = [] ↔
      ¬ ∃ p ∈ m.parts, ∃ a ∈ resultArtifacts p ++ (ownArtifact? p).toList,
        (bytes a.id).isSome = true := by
  show shown bytes _ = [] ∧ shown bytes _ = [] ↔ _
  rw [shown_eq_nil_iff, shown_eq_nil_iff]
  constructor
  · rintro ⟨hown, hresult⟩ ⟨p, hp, a, ha, hsome⟩
    rw [← Option.not_isNone, Bool.not_eq_true'] at hsome
    rcases List.mem_append.mp ha with ha | ha
    · rw [hresult a (List.mem_flatMap.mpr ⟨p, hp, ha⟩)] at hsome
      cases hsome
    · rw [hown a (List.mem_filterMap.mpr ⟨p, hp, Option.mem_toList.mp ha⟩)] at hsome
      cases hsome
  · intro hnone
    have hall : ∀ p ∈ m.parts, ∀ a ∈ resultArtifacts p ++ (ownArtifact? p).toList,
        (bytes a.id).isNone = true := by
      intro p hp a ha
      rw [← Option.not_isSome, Bool.not_eq_true', ← Bool.not_eq_true]
      exact fun hsome => hnone ⟨p, hp, a, ha, hsome⟩
    constructor
    · intro a ha
      obtain ⟨p, hp, hpa⟩ := List.mem_filterMap.mp ha
      exact hall p hp a (List.mem_append_right _ (Option.mem_toList.mpr hpa))
    · intro a ha
      obtain ⟨p, hp, hpa⟩ := List.mem_flatMap.mp ha
      exact hall p hp a (List.mem_append_left _ hpa)

theorem restOf_eq_nil_iff : restOf m.role (gathered bytes m) = [] ↔ ¬ Loud bytes m := by
  have hcalls : (gathered bytes m).toolCalls = [] ↔ m.callIds = [] := by
    rw [callIds_eq_map bytes m, List.map_eq_nil_iff]
  have hempty : ((gathered bytes m).text.isEmpty && (gathered bytes m).toolCalls.isEmpty &&
      (gathered bytes m).media.isEmpty) = true ↔ ((gathered bytes m).text = "" ∧
        (gathered bytes m).toolCalls = []) ∧ (gathered bytes m).media = [] := by
    rw [Bool.and_eq_true, Bool.and_eq_true, String.isEmpty_iff, List.isEmpty_iff, List.isEmpty_iff]
  rw [restOf, List.append_eq_nil_iff, attachments_eq_nil_iff, Loud, ← text_gathered, not_or,
    not_or, not_not, not_not, ← hcalls, ← gathered_media_eq_nil_iff, ← and_assoc, ← and_assoc,
    and_congr_left_iff, ← hempty]
  intro _
  split_ifs with h
  · exact iff_of_true rfl h
  · exact iff_of_false not_false h

theorem mem_attachments {deferred : List ChatContentPart} {w : ChatMessage}
    (h : w ∈ attachments deferred) :
    w = ⟨.user, some (.parts (.text attachmentText :: deferred)), none, none⟩ := by
  rw [attachments, flushDeferred, List.nil_append] at h
  split_ifs at h with hempty
  · cases h
  · exact List.mem_singleton.mp h

/-- What a message of the user or of a tool says besides answers makes no calls. -/
theorem saying_of_mem_restOf {role : Role} {g : Gathering} {w : ChatMessage}
    (hrole : role ≠ .assistant) (h : w ∈ restOf role g) : w.saying = .other [] := by
  rcases List.mem_append.mp h with h | h
  · split_ifs at h with hempty
    · cases h
    · rw [List.mem_singleton.mp h]
      cases role with
      | assistant => exact absurd rfl hrole
      | user | tool => rfl
  · rw [mem_attachments h]
    rfl

theorem deferredOf_of_resultIds (h : m.resultIds = []) : deferredOf bytes m = [] := by
  refine shown_eq_nil_iff.mpr fun a ha => ?_
  obtain ⟨p, hp, hpa⟩ := List.mem_flatMap.mp ha
  have hnone := List.filterMap_eq_nil_iff.mp h p hp
  cases p with
  | toolResult result => cases hnone
  | text _ | toolCall _ | thinking _ _ | subAgentResult _ | artifact _ =>
    cases hpa

/-- A message without results is one message with its calls, or none where it makes none. -/
theorem sayingsOf_of_resultIds (h : m.resultIds = []) :
    sayingsOf bytes m = [] ∧ Agent.assistantCalls m = [] ∨
      sayingsOf bytes m = [.other (Agent.assistantCalls m)] := by
  have hdeferred : (gathered bytes m).deferred = [] := deferredOf_of_resultIds h
  have hcalls := callIds_eq_map bytes m
  rw [sayingsOf, restOf, hdeferred]
  split_ifs with hempty
  · left
    rw [Bool.and_eq_true, Bool.and_eq_true, List.isEmpty_iff] at hempty
    rw [hempty.1.2] at hcalls
    refine ⟨rfl, ?_⟩
    rw [Agent.assistantCalls, hcalls]
    cases m.role <;> rfl
  · right
    show [(wireMessage m.role (gathered bytes m)).saying] = _
    rw [Agent.assistantCalls, hcalls, ChatMessage.saying, wireMessage]
    cases m.role with
    | user | tool => rfl
    | assistant =>
      show [Said.other _] = [Said.other _]
      cases (gathered bytes m).toolCalls <;> rfl

theorem writes : Lib.Writes toolExchange (answerIds bytes) (sayingsOf bytes) (Inlined bytes)
    (Loud bytes) where
  answers _ := answerIds_of_inlined
  doubled _ := mt inlined_of_nodup
  reply m hreply s hs := by
    obtain ⟨w, hw, rfl⟩ := List.mem_map.mp hs
    have hrole : m.role = .tool := of_decide_eq_true hreply
    exact saying_of_mem_restOf (by rw [hrole]; decide) hw
  loud m _ := by rw [sayingsOf, List.map_eq_nil_iff, restOf_eq_nil_iff]
  other _ _ := sayingsOf_of_resultIds

/-! ## The texts -/

theorem join_singleton (s : String) : String.join [s] = s := by
  rw [String.join_cons, String.join_nil, String.append_empty]

theorem readText_messages :
    String.join ((gathered bytes m).messages.map ChatMessage.readText) = textsOf bytes true m := by
  unfold gathered textsOf
  show String.join (List.map _ (m.parts.flatMap _)) = _
  induction m.parts with
  | nil => rfl
  | cons p parts ih =>
    rw [List.flatMap_cons, List.map_append, String.join_append, ih]
    cases p with
    | toolResult result =>
      have hread : ((result.output :: notes bytes result.artifacts).map
          (ChatMessage.tool result.toolCallId)).map ChatMessage.readText =
            result.output :: notes bytes result.artifacts := by
        rw [List.map_map]
        exact List.map_id _
      rw [toolMessages, hread, String.join_cons, List.filter_cons_of_pos rfl, List.map_cons,
        String.join_cons]
      rfl
    | text _ | toolCall _ | thinking _ _ | subAgentResult _ | artifact _ =>
      exact String.empty_append

theorem join_readText_shown (as : List ArtifactRef) :
    String.join ((shown bytes as).map ChatContentPart.readText) = "" := by
  have hempty : ∀ part ∈ shown bytes as, part.readText = "" := fun _ => readText_of_mem_shown
  generalize shown bytes as = parts at hempty
  induction parts with
  | nil => rfl
  | cons part parts ih =>
    rw [List.map_cons, String.join_cons, hempty part List.mem_cons_self, String.empty_append]
    exact ih fun part' hpart => hempty part' (List.mem_cons_of_mem _ hpart)

theorem readText_wireMessage :
    (wireMessage m.role (gathered bytes m)).readText = (gathered bytes m).text := by
  have hmedia : String.join ((gathered bytes m).media.map ChatContentPart.readText) = "" :=
    join_readText_shown _
  unfold wireMessage ChatMessage.readText chatContent
  generalize (gathered bytes m).media = media at hmedia ⊢
  generalize (gathered bytes m).text = text
  by_cases hm : media.isEmpty = true
  · rw [if_pos hm]
    by_cases ht : text.isEmpty = true
    · rw [if_pos ht, String.isEmpty_iff.mp ht]
    · rw [if_neg ht]
  · rw [if_neg hm]
    show String.join (List.map _ (_ ++ media)) = text
    rw [List.map_append, String.join_append, hmedia, String.append_empty]
    by_cases ht : text.isEmpty = true
    · rw [if_pos ht, String.isEmpty_iff.mp ht]
      rfl
    · rw [if_neg ht]
      exact join_singleton text

theorem readText_attachments : String.join
    ((attachments (gathered bytes m).deferred).map ChatMessage.readText) =
      if deferredOf bytes m = [] then "" else attachmentText := by
  show String.join ((attachments (deferredOf bytes m)).map _) = _
  have hshown : String.join ((deferredOf bytes m).map ChatContentPart.readText) = "" :=
    join_readText_shown _
  rw [attachments, flushDeferred, List.nil_append]
  by_cases h : deferredOf bytes m = []
  · rw [if_pos h, if_pos (List.isEmpty_iff.mpr h)]
    rfl
  · rw [if_neg h, if_neg (mt List.isEmpty_iff.mp h)]
    rw [List.map_singleton, join_singleton]
    show String.join (attachmentText :: _) = attachmentText
    rw [String.join_cons, hshown, String.append_empty]

theorem readText_restOf : String.join
    ((restOf m.role (gathered bytes m)).map ChatMessage.readText) =
      textsOf bytes false m ++ if deferredOf bytes m = [] then "" else attachmentText := by
  rw [restOf, List.map_append, String.join_append, readText_attachments, ← text_gathered]
  congr 1
  split_ifs with h
  · rw [Bool.and_eq_true, Bool.and_eq_true, String.isEmpty_iff] at h
    exact h.1.1.symm
  · rw [List.map_singleton, join_singleton, readText_wireMessage]

theorem length_textsOf : (textsOf bytes true m ++ textsOf bytes false m).length =
    (String.join (m.parts.map (partText bytes))).length := by
  rw [textsOf, textsOf, ← String.join_append, ← List.map_append, String.length_join,
    String.length_join]
  refine ((List.Perm.map _ ?_).map _).sum_nat
  have hnot : (fun p => isResult p == false) = fun p => ! isResult p := by
    funext p
    cases isResult p <;> rfl
  have hsame : (fun p => isResult p == true) = isResult := by
    funext p
    cases isResult p <;> rfl
  rw [hnot, hsame]
  exact List.filter_append_perm isResult m.parts

theorem readText_written : String.join (((gathered bytes m).messages ++
    restOf m.role (gathered bytes m)).map ChatMessage.readText) =
      textsOf bytes true m ++ textsOf bytes false m ++
        if deferredOf bytes m = [] then "" else attachmentText := by
  rw [List.map_append, String.join_append, readText_messages, readText_restOf, String.append_assoc]

/-- Joined texts of the same lengths are the same only if each is. -/
theorem join_map_eq_iff {α : Type} {f g : α → String} {l : List α}
    (hlength : ∀ a ∈ l, (f a).length = (g a).length) :
    String.join (l.map f) = String.join (l.map g) ↔ ∀ a ∈ l, f a = g a := by
  refine ⟨fun h => ?_, fun h => congrArg String.join (List.map_congr_left h)⟩
  induction l with
  | nil => exact fun a ha => absurd ha List.not_mem_nil
  | cons a l ih =>
    obtain ⟨hhere, hbehind⟩ := List.forall_mem_cons.mp hlength
    rw [List.map_cons, List.map_cons, String.join_cons, String.join_cons, ← String.toList_inj,
      String.toList_append, String.toList_append] at h
    obtain ⟨hfirst, hothers⟩ := List.append_inj h hhere
    exact List.forall_mem_cons.mpr ⟨String.toList_inj.mp hfirst,
      ih hbehind (String.toList_inj.mp hothers)⟩

theorem readText_buildBody_iff {system : Option String} {H : List Message} :
    String.join ((buildBody bytes system H).map ChatMessage.readText) =
      system.getD "" ++ String.join (H.map (historyText bytes)) ↔
    ∀ m ∈ H, textsOf bytes true m ++ textsOf bytes false m =
      String.join (m.parts.map (partText bytes)) := by
  have hsystem : String.join ((system.map ChatMessage.system).toList.map ChatMessage.readText) =
      system.getD "" := by
    cases system with
    | none => rfl
    | some text => exact join_singleton text
  have hread : String.join ((H.flatMap fun m => (gathered bytes m).messages ++
      restOf m.role (gathered bytes m)).map ChatMessage.readText) =
        String.join (H.map fun m => textsOf bytes true m ++ textsOf bytes false m ++
          if deferredOf bytes m = [] then "" else attachmentText) := by
    induction H with
    | nil => rfl
    | cons m H ih =>
      rw [List.flatMap_cons, List.map_append, String.join_append, ih, readText_written,
        List.map_cons, String.join_cons]
  rw [buildBody_eq, List.map_append, String.join_append, hsystem, hread, String.append_right_inj,
    join_map_eq_iff fun m _ => by
      rw [historyText, String.length_append, String.length_append _ (ite _ _ _), length_textsOf]]
  exact forall₂_congr fun m _ => String.append_left_inj _

theorem chatBody_wellFormed_iff (bytes : ArtifactBytes) (system : Option String) (H : List Message)
    (h : AnsweredOnce toolExchange H) :
    WellFormed bytes system H (buildBody bytes system H) ↔ Keeps bytes H := by
  have hpaired : Strict [] ((buildBody bytes system H).map ChatMessage.saying) ↔
      (∀ m ∈ H, Inlined bytes m) ∧ PlacedFrom toolExchange [] H ∧
        Quiet toolExchange (Loud bytes) H := by
    have hsaid : H.flatMap (Lib.said (answerIds bytes) (sayingsOf bytes)) =
        (H.flatMap fun m => (gathered bytes m).messages ++
          restOf m.role (gathered bytes m)).map ChatMessage.saying := by
      rw [List.map_flatMap]
      refine List.flatMap_congr fun m _ => ?_
      rw [List.map_append, map_saying_messages]
      rfl
    rw [← Lib.strict_iff writes (.start H) h, hsaid, buildBody_eq]
    cases system with
    | none => rfl
    | some text => exact and_iff_right rfl
  constructor
  · intro hwire
    obtain ⟨hinlined, hplaced, hquiet⟩ := hpaired.mp hwire.paired
    exact ⟨hinlined, hplaced, hquiet, readText_buildBody_iff.mp hwire.texts⟩
  · intro hkeeps
    exact ⟨hpaired.mpr ⟨hkeeps.inlined, hkeeps.placed, hkeeps.quiet⟩,
      readText_buildBody_iff.mpr hkeeps.ordered⟩

end

/-- A turn with two calls, the later one answered with an image. -/
def pictured : List Message :=
  [⟨"m1", .assistant, [.toolCall ⟨"c1", "read", .null⟩, .toolCall ⟨"c2", "draw", .null⟩], 0, none⟩,
    .toolResult "c1" "text" false [] 0,
    .toolResult "c2" "drawn" false [⟨"a1", "image/png", .image none none, 9, none⟩] 0,
    ⟨"m2", .user, [.text "thanks"], 0, none⟩]

theorem answeredOnce_pictured : AnsweredOnce toolExchange pictured :=
  .cons (by decide) (.cons (by decide) (.cons (by decide) (.cons (by decide) Lib.answeredOnce_nil)))

/-- With the image sent along the results stay together. -/
theorem chatBody_wellFormed_pictured : AnsweredOnce toolExchange pictured ∧
    WellFormed (fun _ => some "data") none pictured
      (buildBody (fun _ => some "data") none pictured) := by
  refine ⟨answeredOnce_pictured,
    (chatBody_wellFormed_iff _ none pictured answeredOnce_pictured).mpr ⟨?_, ?_, ?_, ?_⟩⟩
  · exact fun _ _ _ _ _ _ => rfl
  · refine ⟨rfl, by decide, by decide, rfl, trivial⟩
  · refine ⟨(fun h => by cases h), fun _ hloud => ?_, fun _ _ => rfl, (fun h => by cases h),
      trivial⟩
    rcases hloud with htext | hcalls | ⟨p, hp, a, ha, -⟩
    · exact absurd rfl htext
    · exact absurd rfl hcalls
    · rw [List.mem_singleton.mp hp] at ha
      cases ha
  · decide

/-- An image that is not sent along is told of in a second answer to its call. -/
theorem chatBody_answers_twice : ¬ ∀ (bytes : ArtifactBytes) (system : Option String)
    (H : List Message), AnsweredOnce toolExchange H →
      WellFormed bytes system H (buildBody bytes system H) := by
  intro h
  have hwire := h (fun _ => none) none pictured answeredOnce_pictured
  exact absurd hwire.paired (by decide +kernel)

end Horsie.LlmProviders
