import Horsie.Agent.Inbox
import Mathlib.Data.List.Dedup

/-!
# Out of a park

An agent that asked something is parked until all of its questions are answered, or a person says
something else. Either way every pending call is to get one result. Answers are compared with the
pending calls as sets, and a refusal is written for every question, so neither notices that a call
comes up twice.
-/

namespace Horsie.Agent

def pendingCalls (asks : List AskedQuestion) : List String := asks.filterMap (·.toolCallId)

def resultsFor (results : List ToolResultInput) (id : String) : List ToolResultInput :=
  results.filter (·.toolCallId = id)

/-! ## Answers -/

/-- The answers are to the pending calls, of which none is left out. -/
structure Covers (asks : List AskedQuestion) (answers : List AskAnswer) : Prop where
  pending : pendingCalls asks ≠ []
  complete : ∀ id ∈ pendingCalls asks, id ∈ answers.map (·.toolCallId)
  expected : ∀ id ∈ answers.map (·.toolCallId), id ∈ pendingCalls asks

/-- Each pending call is answered once, and nothing else is. -/
structure AnswersEach (asks : List AskedQuestion) (answers : List AskAnswer) : Prop where
  pending : pendingCalls asks ≠ []
  once : ∀ id ∈ pendingCalls asks, (answers.map (·.toolCallId)).count id = 1
  expected : ∀ id ∈ answers.map (·.toolCallId), id ∈ pendingCalls asks

/-- Answers are accepted if each pending call is answered once and nothing else is, and the turn has
one result for each pending call. -/
structure AnsweredExactly (inbox : List Incoming) (asks : List AskedQuestion)
    (answers : List AskAnswer) : Prop where
  accepts : (∃ turn, answeredTurn inbox asks answers = .ok turn) ↔ AnswersEach asks answers
  results : ∀ turn, answeredTurn inbox asks answers = .ok turn →
    ∀ id ∈ pendingCalls asks, (resultsFor turn.results id).length = 1

section

variable {inbox : List Incoming} {asks : List AskedQuestion} {answers : List AskAnswer}

theorem dedup_filter_isEmpty {l : List String} {p : String → Bool} :
    (l.filter p).dedup.isEmpty = true ↔ ∀ id ∈ l, p id = false := by
  rw [List.isEmpty_iff, List.eq_nil_iff_forall_not_mem]
  simp only [List.mem_dedup, List.mem_filter, not_and, Bool.not_eq_true]

theorem answeredTurn_ok_iff :
    (∃ turn, answeredTurn inbox asks answers = .ok turn) ↔ Covers asks answers := by
  unfold answeredTurn
  dsimp only
  split_ifs with hpending hrefused
  · have hnone : pendingCalls asks = [] := List.isEmpty_iff.mp hpending
    constructor
    · rintro ⟨turn, h⟩
      cases h
    · intro h
      exact absurd hnone h.pending
  · constructor
    · rintro ⟨turn, h⟩
      cases h
    · intro h
      rw [Bool.or_eq_true, Bool.not_eq_true', Bool.not_eq_true', ← Bool.not_eq_true,
        ← Bool.not_eq_true, dedup_filter_isEmpty, dedup_filter_isEmpty] at hrefused
      rcases hrefused with hmissing | hunexpected
      · refine absurd (fun id hid => ?_) hmissing
        exact decide_eq_false (not_not.mpr (h.complete id hid))
      · refine absurd (fun id hid => ?_) hunexpected
        exact decide_eq_false (not_not.mpr (h.expected id hid))
  · rw [Bool.or_eq_true, not_or, Bool.not_eq_true', Bool.not_eq_true', Bool.not_eq_false,
      Bool.not_eq_false, dedup_filter_isEmpty, dedup_filter_isEmpty] at hrefused
    refine ⟨fun _ => ⟨fun hnone => hpending (List.isEmpty_iff.mpr hnone), fun id hid => ?_,
      fun id hid => ?_⟩, fun _ => ⟨_, rfl⟩⟩
    · exact not_not.mp (of_decide_eq_false (hrefused.1 id hid))
    · exact not_not.mp (of_decide_eq_false (hrefused.2 id hid))

theorem length_resultsFor_answers (id : String) :
    (resultsFor (answers.map fun a => ⟨a.toolCallId, a.text, false, []⟩) id).length =
      (answers.map (·.toolCallId)).count id := by
  unfold resultsFor
  rw [← List.countP_eq_length_filter, List.countP_map, List.count, List.countP_map]
  refine List.countP_congr fun a _ => ?_
  simp

/-- Answers that cover the pending calls answer each once as long as none is answered twice. -/
theorem answersEach_iff :
    AnswersEach asks answers ↔ Covers asks answers ∧ (answers.map (·.toolCallId)).Nodup := by
  constructor
  · intro h
    refine ⟨⟨h.pending, fun id hid => ?_, h.expected⟩, List.nodup_iff_count_le_one.mpr fun id => ?_⟩
    · exact List.one_le_count_iff.mp (Nat.le_of_eq (h.once id hid).symm)
    · by_cases hid : id ∈ pendingCalls asks
      · exact Nat.le_of_eq (h.once id hid)
      · rw [List.count_eq_zero_of_not_mem fun hmem => hid (h.expected id hmem)]
        exact Nat.zero_le 1
  · rintro ⟨h, hnodup⟩
    exact ⟨h.pending, fun id hid => List.count_eq_one_of_mem hnodup (h.complete id hid),
      h.expected⟩

end

/-- A park is answered exactly if and only if no call is answered twice where the answers cover what
is pending. -/
theorem answered_exactly_iff (inbox : List Incoming) (asks : List AskedQuestion)
    (answers : List AskAnswer) :
    AnsweredExactly inbox asks answers ↔
      (Covers asks answers → (answers.map (·.toolCallId)).Nodup) := by
  constructor
  · intro h hcovers
    exact (answersEach_iff.mp (h.accepts.mp (answeredTurn_ok_iff.mpr hcovers))).2
  · intro h
    constructor
    · rw [answeredTurn_ok_iff, answersEach_iff]
      exact ⟨fun hcovers => ⟨hcovers, h hcovers⟩, fun heach => heach.1⟩
    · intro turn hturn id hid
      have hcovers := answeredTurn_ok_iff.mp ⟨turn, hturn⟩
      rw [answeredTurn_eq_ok hturn, length_resultsFor_answers]
      exact List.count_eq_one_of_mem (h hcovers) (hcovers.complete id hid)

/-- Two answers to the one pending call are taken. -/
theorem answered_twice : ¬ ∀ inbox asks answers, AnsweredExactly inbox asks answers := by
  intro h
  have hone := (h [] [⟨some "call", "Which?", [], false⟩]
    [⟨"call", "this"⟩, ⟨"call", "that"⟩]).results _ rfl "call" (by decide)
  cases hone

/-! ## A queue that moves on -/

/-- When the queue starts a turn, and what the turn has of it: every item is consumed, the texts in
the order they came, a refusal for each pending call, every sub session that waits, and never
nothing at all. -/
structure QueueRule (inbox : List Incoming) (asks : List AskedQuestion) : Prop where
  waits : queuedTurn inbox asks = none ↔ inbox = [] ∨ asks ≠ [] ∧ ∀ i ∈ inbox, i.isUser = false
  consumed : ∀ turn, queuedTurn inbox asks = some turn → turn.consumed = inbox.map Incoming.id
  message : ∀ turn, queuedTurn inbox asks = some turn →
    (turn.message = none ↔ inbox.filterMap Incoming.text = []) ∧
      ∀ text, turn.message = some text →
        text = mergeSeparator.intercalate (inbox.filterMap Incoming.text)
  superseded : ∀ turn, queuedTurn inbox asks = some turn →
    (∀ id ∈ pendingCalls asks, resultsFor turn.results id = [⟨id, abandonedAskResult, true, []⟩]) ∧
      ∀ r ∈ turn.results, r.toolCallId ∈ pendingCalls asks
  subSessions : ∀ turn, queuedTurn inbox asks = some turn → ∀ i ∈ inbox, ∀ s,
    i.subSession? = some s → ∃ listed, turn.summarise = some (.subSession listed) ∧ s ∈ listed
  notVacuous : ∀ turn, queuedTurn inbox asks = some turn → turn.message.isSome = true ∨
    turn.subagentResults ≠ [] ∨ turn.results ≠ [] ∨ turn.summarise.isSome = true

section

variable {inbox : List Incoming} {asks : List AskedQuestion} {turn : Turn} {i : Incoming}

theorem queuedTurn_eq_none :
    queuedTurn inbox asks = none ↔ inbox = [] ∨ asks ≠ [] ∧ ∀ i ∈ inbox, i.isUser = false := by
  rw [← Option.not_isSome_iff_eq_none, queuedTurn_isSome, not_and_or, not_not, not_or]
  refine or_congr_right (and_congr_right fun _ => ?_)
  simp only [not_exists, not_and, Bool.not_eq_true]

theorem summarise_subSession {s : String} (hi : i ∈ inbox) (hs : i.subSession? = some s) :
    ∃ listed, summarise inbox = some (.subSession listed) ∧ s ∈ listed := by
  have hmem : s ∈ inbox.filterMap Incoming.subSession? := List.mem_filterMap.mpr ⟨i, hi, hs⟩
  refine ⟨inbox.filterMap Incoming.subSession?, ?_, hmem⟩
  unfold summarise
  rw [if_pos]
  rw [Bool.not_eq_true', List.isEmpty_eq_false_iff]
  exact List.ne_nil_of_mem hmem

theorem summarise_compact {instructions : Option String} (hi : i ∈ inbox)
    (hc : i.compact? = some instructions) : (summarise inbox).isSome = true := by
  unfold summarise
  dsimp only
  split_ifs
  · rfl
  · rw [Option.isSome_map, List.findSome?_isSome_iff]
    exact ⟨i, List.mem_reverse.mpr hi, by rw [hc]; rfl⟩

theorem drain_message_isSome {text : String} (hi : i ∈ inbox) (ht : i.text = some text) :
    (drain inbox).message.isSome = true := by
  have hmem : text ∈ inbox.filterMap Incoming.text := List.mem_filterMap.mpr ⟨i, hi, ht⟩
  unfold drain
  dsimp only
  rw [if_pos]
  · rfl
  · rw [Bool.not_eq_true', List.isEmpty_eq_false_iff]
    exact List.ne_nil_of_mem hmem

theorem drain_not_vacuous (h : inbox ≠ []) : (drain inbox).message.isSome = true ∨
    (drain inbox).subagentResults ≠ [] ∨ (drain inbox).summarise.isSome = true := by
  obtain ⟨i, hi⟩ := List.exists_mem_of_ne_nil inbox h
  cases i with
  | user id text artifacts => exact .inl (drain_message_isSome hi rfl)
  | timer id message => exact .inl (drain_message_isSome hi rfl)
  | continue_ id reason => exact .inl (drain_message_isSome hi rfl)
  | subAgent id part =>
    exact .inr (.inl (List.ne_nil_of_mem (List.mem_filterMap.mpr ⟨_, hi, rfl⟩)))
  | compact id instructions => exact .inr (.inr (summarise_compact hi rfl))
  | subSession id s =>
    obtain ⟨listed, hlisted, -⟩ := summarise_subSession hi rfl
    exact .inr (.inr (Option.isSome_iff_exists.mpr ⟨_, hlisted⟩))

theorem drain_message (text : String) (h : (drain inbox).message = some text) :
    text = mergeSeparator.intercalate (inbox.filterMap Incoming.text) := by
  unfold drain at h
  dsimp only at h
  split_ifs at h
  exact (Option.some.inj h).symm

theorem drain_message_eq_none :
    (drain inbox).message = none ↔ inbox.filterMap Incoming.text = [] := by
  unfold drain
  dsimp only
  split_ifs with h
  · rw [Bool.not_eq_true', List.isEmpty_eq_false_iff] at h
    exact ⟨(fun hnone => by cases hnone), fun hnil => absurd hnil h⟩
  · rw [Bool.not_eq_true', List.isEmpty_eq_false_iff, not_not] at h
    exact ⟨fun _ => h, fun _ => rfl⟩

theorem resultsFor_abandoned (ids : List String) (id : String) :
    resultsFor (ids.map fun id => ⟨id, abandonedAskResult, true, []⟩) id =
      List.replicate (ids.count id) ⟨id, abandonedAskResult, true, []⟩ := by
  unfold resultsFor
  rw [List.filter_map]
  induction ids with
  | nil => rfl
  | cons a ids ih =>
    by_cases ha : a = id
    · subst ha
      simpa [List.replicate_succ] using ih
    · simpa [ha] using ih

end

/-- The queue rule holds if and only if no two of the pending questions are of one call, where a
person's message is queued. -/
theorem queue_rule_iff (inbox : List Incoming) (asks : List AskedQuestion) :
    QueueRule inbox asks ↔
      ((∃ i ∈ inbox, i.isUser = true) → (pendingCalls asks).Nodup) := by
  constructor
  · rintro h ⟨i, hi, huser⟩
    obtain ⟨turn, hturn⟩ := Option.isSome_iff_exists.mp
      (queuedTurn_isSome.mpr ⟨List.ne_nil_of_mem hi, .inr ⟨i, hi, huser⟩⟩)
    refine List.nodup_iff_count_le_one.mpr fun id => ?_
    by_cases hid : id ∈ pendingCalls asks
    · have hone := (h.superseded turn hturn).1 id hid
      rw [queuedTurn_eq_some hturn] at hone
      have hlength := congrArg List.length ((resultsFor_abandoned (pendingCalls asks) id).symm.trans
        hone)
      rw [List.length_replicate] at hlength
      exact Nat.le_of_eq hlength
    · rw [List.count_eq_zero_of_not_mem hid]
      exact Nat.zero_le 1
  · intro h
    have hnodup {turn : Turn} (hturn : queuedTurn inbox asks = some turn) :
        (pendingCalls asks).Nodup := by
      obtain ⟨-, hnone | huser⟩ := queuedTurn_isSome.mp (Option.isSome_iff_exists.mpr ⟨turn, hturn⟩)
      · rw [hnone]
        exact List.nodup_nil
      · exact h huser
    constructor
    case waits => exact queuedTurn_eq_none
    case consumed =>
      intro turn hturn
      rw [queuedTurn_eq_some hturn]
      rfl
    case message =>
      intro turn hturn
      rw [queuedTurn_eq_some hturn]
      exact ⟨drain_message_eq_none, drain_message⟩
    case superseded =>
      intro turn hturn
      rw [queuedTurn_eq_some hturn]
      refine ⟨fun id hid => ?_, fun r hr => ?_⟩
      · refine (resultsFor_abandoned (pendingCalls asks) id).trans ?_
        rw [List.count_eq_one_of_mem (hnodup hturn) hid]
        rfl
      · obtain ⟨id, hid, rfl⟩ := List.mem_map.mp hr
        exact hid
    case subSessions =>
      intro turn hturn i hi s hs
      rw [queuedTurn_eq_some hturn]
      exact summarise_subSession hi hs
    case notVacuous =>
      intro turn hturn
      obtain ⟨hne, -⟩ := queuedTurn_isSome.mp (Option.isSome_iff_exists.mpr ⟨turn, hturn⟩)
      rw [queuedTurn_eq_some hturn]
      rcases drain_not_vacuous hne with hmessage | hreports | hsummary
      · exact .inl hmessage
      · exact .inr (.inl hreports)
      · exact .inr (.inr (.inr hsummary))

/-- Two questions of one call are both refused, and the call gets two results. -/
theorem refused_twice : ¬ ∀ inbox asks, QueueRule inbox asks := by
  intro h
  have hone := ((h [.user "m" "never mind" []]
    [⟨some "call", "Which?", [], false⟩, ⟨some "call", "Where?", [], false⟩]).superseded
      _ rfl).1 "call" (by decide)
  exact absurd (congrArg List.length hone) (by decide)

end Horsie.Agent
