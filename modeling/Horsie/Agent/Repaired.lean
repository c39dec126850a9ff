import Horsie.Agent.Repair

/-!
# What a repair leaves

The repair of a history as a whole: nothing is taken out of it, every open call of an assistant gets
a result behind the results its message has already, and a repaired history stays as it is. A tool
call in a message that is no assistant's is passed over.
-/

namespace Horsie.Agent

/-- The calls of assistants, of these messages, that are neither answered nor about to be. -/
def openCalls (known : List String) (messages : List Message) : List String :=
  (messages.flatMap assistantCalls).filter fun id => decide (id ∉ known)

/-- What a repair of a history with `answering` about to be answered is to be. -/
structure Repaired (messages : List Message) (answering : List String) (now : ℕ)
    (out : List Message) : Prop where
  kept : messages.Sublist out
  answered : ∀ m ∈ messages, m.role = .assistant → ∀ id ∈ m.callIds, id ∉ answering →
    id ∈ answeredIds out
  /-- What a message is due comes after the tool messages that follow it, and what is before and
  after it is due has its place there. -/
  placed : ∀ (p run rest : List Message) (m : Message), messages = p ++ m :: (run ++ rest) →
    m.role = .assistant → (∀ r ∈ run, r.role = .tool) → (∀ r ∈ rest.head?, r.role ≠ .tool) →
    ∃ before after, out = before ++ m :: (run ++
        (openCalls (answeredIds messages ++ answering) [m]).map (syntheticResult now) ++ after) ∧
      p.Sublist before ∧ rest.Sublist after ∧
      before.length =
        p.length + (openCalls (answeredIds messages ++ answering) p).length ∧
      after.length =
        rest.length + (openCalls (answeredIds messages ++ answering) rest).length
  unneeded : (∀ m ∈ messages, ∀ id ∈ m.callIds, id ∈ answeredIds messages ∨ id ∈ answering) →
    out = messages
  twice : ∀ now', repairDangling out answering now' = out

section

variable {messages : List Message} {answering : List String} {now : ℕ} {id : String} {m : Message}

theorem assistantCalls_of_assistant (h : m.role = .assistant) : assistantCalls m = m.callIds := by
  unfold assistantCalls
  rw [h]

theorem assistantCalls_subset : assistantCalls m ⊆ m.callIds := by
  unfold assistantCalls
  intro id hid
  cases hrole : m.role with
  | assistant =>
    rw [hrole] at hid
    exact hid
  | user | tool =>
    rw [hrole] at hid
    cases hid

theorem filter_not_known (known : List String) (l : List Message) :
    (toolExchange.allCalls l).filter (fun c => !decide (c ∈ known)) = openCalls known l :=
  List.filter_congr fun _ _ => decide_not.symm

theorem mem_answeredIds_repair : id ∈ answeredIds (repairDangling messages answering now) ↔
    id ∈ answeredIds messages ∨ id ∈ openCalls (answeredIds messages ++ answering) messages := by
  have hcount : (answeredIds (repairDangling messages answering now)).count id =
      (answeredIds messages).count id +
        (openCalls (answeredIds messages ++ answering) messages).count id := by
    rw [repairDangling_eq_mend, ← filter_not_known]
    exact Lib.Exchange.count_allAnswers_mend (X := toolExchange) (fun _ => rfl) messages id
  rw [← List.count_pos_iff, ← List.count_pos_iff, ← List.count_pos_iff, hcount]
  exact Nat.add_pos_iff_pos_or_pos

theorem repairDangling_of_known (h : ∀ id ∈ messages.flatMap assistantCalls,
    id ∈ answeredIds messages ∨ id ∈ answering) :
    repairDangling messages answering now = messages := by
  rw [repairDangling_eq_mend]
  refine Lib.Exchange.mend_of_known fun id hid => ?_
  rw [decide_eq_true_eq, List.mem_append]
  exact h id hid

theorem calls_repairDangling :
    (repairDangling messages answering now).flatMap assistantCalls =
      messages.flatMap assistantCalls := by
  rw [repairDangling_eq_mend]
  exact Lib.Exchange.allCalls_mend (X := toolExchange) (fun _ => rfl) messages

theorem known_of_repaired (hid : id ∈ messages.flatMap assistantCalls) :
    id ∈ answeredIds (repairDangling messages answering now) ∨ id ∈ answering := by
  by_cases hknown : id ∈ answeredIds messages ++ answering
  · rcases List.mem_append.mp hknown with hold | hsoon
    · exact .inl (mem_answeredIds_repair.mpr (.inl hold))
    · exact .inr hsoon
  · refine .inl (mem_answeredIds_repair.mpr (.inr (List.mem_filter.mpr ⟨hid, ?_⟩)))
    exact decide_eq_true hknown

theorem length_mend_eq (known : List String) (l : List Message) :
    (toolExchange.mend (fun c => decide (c ∈ known)) (syntheticResult now) l).length =
      l.length + (openCalls known l).length := by
  rw [Lib.Exchange.length_mend, filter_not_known]

theorem run_eq_nil {l : List Message} (h : ∀ r ∈ l.head?, r.role ≠ .tool) :
    toolExchange.run l = [] := by
  cases l with
  | nil => rfl
  | cons r l =>
    have hr : toolExchange.reply r = false := decide_eq_false (h r rfl)
    unfold Lib.Exchange.run
    rw [List.takeWhile_cons, hr]
    rfl

end

/-- Every history is repaired as it is to be, of whatever ids its calls are. -/
theorem dangling_repaired (messages : List Message) (answering : List String) (now : ℕ) :
    Repaired messages answering now (repairDangling messages answering now) := by
  constructor
  case kept =>
    rw [repairDangling_eq_mend]
    exact Lib.Exchange.sublist_mend messages
  case answered =>
    intro m hm hrole id hid hnot
    rw [← assistantCalls_of_assistant hrole] at hid
    exact (known_of_repaired (List.mem_flatMap.mpr ⟨m, hm, hid⟩)).resolve_right hnot
  case placed =>
    intro p run rest m hmessages hrole hrun hrest
    set known := answeredIds messages ++ answering with hknown
    have hopen : openCalls known [m] = (toolExchange.calls m).filter
        (fun c => !decide (c ∈ known)) := by
      rw [← filter_not_known, Lib.Exchange.allCalls_cons, Lib.Exchange.allCalls_nil,
        List.append_nil]
    have hreplies : run.all toolExchange.reply = true :=
      List.all_eq_true.mpr fun r hr => decide_eq_true (hrun r hr)
    have hasks : toolExchange.run (m :: (run ++ rest)) = [] := by
      refine run_eq_nil fun r hr => ?_
      cases hr
      rw [hrole]
      decide
    refine ⟨toolExchange.mend (fun c => decide (c ∈ known)) (syntheticResult now) p,
      toolExchange.mend (fun c => decide (c ∈ known)) (syntheticResult now) rest, ?_,
      Lib.Exchange.sublist_mend p, Lib.Exchange.sublist_mend rest, length_mend_eq known p,
      length_mend_eq known rest⟩
    rw [repairDangling_eq_mend, ← hknown, hopen]
    nth_rewrite 1 [hmessages]
    rw [Lib.Exchange.mend_append p hasks,
      Lib.Exchange.mend_cons_run m hreplies (run_eq_nil hrest)]
  case unneeded =>
    intro h
    refine repairDangling_of_known fun id hid => ?_
    obtain ⟨m, hm, hcall⟩ := List.mem_flatMap.mp hid
    exact h m hm id (assistantCalls_subset hcall)
  case twice =>
    intro now'
    refine repairDangling_of_known fun id hid => known_of_repaired ?_
    rw [← calls_repairDangling]
    exact hid

/-- A call that a person's message carries is left open. -/
theorem call_passed_over : ¬ ∀ (messages : List Message) (answering : List String) (now : ℕ),
    (messages.flatMap Message.callIds).Nodup → ∀ m ∈ messages, ∀ id ∈ m.callIds, id ∉ answering →
      id ∈ answeredIds (repairDangling messages answering now) := by
  intro h
  have hanswered := h [⟨"m", .user, [.toolCall ⟨"call", "bash", .null⟩], 0, none⟩] [] 0
    (by decide) _ List.mem_cons_self "call" (by decide) (by decide)
  cases hanswered

end Horsie.Agent
