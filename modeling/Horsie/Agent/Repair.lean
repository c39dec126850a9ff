import Horsie.Agent.Message
import Horsie.Lib.Exchange

/-!
# Repair

What a dead process left dangling. `missingToolResults` are the synthetic results a history is
missing, as messages to journal at its end; `repairDangling` is the history to put on the wire,
each synthetic result where the provider expects it. The repair is `Exchange.mend` for the
exchange of tool calls and tool results (`repairDangling_eq_mend`).
-/

namespace Horsie.Agent

/-- What a synthetic result says stands in for a tool call that never finished. -/
def interruptedResult : String := "interrupted, no result was recorded"

def assistantCalls (m : Message) : List String :=
  match m.role with
  | .assistant => m.callIds
  | .user | .tool => []

def answeredIds (messages : List Message) : List String := messages.flatMap Message.resultIds

def syntheticResult (now : ℕ) (id : String) : Message :=
  .toolResult id interruptedResult true [] now

/-- The synthetic results a history is missing, in call order. A call the agent is parked on is
exempt. -/
def missingToolResults (messages : List Message) (parkedOn : List String) (now : ℕ) :
    List Message :=
  let answered := answeredIds messages
  let dangling := (messages.flatMap assistantCalls).filter fun id =>
    decide (id ∉ answered) && decide (id ∉ parkedOn)
  dangling.map (syntheticResult now)

/-- Where a synthetic result is due, and for which calls, in the messages from index `i` on: past
the results that follow the message that made the calls. -/
def repairs (answered : List String) : ℕ → List Message → List (ℕ × List String)
  | _, [] => []
  | i, m :: rest =>
    let dangling := (assistantCalls m).filter (· ∉ answered)
    let at_ := i + 1 + (rest.takeWhile (·.role = .tool)).length
    (if dangling.isEmpty then [] else [(at_, dangling)]) ++ repairs answered (i + 1) rest

/-- The calls to answer in front of index `i`. -/
def repairsAt (rs : List (ℕ × List String)) (i : ℕ) : List String :=
  (rs.filter (·.1 = i)).flatMap (·.2)

/-- The messages from index `i` on, with what `due` says in front of each and past the end. -/
def insertDue (due : ℕ → List Message) : ℕ → List Message → List Message
  | i, [] => due i
  | i, m :: rest => due i ++ m :: insertDue due (i + 1) rest

/-- Make a history well-formed for the provider: every call that is neither answered in it nor
about to be answered gets a synthetic result. -/
def repairDangling (messages : List Message) (answering : List String) (now : ℕ) : List Message :=
  let answered := answeredIds messages ++ answering
  let rs := repairs answered 0 messages
  if rs.isEmpty then
    messages
  else
    insertDue (fun i => (repairsAt rs i).map (syntheticResult now)) 0 messages

/-! ## The exchange of tool calls and tool results -/

def toolExchange : Lib.Exchange Message String where
  calls := assistantCalls
  answers := Message.resultIds
  reply m := m.role = .tool
  calls_of_reply m hm := by
    have : m.role = .tool := of_decide_eq_true hm
    simp [assistantCalls, this]

theorem answeredIds_append (l l' : List Message) :
    answeredIds (l ++ l') = answeredIds l ++ answeredIds l' := List.flatMap_append

variable {due : ℕ → List Message}

theorem insertDue_nil_due (h : ∀ i, due i = []) (i : ℕ)
    (l : List Message) : insertDue due i l = l := by
  induction l generalizing i with
  | nil => exact h i
  | cons m l ih => rw [insertDue, h, ih, List.nil_append]

variable {due' : ℕ → List Message}

theorem insertDue_congr (i : ℕ) (l : List Message)
    (h : ∀ j, i ≤ j → due j = due' j) : insertDue due i l = insertDue due' i l := by
  induction l generalizing i with
  | nil => exact h i le_rfl
  | cons m l ih => rw [insertDue, insertDue, h i le_rfl, ih (i + 1) fun j hj => h j (by omega)]

theorem insertDue_append (i : ℕ) (p l : List Message)
    (h : ∀ j, i ≤ j → j < i + p.length → due j = []) :
    insertDue due i (p ++ l) = p ++ insertDue due (i + p.length) l := by
  induction p generalizing i with
  | nil => rfl
  | cons m p ih =>
    have hrest := ih (i + 1) fun j hj hlt => h j (by omega) (by simp only [List.length_cons]; omega)
    rw [List.cons_append, insertDue, h i le_rfl (by simp), hrest, List.length_cons,
      show i + 1 + p.length = i + (p.length + 1) by omega]
    rfl

theorem insertDue_head (i : ℕ) (l : List Message)
    (h' : due' i = []) (h : ∀ j, i < j → due j = due' j) :
    insertDue due i l = due i ++ insertDue due' i l := by
  cases l with
  | nil => rw [insertDue, insertDue, h', List.append_nil]
  | cons m l =>
    rw [insertDue, insertDue, h', List.nil_append, insertDue_congr (i + 1) l fun j hj => h j hj]

variable {i : ℕ}

/-- A repair is due past the message that made the calls and the results that follow it. -/
theorem repairs_le {answered : List String} {l : List Message} :
    ∀ r ∈ repairs answered i l, i + (l.takeWhile (·.role = .tool)).length < r.1 := by
  induction l generalizing i with
  | nil => exact fun r hr => absurd hr List.not_mem_nil
  | cons m l ih =>
    intro r hr
    rcases List.mem_append.mp hr with hr | hr
    · split_ifs at hr with hd
      · cases hr
      · obtain rfl := List.mem_singleton.mp hr
        have hm : ¬m.role = .tool := by
          intro hm
          simp [assistantCalls, hm] at hd
        rw [List.takeWhile_cons, if_neg (by simpa using hm)]
        simp only [List.length_nil]
        omega
    · have hlt := ih r hr
      rw [List.takeWhile_cons]
      split <;> simp only [List.length_cons, List.length_nil] <;> omega

theorem repairsAt_eq_nil {rs : List (ℕ × List String)} (h : ∀ r ∈ rs, i ≠ r.1) :
    repairsAt rs i = [] := by
  rw [repairsAt, List.filter_eq_nil_iff.mpr fun r hr => by simpa using (h r hr).symm]
  rfl

theorem repairsAt_append (rs rs' : List (ℕ × List String)) (i : ℕ) :
    repairsAt (rs ++ rs') i = repairsAt rs i ++ repairsAt rs' i := by
  simp [repairsAt]

theorem repairsAt_cons (answered : List String) (i : ℕ) (m : Message) (l : List Message) (j : ℕ) :
    repairsAt (repairs answered i (m :: l)) j =
      (if j = i + 1 + (toolExchange.run l).length then
        (assistantCalls m).filter (· ∉ answered) else []) ++
      repairsAt (repairs answered (i + 1) l) j := by
  rw [repairs, repairsAt_append]
  congr 1
  change repairsAt (if _ then [] else [(i + 1 + (toolExchange.run l).length, _)]) j = _
  by_cases hd : (assistantCalls m).filter (· ∉ answered) = []
  · rw [hd]
    simp [repairsAt]
  · rw [if_neg (by simpa using hd)]
    by_cases hj : j = i + 1 + (toolExchange.run l).length
    · simp [repairsAt, hj]
    · simp [repairsAt, hj, Ne.symm hj]

theorem insertDue_run {ds : List Message}
    {run : List Message} (hdue : ∀ j, due j = (if j = i + run.length then ds else []) ++ due' j)
    (hlow : ∀ j, j ≤ i + run.length → due' j = []) (l : List Message) :
    insertDue due i (run ++ l) = run ++ ds ++ insertDue due' (i + run.length) l := by
  rw [insertDue_append i run l, insertDue_head _ l (hlow _ le_rfl), hdue, if_pos rfl,
    hlow _ le_rfl, List.append_nil, List.append_assoc]
  · intro j hj
    rw [hdue, if_neg (by omega), List.nil_append]
  · intro j _ hj
    rw [hdue, if_neg (by omega), hlow j (by omega), List.append_nil]

theorem insertDue_repairs (answered : List String) (now i : ℕ) (l : List Message) :
    insertDue (fun j => (repairsAt (repairs answered i l) j).map (syntheticResult now)) i l =
      toolExchange.mend (fun c => decide (c ∈ answered)) (syntheticResult now) l := by
  induction l generalizing i with
  | nil => rfl
  | cons m l ih =>
    set run := toolExchange.run l with hrun
    set due' := fun j => (repairsAt (repairs answered (i + 1) l) j).map (syntheticResult now)
    set mended := toolExchange.mend (fun c => decide (c ∈ answered)) (syntheticResult now) l
    have hlow : ∀ j, j ≤ i + 1 + run.length → due' j = [] := by
      intro j hj
      refine List.map_eq_nil_iff.mpr (repairsAt_eq_nil fun r hr => ?_)
      have : i + 1 + run.length < r.1 := repairs_le r hr
      omega
    have hsplit : run ++ l.dropWhile toolExchange.reply = l :=
      Lib.Exchange.run_append_dropWhile l
    have hmended : run ++ insertDue due' (i + 1 + run.length) (l.dropWhile toolExchange.reply) =
        mended := by
      rw [← insertDue_append (i + 1) run _ fun j _ hj => hlow j (by omega), hsplit]
      exact ih (i + 1)
    have hmsplit : run ++ mended.dropWhile toolExchange.reply = mended := by
      rw [hrun, ← Lib.Exchange.run_mend
        l]
      exact Lib.Exchange.run_append_dropWhile mended
    have hdrop := List.append_cancel_left (hmsplit.trans hmended.symm)
    have hdue : ∀ j, (repairsAt (repairs answered i (m :: l)) j).map (syntheticResult now) =
        (if j = i + 1 + run.length then
          ((assistantCalls m).filter (· ∉ answered)).map (syntheticResult now) else []) ++
        due' j := by
      intro j
      rw [repairsAt_cons, List.map_append]
      split_ifs <;> rfl
    have hi : (repairsAt (repairs answered i (m :: l)) i).map (syntheticResult now) = [] := by
      rw [hdue, if_neg (by omega), hlow i (by omega), List.append_nil]
    have hrest := insertDue_run hdue hlow (l.dropWhile toolExchange.reply)
    rw [hsplit] at hrest
    rw [insertDue, hi, List.nil_append, hrest, Lib.Exchange.mend, Lib.Exchange.run_mend, hdrop]
    refine congrArg (m :: ·) (congrArg (run ++ · ++ _) ?_)
    simp [toolExchange]

theorem repairDangling_eq_mend (messages : List Message) (answering : List String) (now : ℕ) :
    repairDangling messages answering now =
      toolExchange.mend (fun c => decide (c ∈ answeredIds messages ++ answering))
        (syntheticResult now) messages := by
  rw [← insertDue_repairs _ now 0 messages]
  unfold repairDangling
  dsimp only
  split_ifs with h
  · rw [List.isEmpty_iff.mp h]
    exact (insertDue_nil_due (fun _ => rfl) 0 messages).symm
  · rfl

/-- Repairing a sound history, with what the messages `e` answer left open, and extending it by
`e` leaves every tool call with exactly one result, where the provider expects it. -/
theorem wellFormed_repairDangling {l e : List Message} (hl : toolExchange.Sound l)
    (hec : toolExchange.allCalls e = [])
    (hfit : toolExchange.Fits l (answeredIds (toolExchange.run e)))
    (hrest : answeredIds e = answeredIds (toolExchange.run e)) (now : ℕ) :
    toolExchange.WellFormed (repairDangling l (answeredIds e) now ++ e) := by
  rw [repairDangling_eq_mend]
  refine Lib.Exchange.wellFormed_mend (fun _ => rfl) (fun _ => rfl) hl hec hfit hrest fun c => ?_
  rw [decide_eq_true_eq, List.mem_append, hrest]
  rfl

end Horsie.Agent
