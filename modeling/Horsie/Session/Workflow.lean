import Horsie.Session.Routing

/-!
# The workflow driver

Deciding what a workflow run does next. The driver reads the graph the run was started from and the
log of its executions, and starts a step, finishes the run or fails it. `WorkflowRunSpec.route` says
what the graph itself means: the names met by following, from the start step, the first transition
that matches each outcome. A run driven after every report of its steps is compared with that route
(`refines_iff`).
-/

namespace Horsie.Agent.Value

/-! ## Values as text -/

def escapeChar (c : Char) : String :=
  let n := c.toNat
  if n = 0x22 ∨ n = 0x5C then String.ofList [Char.ofNat 0x5C, c]
  else if n = 8 then "\\b"
  else if n = 9 then "\\t"
  else if n = 10 then "\\n"
  else if n = 12 then "\\f"
  else if n = 13 then "\\r"
  else if n < 0x20 then
    "\\u00" ++ String.ofList [Nat.digitChar (n / 16), Nat.digitChar (n % 16)]
  else String.ofList [c]

def quoted (s : String) : String :=
  let quote := String.ofList [Char.ofNat 0x22]
  quote ++ String.join (s.toList.map escapeChar) ++ quote

mutual

/-- A value printed without white space. -/
def toText : Value → String
  | .null => "null"
  | .bool b => if b then "true" else "false"
  | .num text => text
  | .str s => quoted s
  | .arr xs => "[" ++ ",".intercalate (toTexts xs) ++ "]"
  | .obj fields => "\x7b" ++ ",".intercalate (fieldTexts fields) ++ "\x7d"

def toTexts : List Value → List String
  | [] => []
  | x :: xs => x.toText :: toTexts xs

def fieldTexts : List (String × Value) → List String
  | [] => []
  | (key, x) :: fields => (quoted key ++ ":" ++ x.toText) :: fieldTexts fields

end

def asObject : Value → Option (List (String × Value))
  | .obj fields => some fields
  | .null | .bool _ | .num _ | .str _ | .arr _ => none

end Horsie.Agent.Value

namespace Horsie.Session

open Lib
open Agent (Value SubAgentResultPart)

def outcomeField : String := "outcome"

def descriptionField : String := "description"

/-- What a result field beyond the two fixed ones reads as. -/
def renderField : Value → String
  | .str s => s
  | .arr items => ", ".intercalate (items.map fun i => i.asStr.getD i.toText)
  | .null => Value.null.toText
  | .bool b => (Value.bool b).toText
  | .num text => (Value.num text).toText
  | .obj fields => (Value.obj fields).toText

/-- A step's result as text: its outcome, its description, then the other fields by name. -/
def renderResult (value : Value) : String :=
  match value.asObject with
  | none => value.toText
  | some fields =>
    let outcome :=
      match (value.get outcomeField).bind Value.asStr with
      | some outcome => "**outcome:** " ++ outcome ++ "\n\n"
      | none => ""
    let description :=
      match (value.get descriptionField).bind Value.asStr with
      | some description => trimEnd description ++ "\n"
      | none => ""
    let extras := (fields.filter fun f => f.1 ≠ outcomeField && f.1 ≠ descriptionField).mergeSort
      fun f g => f.1 ≤ g.1
    let list := extras.map fun f => "- **" ++ f.1 ++ ":** " ++ renderField f.2 ++ "\n"
    trimEnd (outcome ++ description ++
      if extras.isEmpty then "" else "\n" ++ String.join list)

/-! ## The graph -/

namespace OutcomeFilter

def admits : OutcomeFilter → String → Bool
  | .isIn values, outcome => values.any (· = outcome)
  | .notIn values, outcome => !values.any (· = outcome)

/-- The label of an edge. -/
def render : OutcomeFilter → String
  | .isIn values => "outcome in [" ++ ", ".intercalate values ++ "]"
  | .notIn values => "outcome not in [" ++ ", ".intercalate values ++ "]"

end OutcomeFilter

/-- The first transition that admits `outcome`: where it goes, and the label it is recorded with. -/
def nextTransition : List TransitionSpec → String → Option (String × Option String)
  | [], _ => none
  | t :: ts, outcome =>
    match t.filter with
    | none => some (t.target, none)
    | some filter =>
      if filter.admits outcome then some (t.target, some filter.render)
      else nextTransition ts outcome

/-- The outcome a step's result names, without one the empty text. -/
def outcomeOf (output : Value) : String := ((output.get outcomeField).bind Value.asStr).getD ""

namespace WorkflowRunSpec

def step (spec : WorkflowRunSpec) (name : String) : Option WorkflowStepSpec :=
  spec.steps.find? (·.name = name)

def stepAgentId (newV5 : String → String → String) (run : String) (index : ℕ) : String :=
  newV5 run ("step:" ++ toString index)

end WorkflowRunSpec

/-- A step's own instruction, then what it is given, under a header that names where from. -/
def composeStepInput (prompt : String) (fromStep : Option String) (incoming : String) : String :=
  let header :=
    match fromStep with
    | some step => "## Input from step " ++ String.ofList [Char.ofNat 0x60] ++ step ++
        String.ofList [Char.ofNat 0x60]
    | none => "## Input"
  trimEnd prompt ++ "\n\n" ++ header ++ "\n" ++ incoming

/-- A step's result as the next step is given it. -/
def outputAsInput (output : Value) : String :=
  match output.asStr with
  | some text => text
  | none => renderResult output

/-! ## What is decided -/

/-- One execution of one step, as it is spawned and journaled. -/
structure StepStart where
  run : String
  index : ℕ
  step : String
  agent : String
  attempt : ℕ
  origin : Option ℕ
  via : Option String
  input : String
deriving DecidableEq

/-- A finished child's result, on its way to the agent that is owed it. -/
structure Delivery where
  recipient : AgentKey
  child : String
  part : SubAgentResultPart
deriving DecidableEq

inductive AgentAction
  | startStep (start : StepStart)
  | finish (run : String) (output : Value)
  | fail (run error : String)
  | deliver (delivery : Delivery)
deriving DecidableEq

namespace WorkflowRunState

def last (w : WorkflowRunState) : Option (ℕ × StepRun) :=
  w.steps.getLast?.map (w.steps.length - 1, ·)

def attemptsOf (w : WorkflowRunState) (step : String) : ℕ := w.steps.countP (·.step = step)

def indexOfAgent (w : WorkflowRunState) (agent : String) : Option ℕ :=
  w.steps.findIdx? (·.agent = agent)

end WorkflowRunState

/-! ## The driver -/

/-- Drives one run of a session that hosts several. -/
structure WorkflowOrchestrator where
  runId : String
  spec : WorkflowRunSpec

namespace WorkflowOrchestrator

variable (newV5 : String → String → String)

/-- The action that starts `step`. -/
def start (o : WorkflowOrchestrator) (run : WorkflowRunState) (step : String)
    (origin : Option ℕ) (via : Option String) (incoming : String) (fromStep : Option String) :
    AgentAction :=
  let index := run.steps.length
  let prompt := ((o.spec.step step).map (·.prompt)).getD ""
  .startStep
    { run := o.runId
      index := index
      step := step
      agent := WorkflowRunSpec.stepAgentId newV5 o.runId index
      attempt := run.attemptsOf step + 1
      origin := origin
      via := via
      input := composeStepInput prompt fromStep incoming }

/-- Why a run that used up its steps is failed. -/
def budgetError (spec : WorkflowRunSpec) : String :=
  "step budget exhausted after " ++ toString spec.maxSteps ++ " steps"

/-- What the graph wants started: the next step, the run's end, or its failure. -/
def stepActions (o : WorkflowOrchestrator) (run : WorkflowRunState) : List AgentAction :=
  if run.status.isTerminal || run.status = .suspended || run.status = .awaitingInput ||
      run.current.isSome then
    []
  -- the budget is read before the last step is, so before it is known whether another follows
  else if run.steps.length ≥ o.spec.maxSteps then
    [.fail o.runId (budgetError o.spec)]
  else
    match run.last with
    | none =>
      if (o.spec.step o.spec.start).isNone then
        [.fail o.runId ("start step '" ++ o.spec.start ++ "' is not in this workflow")]
      else [o.start newV5 run o.spec.start none none o.spec.input none]
    | some (index, last) =>
      if last.status ≠ .concluded then []
      else
        let output := last.output.getD .null
        match o.spec.step last.step with
        | none => [.fail o.runId ("step '" ++ last.step ++ "' is no longer in this workflow")]
        | some step =>
          match nextTransition step.transitions (outcomeOf output) with
          | none => [.finish o.runId output]
          | some (target, via) =>
            if (o.spec.step target).isNone then
              [.fail o.runId ("step '" ++ last.step ++ "' transitions to '" ++ target ++
                "', which is not in this workflow")]
            else
              [o.start newV5 run target (some index) via (outputAsInput output) (some last.step)]

end WorkflowOrchestrator

/-! ## A run driven after every report -/

inductive StepEnd
  | concluded (output : Value)
  | asked
  | failed (error : String)
  | parked
deriving DecidableEq

namespace WorkflowRunState

/-- A report of the execution in flight is recorded. -/
def report (w : WorkflowRunState) (r : StepEnd) : WorkflowRunState :=
  match w.current with
  | none => w
  | some index =>
    match r with
    | .concluded output => w.applyConcluded index output
    | .asked => w.applyAwaiting
    | .failed error => (w.applyStepFailed index error).applyFailed error
    | .parked => w

def perform (w : WorkflowRunState) : AgentAction → WorkflowRunState
  | .startStep s => w.applyStarted s.step s.agent s.attempt s.origin s.via s.input
  | .finish _ output => w.applyFinished output
  | .fail _ error => w.applyFailed error
  | .deliver _ => w

end WorkflowRunState

namespace WorkflowOrchestrator

variable (newV5 : String → String → String)

/-- The driver is asked, and what it decides is recorded. -/
def drive (o : WorkflowOrchestrator) (w : WorkflowRunState) : WorkflowRunState :=
  (o.stepActions newV5 w).foldl .perform w

/-- One report, and the decision it leads to. -/
def next (o : WorkflowOrchestrator) (w : WorkflowRunState) (r : StepEnd) : WorkflowRunState :=
  o.drive newV5 (w.report r)

def driven (o : WorkflowOrchestrator) (reports : List StepEnd) : WorkflowRunState :=
  reports.foldl (o.next newV5) (o.drive newV5 .default)

end WorkflowOrchestrator

/-! ## What the graph means -/

def stepResults : List StepEnd → List Value
  | [] => []
  | .concluded output :: rs => output :: stepResults rs
  | .failed _ :: _ => []
  | .asked :: rs | .parked :: rs => stepResults rs

namespace WorkflowRunSpec

def has (spec : WorkflowRunSpec) (name : String) : Bool := (spec.step name).isSome

/-- Where the first matching transition out of a step goes. -/
def successor (spec : WorkflowRunSpec) (name : String) (output : Value) : Option String :=
  (spec.step name).bind fun s => (nextTransition s.transitions (outcomeOf output)).map (·.1)

/-- The names met from `name` on, with these results. -/
def routeFrom (spec : WorkflowRunSpec) (name : String) : List Value → List String
  | [] => [name]
  | output :: rest =>
    match spec.successor name output with
    | none => [name]
    | some target => name :: routeFrom spec target rest

/-- The result of the step from which nothing matches, if the route gets there. -/
def resultFrom (spec : WorkflowRunSpec) (name : String) : List Value → Option Value
  | [] => none
  | output :: rest =>
    if spec.has name then
      match spec.successor name output with
      | none => some output
      | some target => resultFrom spec target rest
    else none

/-- The names met from the start step on. -/
def route (spec : WorkflowRunSpec) (results : List Value) : List String :=
  spec.routeFrom spec.start results

def result (spec : WorkflowRunSpec) (results : List Value) : Option Value :=
  spec.resultFrom spec.start results

variable {spec : WorkflowRunSpec} {name target : String} {output : Value} {results : List Value}

theorem successor_of_missing (h : spec.has name = false) : spec.successor name output = none := by
  unfold has at h
  unfold successor
  rw [Option.isSome_eq_false_iff, Option.isNone_iff_eq_none] at h
  rw [h]
  rfl

theorem routeFrom_of_missing (h : spec.has name = false) :
    spec.routeFrom name results = [name] := by
  cases results with
  | nil => rfl
  | cons output rest =>
    unfold routeFrom
    rw [successor_of_missing h]

theorem resultFrom_of_missing (h : spec.has name = false) :
    spec.resultFrom name results = none := by
  cases results with
  | nil => rfl
  | cons output rest =>
    unfold resultFrom
    rw [h]
    rfl

theorem routeFrom_eq_cons : spec.routeFrom name results =
    name :: (spec.routeFrom name results).tail := by
  cases results with
  | nil => rfl
  | cons output rest =>
    unfold routeFrom
    cases spec.successor name output <;> rfl

theorem routeFrom_cons_none (results : List Value) (h : spec.successor name output = none) :
    spec.routeFrom name (output :: results) = [name] := by
  unfold routeFrom
  rw [h]

theorem routeFrom_cons_some (results : List Value) (h : spec.successor name output = some target) :
    spec.routeFrom name (output :: results) = name :: spec.routeFrom target results := by
  show (match spec.successor name output with
    | none => [name]
    | some target => name :: spec.routeFrom target results) = _
  rw [h]

theorem resultFrom_cons_none (results : List Value) (hk : spec.has name = true)
    (h : spec.successor name output = none) :
    spec.resultFrom name (output :: results) = some output := by
  unfold resultFrom
  rw [if_pos hk, h]

theorem resultFrom_cons_some (results : List Value) (hk : spec.has name = true)
    (h : spec.successor name output = some target) :
    spec.resultFrom name (output :: results) = spec.resultFrom target results := by
  show (if spec.has name then
      match spec.successor name output with
      | none => some output
      | some target => spec.resultFrom target results
    else none) = _
  rw [if_pos hk, h]

end WorkflowRunSpec

/-! ## The run follows the route -/

namespace WorkflowRunState

def names (w : WorkflowRunState) : List String := w.steps.map (·.step)

/-- The run failed because its steps were used up, and not because one of them failed. -/
def Exhausted (spec : WorkflowRunSpec) (w : WorkflowRunState) : Prop :=
  w.status = .failed ∧ w.error = some (WorkflowOrchestrator.budgetError spec) ∧
    ∀ s ∈ w.steps, s.status ≠ .failed

/-- A run whose last execution is in flight, of a step named `name`. -/
structure Standing (spec : WorkflowRunSpec) (w : WorkflowRunState) (name : String) : Prop where
  last : ∃ earlier s, w.steps = earlier ++ [s] ∧ s.step = name ∧ s.status = .running ∧
    ∀ t ∈ earlier, t.status = .concluded
  known : spec.has name = true
  within : w.steps.length ≤ spec.maxSteps
  live : w.status = .running ∨ w.status = .awaitingInput

/-- A run that is over, with nothing in flight. -/
structure Settled (w : WorkflowRunState) : Prop where
  terminal : w.status.isTerminal = true
  current : w.current = none

theorem current_append_running {earlier : List StepRun} {s : StepRun}
    (he : ∀ t ∈ earlier, t.status = .concluded) (hs : s.status = .running) :
    (earlier ++ [s]).findIdx? (·.status = .running) = some earlier.length := by
  rw [List.findIdx?_append]
  have hnone : earlier.findIdx? (fun t => decide (t.status = .running)) = none := by
    rw [List.findIdx?_eq_none_iff]
    intro t ht
    rw [he t ht]
    rfl
  rw [hnone]
  simp [List.findIdx?_cons, hs]

theorem current_eq_none_of_concluded {w : WorkflowRunState}
    (h : ∀ t ∈ w.steps, t.status = .concluded ∨ t.status = .failed) : w.current = none := by
  unfold current
  rw [List.findIdx?_eq_none_iff]
  intro t ht
  rcases h t ht with h | h <;> rw [h] <;> rfl

theorem modify_last {earlier : List StepRun} {s : StepRun} {f : StepRun → StepRun} :
    (earlier ++ [s]).modify earlier.length f = earlier ++ [f s] := by
  induction earlier with
  | nil => rfl
  | cons t earlier ih => simp [List.modify_succ_cons, ih]

/-- A run between two steps: every execution concluded, the last one of `name` with `output`. -/
structure Between (w : WorkflowRunState) (name : String) (output : Value) : Prop where
  last : ∃ earlier s, w.steps = earlier ++ [s] ∧ s.step = name ∧ s.status = .concluded ∧
    s.output = some output ∧ ∀ t ∈ earlier, t.status = .concluded
  running : w.status = .running

section

variable {newV5 : String → String → String} {o : WorkflowOrchestrator} {w : WorkflowRunState}
  {name target : String} {output : Value}

theorem Standing.current (h : Standing o.spec w name) : ∃ earlier s, w.steps = earlier ++ [s] ∧
    s.step = name ∧ w.current = some earlier.length ∧ s.status = .running ∧
    ∀ t ∈ earlier, t.status = .concluded := by
  obtain ⟨earlier, s, hw, hname, hs, he⟩ := h.last
  refine ⟨earlier, s, hw, hname, ?_, hs, he⟩
  unfold WorkflowRunState.current
  rw [hw]
  exact current_append_running he hs

theorem Standing.concluded (h : Standing o.spec w name) :
    Between (w.report (.concluded output)) name output ∧
      (w.report (.concluded output)).names = w.names := by
  obtain ⟨earlier, s, hw, hname, hcur, -, he⟩ := h.current
  have hsteps : (w.report (.concluded output)).steps =
      earlier ++ [{ s with status := .concluded, output := some output }] := by
    simp only [report, hcur, applyConcluded, modifyStep, hw, modify_last]
  refine ⟨⟨⟨earlier, _, hsteps, hname, rfl, rfl, he⟩, ?_⟩, ?_⟩
  · simp only [report, hcur, applyConcluded]
  · unfold names
    rw [hsteps, hw]
    simp

theorem Standing.failed (h : Standing o.spec w name) (error : String) :
    Settled (w.report (.failed error)) ∧ (w.report (.failed error)).names = w.names ∧
      (w.report (.failed error)).status = .failed ∧
      ¬ Exhausted o.spec (w.report (.failed error)) := by
  obtain ⟨earlier, s, hw, hname, hcur, -, he⟩ := h.current
  have hsteps : (w.report (.failed error)).steps =
      earlier ++ [{ s with status := .failed, error := some error }] := by
    simp only [report, hcur, applyStepFailed, applyFailed, modifyStep, hw, modify_last]
  have hstatus : (w.report (.failed error)).status = .failed := by
    simp only [report, hcur, applyFailed]
  refine ⟨⟨by rw [hstatus]; rfl, current_eq_none_of_concluded ?_⟩, ?_, hstatus, ?_⟩
  · intro t ht
    rw [hsteps] at ht
    rcases List.mem_append.mp ht with ht | ht
    · exact .inl (he t ht)
    · rw [List.mem_singleton.mp ht]
      exact .inr rfl
  · unfold names
    rw [hsteps, hw]
    simp
  · intro hex
    refine hex.2.2 { s with status := .failed, error := some error } ?_ rfl
    rw [hsteps]
    exact List.mem_append_right _ (List.mem_singleton_self _)

theorem Standing.report (h : Standing o.spec w name) {r : StepEnd} (hr : r = .asked ∨ r = .parked) :
    Standing o.spec (w.report r) name ∧ (w.report r).steps = w.steps := by
  obtain ⟨earlier, s, hw, hname, hcur, hs, he⟩ := h.current
  rcases hr with rfl | rfl
  · have hrep : w.report .asked = w.applyAwaiting := by simp only [WorkflowRunState.report, hcur]
    rw [hrep]
    exact ⟨⟨h.last, h.known, h.within, .inr rfl⟩, rfl⟩
  · have hrep : w.report .parked = w := by simp only [WorkflowRunState.report, hcur]
    rw [hrep]
    exact ⟨h, rfl⟩

theorem stepActions_of_current (h : w.current.isSome) : o.stepActions newV5 w = [] := by
  unfold WorkflowOrchestrator.stepActions
  rw [if_pos]
  simp [h]

theorem stepActions_of_terminal (h : w.status.isTerminal = true) : o.stepActions newV5 w = [] := by
  unfold WorkflowOrchestrator.stepActions
  rw [if_pos]
  simp [h]

theorem Standing.drive (h : Standing o.spec w name) : o.drive newV5 w = w := by
  obtain ⟨earlier, s, -, -, hcur, -⟩ := h.current
  unfold WorkflowOrchestrator.drive
  rw [stepActions_of_current (by rw [hcur]; rfl)]
  rfl

theorem Settled.next (h : Settled w) (r : StepEnd) : o.next newV5 w r = w := by
  have hrep : w.report r = w := by
    unfold WorkflowRunState.report
    rw [h.current]
  unfold WorkflowOrchestrator.next WorkflowOrchestrator.drive
  rw [hrep, stepActions_of_terminal h.terminal]
  rfl

theorem Settled.foldl (h : Settled w) (rs : List StepEnd) : rs.foldl (o.next newV5) w = w := by
  induction rs with
  | nil => rfl
  | cons r rs ih => rw [List.foldl_cons, h.next, ih]

theorem Between.current (h : Between w name output) : w.current = none := by
  obtain ⟨earlier, s, hw, -, hs, -, he⟩ := h.last
  refine current_eq_none_of_concluded ?_
  intro t ht
  rw [hw] at ht
  rcases List.mem_append.mp ht with ht | ht
  · exact .inl (he t ht)
  · exact .inl (by rw [List.mem_singleton.mp ht]; exact hs)

theorem Between.stepActions (h : Between w name output) :
    ∃ index : ℕ, o.stepActions newV5 w =
      if w.steps.length ≥ o.spec.maxSteps then
        [.fail o.runId (WorkflowOrchestrator.budgetError o.spec)]
      else
        match o.spec.step name with
        | none => [.fail o.runId ("step '" ++ name ++ "' is no longer in this workflow")]
        | some step =>
          match nextTransition step.transitions (outcomeOf output) with
          | none => [.finish o.runId output]
          | some (target, via) =>
            if (o.spec.step target).isNone then
              [.fail o.runId ("step '" ++ name ++ "' transitions to '" ++ target ++
                "', which is not in this workflow")]
            else
              [o.start newV5 w target (some index) via (outputAsInput output) (some name)] := by
  obtain ⟨earlier, s, hw, hname, hs, hout, -⟩ := h.last
  refine ⟨w.steps.length - 1, ?_⟩
  have hlast : w.last = some (w.steps.length - 1, s) := by
    unfold WorkflowRunState.last
    rw [hw, List.getLast?_concat]
    rfl
  have hfree : ¬ (w.status.isTerminal || decide (w.status = .suspended) ||
      decide (w.status = .awaitingInput) || w.current.isSome) = true := by
    rw [h.running, h.current]
    decide
  unfold WorkflowOrchestrator.stepActions
  rw [if_neg hfree, hlast]
  subst hname
  simp only [hs, hout, ne_eq, not_true_eq_false, if_false, Option.getD_some]

theorem Between.applyFailed (h : Between w name output) (error : String) :
    Settled (w.applyFailed error) :=
  ⟨rfl, h.current⟩

theorem Between.applyFinished (h : Between w name output) : Settled (w.applyFinished output) :=
  ⟨rfl, h.current⟩

theorem Between.not_failed (h : Between w name output) : ∀ s ∈ w.steps, s.status ≠ .failed := by
  obtain ⟨earlier, s, hw, -, hs, -, he⟩ := h.last
  intro t ht
  rw [hw] at ht
  rcases List.mem_append.mp ht with ht | ht
  · rw [he t ht]
    decide
  · rw [List.mem_singleton.mp ht, hs]
    decide

/-- The four decisions between two steps. -/
inductive Decided (o : WorkflowOrchestrator) (w : WorkflowRunState) (name : String)
    (output : Value) (w' : WorkflowRunState) : Prop
  | exhausted (hmax : o.spec.maxSteps ≤ w.steps.length)
      (hw : w' = w.applyFailed (WorkflowOrchestrator.budgetError o.spec))
  | finished (hmax : w.steps.length < o.spec.maxSteps) (hs : o.spec.successor name output = none)
      (hw : w' = w.applyFinished output)
  | missing (hmax : w.steps.length < o.spec.maxSteps) {target : String}
      (hs : o.spec.successor name output = some target) (ht : o.spec.has target = false)
      (hw : w' = w.applyFailed ("step '" ++ name ++ "' transitions to '" ++ target ++
        "', which is not in this workflow"))
  | started (hmax : w.steps.length < o.spec.maxSteps) {target : String}
      (hs : o.spec.successor name output = some target) (ht : Standing o.spec w' target)
      (hn : w'.names = w.names ++ [target]) (hl : w'.steps.length = w.steps.length + 1)

theorem Between.started (h : Between w name output) (hmax : w.steps.length < o.spec.maxSteps)
    (ht : o.spec.has target = true) (agent : String) (attempt : ℕ) (origin : Option ℕ)
    (via : Option String) (input : String) :
    Standing o.spec (w.applyStarted target agent attempt origin via input) target := by
  refine ⟨⟨w.steps, _, rfl, rfl, rfl, ?_⟩, ht, ?_, .inl rfl⟩
  · obtain ⟨earlier, s, hw, -, hs, -, he⟩ := h.last
    intro t ht
    rw [hw] at ht
    rcases List.mem_append.mp ht with ht | ht
    · exact he t ht
    · rw [List.mem_singleton.mp ht]
      exact hs
  · unfold applyStarted
    rw [List.length_append, List.length_singleton]
    omega

theorem Between.drive (newV5 : String → String → String) (h : Between w name output)
    (hk : o.spec.has name = true) : Decided o w name output (o.drive newV5 w) := by
  obtain ⟨index, hact⟩ := h.stepActions (o := o)
  unfold WorkflowOrchestrator.drive
  by_cases hmax : w.steps.length ≥ o.spec.maxSteps
  · rw [hact, if_pos hmax]
    exact .exhausted hmax rfl
  rw [hact, if_neg hmax]
  have hlt : w.steps.length < o.spec.maxSteps := by omega
  unfold WorkflowRunSpec.has at hk
  obtain ⟨step, hstep⟩ := Option.isSome_iff_exists.mp hk
  have hsucc : o.spec.successor name output =
      (nextTransition step.transitions (outcomeOf output)).map (·.1) := by
    unfold WorkflowRunSpec.successor
    rw [hstep]
    rfl
  simp only [hstep]
  cases hn : nextTransition step.transitions (outcomeOf output) with
  | none =>
    rw [hn] at hsucc
    exact .finished hlt hsucc rfl
  | some found =>
    obtain ⟨target, via⟩ := found
    rw [hn] at hsucc
    simp only
    by_cases ht : (o.spec.step target).isNone = true
    · rw [if_pos ht]
      refine .missing hlt hsucc ?_ rfl
      unfold WorkflowRunSpec.has
      rw [Option.isSome_eq_false_iff]
      exact ht
    · rw [if_neg ht]
      have hhas : o.spec.has target = true := by
        unfold WorkflowRunSpec.has
        rw [← Option.not_isNone, Bool.not_eq_true' ]
        exact Bool.eq_false_iff.mpr ht
      refine .started hlt hsucc (h.started hlt hhas _ _ _ _ _) ?_ ?_
      · simp [WorkflowOrchestrator.start, perform, applyStarted, names]
      · simp [WorkflowOrchestrator.start, perform, applyStarted]

theorem budgetError_ne {spec : WorkflowRunSpec} {start : String} (i : ℕ)
    (hi : i < start.toList.length ∧ i < "step budget exhausted after ".toList.length)
    (hne : start.toList[i]? ≠ "step budget exhausted after ".toList[i]?) (text : String) :
    start ++ text ≠ WorkflowOrchestrator.budgetError spec := by
  intro h
  refine hne ?_
  have hchar : (start ++ text).toList[i]? =
      (WorkflowOrchestrator.budgetError spec).toList[i]? := by rw [h]
  unfold WorkflowOrchestrator.budgetError at hchar
  rwa [String.append_assoc, String.toList_append, String.toList_append,
    List.getElem?_append_left hi.1, List.getElem?_append_left hi.2] at hchar

/-- Where a run gets from a step in flight. The route from there and its result are read off the
reports; the budget counts the executions that have been. -/
structure Followed (spec : WorkflowRunSpec) (n : ℕ) (before : List String) (name : String)
    (results : List Value) (w : WorkflowRunState) : Prop where
  names : w.names = before ++
    ((spec.routeFrom name results).tail.take (spec.maxSteps - n)).filter spec.has
  finished : ∀ v, (w.status = .finished ∧ w.output = some v) ↔
    spec.resultFrom name results = some v ∧
      n + (spec.routeFrom name results).tail.length < spec.maxSteps
  exhausted : Exhausted spec w ↔ spec.maxSteps < n + (spec.routeFrom name results).tail.length ∨
    ((spec.resultFrom name results).isSome = true ∧
      n + (spec.routeFrom name results).tail.length = spec.maxSteps)

variable {n : ℕ} {before : List String} {results : List Value}

theorem Standing.followed (h : Standing o.spec w name) :
    Followed o.spec w.steps.length w.names name [] w := by
  have hn : w.status ≠ .finished ∧ w.status ≠ .failed := by
    rcases h.live with h | h <;> rw [h] <;> decide
  refine ⟨?_, ?_, ?_⟩
  · simp [WorkflowRunSpec.routeFrom]
  · intro v
    constructor
    · intro hf
      exact absurd hf.1 hn.1
    · intro hf
      exact absurd hf.1 nofun
  · have hw := h.within
    constructor
    · intro hex
      exact absurd hex.1 hn.2
    · intro hex
      simp only [WorkflowRunSpec.routeFrom, WorkflowRunSpec.resultFrom, List.tail_cons,
        List.length_nil] at hex
      rcases hex with hex | hex
      · omega
      · exact absurd hex.1 nofun

theorem Standing.followed_failed (h : Standing o.spec w name) (error : String) :
    Followed o.spec w.steps.length w.names name [] (w.report (.failed error)) := by
  obtain ⟨-, hnames, hstatus, hex⟩ := h.failed error
  have hw := h.within
  refine ⟨?_, ?_, ?_⟩
  · simp [hnames, WorkflowRunSpec.routeFrom]
  · intro v
    constructor
    · intro hf
      rw [hstatus] at hf
      exact absurd hf.1 nofun
    · intro hf
      exact absurd hf.1 nofun
  · constructor
    · exact fun h => absurd h hex
    · intro hf
      simp only [WorkflowRunSpec.routeFrom, WorkflowRunSpec.resultFrom, List.tail_cons,
        List.length_nil] at hf
      rcases hf with hf | hf
      · omega
      · exact absurd hf.1 nofun

/-- A run that was failed between two steps, with a budget the route does not exceed. -/
theorem followed_applyFailed {error : String}
    (hbudget : error ≠ WorkflowOrchestrator.budgetError o.spec)
    (htail : ((o.spec.routeFrom name (output :: results)).tail.take
      (o.spec.maxSteps - w.steps.length)).filter o.spec.has = [])
    (hres : o.spec.resultFrom name (output :: results) = none)
    (hlen : w.steps.length + (o.spec.routeFrom name (output :: results)).tail.length ≤
      o.spec.maxSteps) :
    Followed o.spec w.steps.length w.names name (output :: results) (w.applyFailed error) := by
  refine ⟨?_, ?_, ?_⟩
  · rw [htail, List.append_nil]
    rfl
  · intro v
    rw [hres]
    constructor
    · intro hf
      exact absurd hf.1 nofun
    · intro hf
      exact absurd hf.1 nofun
  · rw [hres]
    constructor
    · intro hex
      exact absurd (Option.some.inj hex.2.1) hbudget
    · intro hf
      rcases hf with hf | hf
      · omega
      · exact absurd hf.1 nofun

theorem Between.followed_exhausted (h : Between w name output) (hk : o.spec.has name = true)
    (hmax : w.steps.length = o.spec.maxSteps) :
    Followed o.spec w.steps.length w.names name (output :: results)
      (w.applyFailed (WorkflowOrchestrator.budgetError o.spec)) := by
  have hex : Exhausted o.spec (w.applyFailed (WorkflowOrchestrator.budgetError o.spec)) :=
    ⟨rfl, rfl, h.not_failed⟩
  refine ⟨?_, ?_, ?_⟩
  · rw [hmax, Nat.sub_self, List.take_zero]
    exact (List.append_nil _).symm
  · intro v
    constructor
    · intro hf
      exact absurd hf.1 nofun
    · intro hf
      omega
  · refine ⟨fun _ => ?_, fun _ => hex⟩
    cases hs : o.spec.successor name output with
    | none =>
      right
      rw [WorkflowRunSpec.resultFrom_cons_none _ hk hs, WorkflowRunSpec.routeFrom_cons_none _ hs]
      exact ⟨rfl, hmax⟩
    | some target =>
      left
      rw [WorkflowRunSpec.routeFrom_cons_some _ hs, WorkflowRunSpec.routeFrom_eq_cons]
      simp only [List.tail_cons, List.length_cons]
      omega

theorem followed_applyFinished (hk : o.spec.has name = true)
    (hmax : w.steps.length < o.spec.maxSteps) (hs : o.spec.successor name output = none) :
    Followed o.spec w.steps.length w.names name (output :: results) (w.applyFinished output) := by
  have hroute := WorkflowRunSpec.routeFrom_cons_none results hs
  have hres := WorkflowRunSpec.resultFrom_cons_none results hk hs
  refine ⟨?_, ?_, ?_⟩
  · rw [hroute, List.tail_cons, List.take_nil]
    exact (List.append_nil _).symm
  · intro v
    rw [hres, hroute]
    constructor
    · intro hf
      exact ⟨hf.2, hmax⟩
    · intro hf
      exact ⟨rfl, hf.1⟩
  · rw [hres, hroute]
    constructor
    · intro hex
      exact absurd hex.1 nofun
    · intro hf
      simp only [List.tail_cons, List.length_nil] at hf
      omega

theorem Followed.step (hmax : n < o.spec.maxSteps) (hk : o.spec.has name = true)
    (ht : o.spec.has target = true) (hs : o.spec.successor name output = some target)
    (h : Followed o.spec (n + 1) (before ++ [target]) target results w) :
    Followed o.spec n before name (output :: results) w := by
  have hroute := WorkflowRunSpec.routeFrom_cons_some results hs
  have hres := WorkflowRunSpec.resultFrom_cons_some results hk hs
  have htail : (o.spec.routeFrom name (output :: results)).tail =
      target :: (o.spec.routeFrom target results).tail := by
    rw [hroute, List.tail_cons]
    exact WorkflowRunSpec.routeFrom_eq_cons
  have hsub : o.spec.maxSteps - n = o.spec.maxSteps - (n + 1) + 1 := by omega
  have hlen : n + (o.spec.routeFrom name (output :: results)).tail.length =
      n + 1 + (o.spec.routeFrom target results).tail.length := by
    rw [htail, List.length_cons]
    omega
  refine ⟨?_, ?_, ?_⟩
  · rw [h.names, htail, hsub, List.take_succ_cons, List.filter_cons_of_pos ht,
      List.append_assoc, List.singleton_append]
  · intro v
    rw [h.finished, hres, hlen]
  · rw [h.exhausted, hres, hlen]

/-- Every list of reports takes a run with a step in flight where the route goes. -/
theorem Standing.foldl (newV5 : String → String → String) (h : Standing o.spec w name)
    (rs : List StepEnd) :
    Followed o.spec w.steps.length w.names name (stepResults rs) (rs.foldl (o.next newV5) w) := by
  induction rs generalizing w name with
  | nil => exact h.followed
  | cons r rs ih =>
    rw [List.foldl_cons]
    -- by what was reported, and for a result by what the driver decides on it
    cases r with
    | asked =>
      obtain ⟨hrep, hsteps⟩ := h.report (.inl rfl)
      have hnext : o.next newV5 w .asked = w.report .asked := hrep.drive
      have hih := ih hrep
      unfold names at hih ⊢
      rw [hsteps] at hih
      rw [hnext]
      exact hih
    | parked =>
      obtain ⟨hrep, hsteps⟩ := h.report (.inr rfl)
      have hnext : o.next newV5 w .parked = w.report .parked := hrep.drive
      have hih := ih hrep
      unfold names at hih ⊢
      rw [hsteps] at hih
      rw [hnext]
      exact hih
    | failed error =>
      have hset := h.failed error
      have hnext : o.next newV5 w (.failed error) = w.report (.failed error) := by
        unfold WorkflowOrchestrator.next WorkflowOrchestrator.drive
        rw [stepActions_of_terminal hset.1.terminal]
        rfl
      rw [hnext, hset.1.foldl]
      exact h.followed_failed error
    | concluded output =>
      obtain ⟨hb, hnames⟩ := h.concluded
      have hlen : (w.report (.concluded output)).steps.length = w.steps.length := by
        have := congrArg List.length hnames
        unfold names at this
        rwa [List.length_map, List.length_map] at this
      have hdec := hb.drive newV5 h.known
      have hwithin := h.within
      have hnext : o.next newV5 w (.concluded output) =
        o.drive newV5 (w.report (.concluded output)) := rfl
      rw [hnext, ← hnames, ← hlen]
      show Followed _ _ _ _ (output :: stepResults rs) _
      cases hdec with
      | exhausted hmax hw =>
        rw [hw, (hb.applyFailed _).foldl]
        exact hb.followed_exhausted h.known (by omega)
      | finished hmax hs hw =>
        rw [hw, (hb.applyFinished).foldl]
        exact followed_applyFinished h.known hmax hs
      | @missing hmax target hs ht hw =>
        have hroute : (o.spec.routeFrom name (output :: stepResults rs)).tail = [target] := by
          rw [WorkflowRunSpec.routeFrom_cons_some _ hs, WorkflowRunSpec.routeFrom_of_missing ht]
          rfl
        rw [hw, (hb.applyFailed _).foldl]
        refine followed_applyFailed ?_ ?_ ?_ ?_
        · rw [String.append_assoc, String.append_assoc, String.append_assoc]
          exact budgetError_ne 5 (by decide) (by decide) _
        · rw [hroute, List.filter_eq_nil_iff]
          intro x hx
          rw [List.mem_singleton.mp (List.mem_of_mem_take hx), ht]
          exact nofun
        · rw [WorkflowRunSpec.resultFrom_cons_some _ h.known hs]
          exact WorkflowRunSpec.resultFrom_of_missing ht
        · rw [hroute, List.length_singleton]
          omega
      | started hmax hs ht hn hl =>
        refine Followed.step hmax h.known ht.known hs ?_
        rw [← hn, ← hl]
        exact ih ht

end

end WorkflowRunState

/-! ## Refinement -/

open WorkflowRunState

/-- A driven run refines the graph: it executes the route as far as its budget goes, it finishes
with the result of the route if that ends within the budget, and it fails for its budget only if
the route is longer. -/
structure Refines (newV5 : String → String → String) (o : WorkflowOrchestrator)
    (reports : List StepEnd) : Prop where
  executed : (o.driven newV5 reports).names =
    ((o.spec.route (stepResults reports)).take o.spec.maxSteps).filter o.spec.has
  finished : ∀ v, ((o.driven newV5 reports).status = .finished ∧
      (o.driven newV5 reports).output = some v) ↔
    o.spec.result (stepResults reports) = some v ∧
      (o.spec.route (stepResults reports)).length ≤ o.spec.maxSteps
  budget : Exhausted o.spec (o.driven newV5 reports) →
    o.spec.maxSteps < (o.spec.route (stepResults reports)).length

/-- The route ends, at a step from which nothing matches, with the very last execution the budget
allows. -/
def EndsAtBudget (spec : WorkflowRunSpec) (results : List Value) : Prop :=
  (spec.result results).isSome = true ∧ (spec.route results).length = spec.maxSteps

instance (spec : WorkflowRunSpec) (results : List Value) : Decidable (EndsAtBudget spec results) :=
  inferInstanceAs (Decidable (_ ∧ _))

section

variable {newV5 : String → String → String} {o : WorkflowOrchestrator} {reports : List StepEnd}

theorem followed_default (hs : Settled (o.drive newV5 .default))
    (hnames : (o.drive newV5 .default).names = [])
    (hfin : (o.drive newV5 .default).status ≠ .finished)
    (hroute : ((o.spec.route (stepResults reports)).take o.spec.maxSteps).filter o.spec.has = [])
    (hres : o.spec.result (stepResults reports) = none ∨ o.spec.maxSteps = 0)
    (hex : Exhausted o.spec (o.drive newV5 .default) ↔ o.spec.maxSteps = 0) :
    (Refines newV5 o reports) ∧ ¬ EndsAtBudget o.spec (stepResults reports) := by
  have hrun : o.driven newV5 reports = o.drive newV5 .default := hs.foldl reports
  have hpos : 0 < (o.spec.route (stepResults reports)).length := by
    unfold WorkflowRunSpec.route
    rw [WorkflowRunSpec.routeFrom_eq_cons]
    exact Nat.succ_pos _
  refine ⟨⟨?_, ?_, ?_⟩, ?_⟩
  · rw [hrun, hnames, hroute]
  · intro v
    rw [hrun]
    constructor
    · intro hf
      exact absurd hf.1 hfin
    · intro hf
      rcases hres with hres | hres
      · rw [hres] at hf
        exact absurd hf.1 nofun
      · omega
  · intro h
    rw [hrun, hex] at h
    omega
  · intro hend
    rcases hres with hres | hres
    · unfold EndsAtBudget at hend
      rw [hres] at hend
      exact absurd hend.1 nofun
    · have := hend.2
      omega

theorem standing_drive_default (hmax : o.spec.maxSteps ≠ 0)
    (hstart : o.spec.has o.spec.start = true) :
    Standing o.spec (o.drive newV5 .default) o.spec.start ∧
      (o.drive newV5 .default).names = [o.spec.start] ∧
      (o.drive newV5 .default).steps.length = 1 := by
  have hdrive : o.drive newV5 .default = WorkflowRunState.default.perform
      (o.start newV5 .default o.spec.start none none o.spec.input none) := by
    unfold WorkflowOrchestrator.drive WorkflowOrchestrator.stepActions
    rw [if_neg (by decide), if_neg (by show ¬ 0 ≥ _; omega)]
    unfold WorkflowRunSpec.has at hstart
    rw [← Option.not_isNone, Bool.not_eq_true'] at hstart
    simp only [WorkflowRunState.last, WorkflowRunState.default, List.getLast?_nil,
      Option.map_none, hstart, Bool.false_eq_true, if_false]
    rfl
  rw [hdrive]
  refine ⟨⟨⟨[], _, rfl, rfl, rfl, nofun⟩, hstart, ?_, .inl rfl⟩, rfl, rfl⟩
  show 1 ≤ _
  omega

/-- The driver refines the graph exactly on the runs whose route does not end at the budget. -/
theorem refines_iff : Refines newV5 o reports ↔ ¬ EndsAtBudget o.spec (stepResults reports) := by
  by_cases hmax : o.spec.maxSteps = 0
  · -- the budget is gone before the first step
    have hdrive : o.drive newV5 .default =
        WorkflowRunState.default.applyFailed (WorkflowOrchestrator.budgetError o.spec) := by
      unfold WorkflowOrchestrator.drive WorkflowOrchestrator.stepActions
      rw [if_neg (by decide), if_pos (by rw [hmax]; exact Nat.zero_le _)]
      rfl
    have hex : Exhausted o.spec (o.drive newV5 .default) ↔ o.spec.maxSteps = 0 :=
      ⟨fun _ => hmax, fun _ => by rw [hdrive]; exact ⟨rfl, rfl, nofun⟩⟩
    obtain ⟨href, hend⟩ := followed_default (by rw [hdrive]; exact ⟨rfl, rfl⟩)
      (by rw [hdrive]; rfl) (by rw [hdrive]; exact nofun) (by rw [hmax]; rfl) (.inr hmax) hex
    exact ⟨fun _ => hend, fun _ => href⟩
  by_cases hstart : o.spec.has o.spec.start = true
  · obtain ⟨hstand, hnames, hlen⟩ := standing_drive_default hmax hstart
    have hf := hstand.foldl newV5 reports
    have hlength : (o.spec.route (stepResults reports)).length =
        1 + (o.spec.routeFrom o.spec.start (stepResults reports)).tail.length := by
      unfold WorkflowRunSpec.route
      rw [WorkflowRunSpec.routeFrom_eq_cons, List.length_cons, List.tail_cons, Nat.add_comm]
    rw [hnames, hlen] at hf
    constructor
    · intro href hend
      obtain ⟨v, hv⟩ := Option.isSome_iff_exists.mp hend.1
      have hfin := (href.finished v).mpr ⟨hv, le_of_eq hend.2⟩
      have hlt := ((hf.finished v).mp hfin).2
      have := hend.2
      omega
    · intro hend
      refine ⟨?_, ?_, ?_⟩
      · refine hf.names.trans ?_
        have hsub : o.spec.maxSteps = o.spec.maxSteps - 1 + 1 := by omega
        unfold WorkflowRunSpec.route
        rw [WorkflowRunSpec.routeFrom_eq_cons]
        conv_rhs => rw [hsub]
        rw [List.take_succ_cons, List.filter_cons_of_pos hstart]
        rfl
      · intro v
        refine (hf.finished v).trans ?_
        constructor
        · rintro ⟨hv, hlt⟩
          exact ⟨hv, by omega⟩
        · rintro ⟨hv, hle⟩
          refine ⟨hv, lt_of_le_of_ne (by omega) ?_⟩
          intro heq
          exact hend ⟨Option.isSome_of_eq_some hv, by omega⟩
      · intro hex
        rcases hf.exhausted.mp hex with hlt | ⟨hsome, heq⟩
        · omega
        · exact absurd ⟨hsome, by omega⟩ hend
  · have hno : o.spec.has o.spec.start = false := Bool.eq_false_iff.mpr hstart
    have hdrive : o.drive newV5 .default = WorkflowRunState.default.applyFailed
        ("start step '" ++ o.spec.start ++ "' is not in this workflow") := by
      unfold WorkflowOrchestrator.drive WorkflowOrchestrator.stepActions
      rw [if_neg (by decide), if_neg (by show ¬ 0 ≥ _; omega)]
      unfold WorkflowRunSpec.has at hno
      rw [Option.isSome_eq_false_iff] at hno
      simp only [WorkflowRunState.last, WorkflowRunState.default, List.getLast?_nil,
        Option.map_none, hno, if_true]
      rfl
    have hroute : o.spec.route (stepResults reports) = [o.spec.start] :=
      WorkflowRunSpec.routeFrom_of_missing hno
    have htaken : ((o.spec.route (stepResults reports)).take o.spec.maxSteps).filter o.spec.has =
        [] := by
      rw [hroute, List.filter_eq_nil_iff]
      intro x hx
      rw [List.mem_singleton.mp (List.mem_of_mem_take hx), hno]
      exact nofun
    have hex : Exhausted o.spec (o.drive newV5 .default) ↔ o.spec.maxSteps = 0 := by
      constructor
      · intro hex
        rw [hdrive] at hex
        refine absurd (Option.some.inj hex.2.1) ?_
        rw [String.append_assoc]
        exact budgetError_ne 2 (by decide) (by decide) _
      · intro h
        exact absurd h hmax
    obtain ⟨href, hend⟩ := followed_default (by rw [hdrive]; exact ⟨rfl, rfl⟩)
      (by rw [hdrive]; rfl) (by rw [hdrive]; exact nofun) htaken
      (.inl (WorkflowRunSpec.resultFrom_of_missing hno)) hex
    exact ⟨fun _ => hend, fun _ => href⟩

end

/-- A graph of one step that nothing leads out of, with a budget of one. -/
def soleStep : WorkflowOrchestrator where
  runId := "run"
  spec := ⟨"file", "file", [⟨"file", "File it.", []⟩], "a bug", 1⟩

/-- The only step concludes, and the run fails for a budget that sufficed. -/
theorem soleStep_not_refines : ¬ Refines (· ++ ·) soleStep [.concluded .null] := by
  intro h
  have hfin := (h.finished .null).mpr (by decide)
  exact absurd hfin.1 (by decide)

end Horsie.Session
