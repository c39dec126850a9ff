import Horsie.Lib.Checks
import Horsie.Session.Workflow

/-!
# Workflow definitions

A definition is checked when it is saved, and made into the graph of a run when one is started. Each
step promises a result: an outcome of those it declares, a description, and what fields it adds;
what it submits is checked against that. `valid_of_validate` is what a saved definition is known to
be, and `outcome_of_validateResult` what an accepted result is known to say.
-/

namespace Horsie.Session

open Lib
open Agent (Value)

/-! ## Results -/

structure StepOutcome where
  value : String
  description : String

inductive StepFieldType
  | string
  | number
  | boolean
  | stringList
deriving DecidableEq

structure StepField where
  name : String
  kind : StepFieldType
  description : String
  required : Option Bool

def defaultOutcomes : List StepOutcome :=
  [⟨"success", "The step did what it was asked to do."⟩,
    ⟨"failure", "The step could not do what it was asked to do."⟩]

def outcomesOrDefault : Option (List StepOutcome) → List StepOutcome
  | some (o :: os) => o :: os
  | some [] | none => defaultOutcomes

namespace StepFieldType

def admits : StepFieldType → Value → Bool
  | .string, .str _ | .number, .num _ | .boolean, .bool _ => true
  | .stringList, .arr items => items.all fun i => i.asStr.isSome
  | _, _ => false

def describe : StepFieldType → String
  | .string => "a string"
  | .number => "a number"
  | .boolean => "true or false"
  | .stringList => "an array of strings"

end StepFieldType

/-- A field that is there is of its type. One that need not be there may be null. -/
def validateField (value : Value) (field : StepField) : Except String Unit :=
  match value.get field.name with
  | none => require (!field.required.getD false) ("'" ++ field.name ++ "' is required")
  | some present =>
    require ((present = .null && !field.required.getD false) || field.kind.admits present)
      ("'" ++ field.name ++ "' must be " ++ field.kind.describe)

def validateResult (value : Value) (outcomes : List StepOutcome) (fields : List StepField) :
    Except String Unit :=
  if value.asObject.isNone then .error "the result must be an object"
  else
    match (value.get outcomeField).bind Value.asStr with
    | none => .error ("'" ++ outcomeField ++ "' is required and must be a string")
    | some outcome => do
      require (outcomes.any fun o => o.value = outcome)
        ("'" ++ outcome ++ "' is not one of this step's outcomes: " ++
          ", ".intercalate (outcomes.map (·.value)))
      match (value.get descriptionField).bind Value.asStr with
      | none => .error ("'" ++ descriptionField ++ "' is required and must be a string")
      | some description => do
        require (!isBlank description) ("'" ++ descriptionField ++
          "' must say what this step did — the next step is handed it")
        checkAll (validateField value) fields

theorem outcome_of_validateResult {value : Value} {outcomes : List StepOutcome}
    {fields : List StepField} (h : validateResult value outcomes fields = .ok ()) :
    ∃ o ∈ outcomes, o.value = outcomeOf value := by
  unfold validateResult at h
  split_ifs at h
  unfold outcomeOf
  cases hout : (value.get outcomeField).bind Value.asStr with
  | none =>
    rw [hout] at h
    cases h
  | some outcome =>
    rw [hout] at h
    have hdeclared := require_eq_ok.mp (bind_eq_ok.mp h).1
    obtain ⟨o, ho, hvalue⟩ := List.any_eq_true.mp hdeclared
    exact ⟨o, ho, of_decide_eq_true hvalue⟩

/-! ## Definitions -/

structure WorkflowStepDef where
  name : String
  agent : String
  prompt : String
  outcomes : Option (List StepOutcome)
  fields : Option (List StepField)
  transitions : Option (List TransitionSpec)

/-- A definition, as it is saved and as it is read back. -/
structure WorkflowInput where
  name : String
  start : String
  steps : List WorkflowStepDef
  maxSteps : Option ℕ

def validateSlug (s : String) : Except String Unit := do
  require (!s.isEmpty) "name must not be empty"
  require (s.toList.length ≤ 64) "name must be at most 64 characters"
  require (s.toList.head?.any fun c => c.isLower || c.isDigit)
    ("name '" ++ s ++ "' must start with a lowercase letter or digit")
  require (s.toList.all fun c => c.isLower || c.isDigit || c = '.' || c = '_' || c = '-')
    ("name '" ++ s ++ "' may only contain lowercase letters, digits, '.', '_' and '-'")

/-- The outcomes of a step have values and descriptions, and no two are the same. -/
def checkOutcomes (invalid : String → String) (seen : List String) :
    List StepOutcome → Except String Unit
  | [] => .ok ()
  | o :: os => do
    require (!isBlank o.value) (invalid "an outcome needs a value")
    require (!isBlank o.description) (invalid ("outcome '" ++ o.value ++
      "' needs a description — it is what the model reads to choose between them"))
    require (!seen.contains o.value) (invalid ("two outcomes are both '" ++ o.value ++
      "'; a transition addresses them by value"))
    checkOutcomes invalid (o.value :: seen) os

/-- The fields of a step have names of their own and descriptions. -/
def checkFields (invalid : String → String) (seen : List String) :
    List StepField → Except String Unit
  | [] => .ok ()
  | f :: fs => do
    require (!isBlank f.name) (invalid "a result field needs a name")
    require (f.name ≠ outcomeField && f.name ≠ descriptionField) (invalid ("'" ++ f.name ++
      "' is one of the two fields every result carries; name it something else"))
    require (!isBlank f.description) (invalid ("field '" ++ f.name ++
      "' needs a description — an undocumented field is one the model fills in by guessing"))
    require (!seen.contains f.name) (invalid ("two fields are both named '" ++ f.name ++ "'"))
    checkFields invalid (f.name :: seen) fs

namespace WorkflowStepDef

variable (s : WorkflowStepDef)

/-- What a step promises to return holds together on its own. -/
def validateResultContract : Except String Unit := do
  let invalid (m : String) : String := "step '" ++ s.name ++ "': " ++ m
  match s.outcomes with
  | none => .ok ()
  | some [] =>
    .error (invalid "declare at least one outcome, or leave `outcomes` unset for success/failure")
  | some outcomes => checkOutcomes invalid [] outcomes
  checkFields invalid [] (s.fields.getD [])

/-- A transition without a filter comes last. -/
def validateCatchAll : Except String Unit :=
  let transitions := s.transitions.getD []
  match transitions.findIdx? fun t => t.filter.isNone with
  | none => .ok ()
  | some first =>
    let target := ((transitions[first]?).map (·.target)).getD ""
    let behind := if transitions.length - first = 2 then "one" else
      toString (transitions.length - first - 1)
    require (transitions.length ≤ first + 1) ("step '" ++ s.name ++ "': the transition to '" ++
      target ++ "' has no outcome filter, so it is the catch-all and must come last — the " ++
      behind ++ " after it can never be reached")

def validateFilter (filter : OutcomeFilter) : Except String Unit := do
  let declared := outcomesOrDefault s.outcomes
  let values :=
    match filter with
    | .isIn values | .notIn values => values
  require (!values.isEmpty) ("step '" ++ s.name ++ "': a transition filter names no outcomes")
  checkAll (fun v => require (declared.any fun o => o.value = v) ("step '" ++ s.name ++
    "' transitions on outcome '" ++ v ++ "', which it does not declare; it reports: " ++
    ", ".intercalate (declared.map (·.value)))) values

/-- A transition leads to one of the steps, on outcomes that can be reported. -/
def validateTransition (names : List String) (t : TransitionSpec) : Except String Unit := do
  require (names.contains t.target) ("step '" ++ s.name ++ "' transitions to '" ++ t.target ++
    "', which is not a step")
  match t.filter with
  | none => .ok ()
  | some filter => s.validateFilter filter

def validateEdges (knows : String → Bool) (names : List String) : Except String Unit := do
  s.validateCatchAll
  checkAll (s.validateTransition names) (s.transitions.getD [])
  require (knows s.agent) ("step '" ++ s.name ++ "': unknown agent preset '" ++ s.agent ++ "'")

end WorkflowStepDef

/-- Every step has a name of its own, a prompt, and a result that holds together. -/
def checkSteps (seen : List String) : List WorkflowStepDef → Except String Unit
  | [] => .ok ()
  | s :: steps => do
    require (!isBlank s.name) "every step needs a name"
    require (!seen.contains s.name) ("two steps are named '" ++ s.name ++
      "'; transitions address steps by name")
    require (!isBlank s.prompt) ("step '" ++ s.name ++
      "': prompt must not be empty — it is the step's whole instruction")
    s.validateResultContract
    checkSteps (s.name :: seen) steps

namespace WorkflowInput

variable (d : WorkflowInput)

/-- Whether a definition is saved, where `knows` are the presets there are. -/
def validate (knows : String → Bool) : Except String Unit := do
  validateSlug d.name
  require (!d.steps.isEmpty) "a workflow needs at least one step"
  require (d.maxSteps ≠ some 0) "max_steps must be at least 1, or absent for the default"
  checkSteps [] d.steps
  require ((d.steps.map (·.name)).contains d.start)
    ("start step '" ++ d.start ++ "' is not one of the steps")
  checkAll (fun s => s.validateEdges knows (d.steps.map (·.name))) d.steps

def step (name : String) : Option WorkflowStepDef := d.steps.find? (·.name = name)

def Declares (name outcome : String) : Prop :=
  ∃ s, d.step name = some s ∧ ∃ o ∈ outcomesOrDefault s.outcomes, o.value = outcome

def Accepts (name : String) (output : Value) : Prop :=
  ∃ s, d.step name = some s ∧
    validateResult output (outcomesOrDefault s.outcomes) (s.fields.getD []) = .ok ()

/-- What a saved definition is known to be, as far as its driver reads it: it begins with a step,
and transitions lead to steps. -/
structure Valid : Prop where
  start : (d.step d.start).isSome
  target : ∀ s ∈ d.steps, ∀ t ∈ s.transitions.getD [], (d.step t.target).isSome

variable {d}

theorem Accepts.declares {name : String} {output : Value} (h : d.Accepts name output) :
    d.Declares name (outcomeOf output) := by
  obtain ⟨s, hs, hvalid⟩ := h
  exact ⟨s, hs, outcome_of_validateResult hvalid⟩

theorem step_isSome_of_mem {name : String} (h : name ∈ d.steps.map (·.name)) :
    (d.step name).isSome := by
  obtain ⟨s, hs, hname⟩ := List.mem_map.mp h
  exact List.find?_isSome.mpr ⟨s, hs, decide_eq_true hname⟩

theorem valid_of_validate {knows : String → Bool} (h : d.validate knows = .ok ()) : d.Valid := by
  unfold validate at h
  obtain ⟨-, -, -, -, hstart, hedges⟩ := by simpa only [bind_eq_ok] using h
  refine ⟨step_isSome_of_mem (List.contains_iff_mem.mp (require_eq_ok.mp hstart)), ?_⟩
  intro s hs t ht
  have hs := checkAll_eq_ok.mp hedges s hs
  unfold WorkflowStepDef.validateEdges at hs
  have ht := checkAll_eq_ok.mp (bind_eq_ok.mp (bind_eq_ok.mp hs).2).1 t ht
  unfold WorkflowStepDef.validateTransition at ht
  exact step_isSome_of_mem (List.contains_iff_mem.mp (require_eq_ok.mp (bind_eq_ok.mp ht).1))

end WorkflowInput

/-! ## Graphs -/

structure AgentPreset where
  model : String
  plugins : List String

/-- A graph ready to run, and the bundles of its steps. -/
structure ResolvedRun where
  run : WorkflowRunSpec
  plugins : List String
deriving DecidableEq

def defaultMaxSteps : ℕ := 1000

def WorkflowStepDef.resolve (s : WorkflowStepDef) : WorkflowStepSpec :=
  ⟨s.name, s.prompt, s.transitions.getD []⟩

def assembleSteps (presets : String → Option AgentPreset) (models plugins : List String) :
    List WorkflowStepDef → Except String (List WorkflowStepSpec × List String)
  | [] => .ok ([], plugins)
  | s :: steps =>
    match presets s.agent with
    | none =>
      .error ("step '" ++ s.name ++ "': agent preset '" ++ s.agent ++ "' no longer exists")
    | some preset =>
      if models.contains preset.model then
        let union := preset.plugins.foldl (fun ps p => if ps.contains p then ps else ps ++ [p])
          plugins
        (assembleSteps presets models union steps).map fun rest => (s.resolve :: rest.1, rest.2)
      else
        .error ("step '" ++ s.name ++ "': model '" ++ preset.model ++ "' is no longer configured")

def assembleRunSpec (d : WorkflowInput) (presets : String → Option AgentPreset)
    (models : List String) (input : String) : Except String ResolvedRun :=
  if isBlank input then .error "input must not be empty — it is what the first step is handed"
  else
    (assembleSteps presets models [] d.steps).map fun steps =>
      { run := ⟨d.name, d.start, steps.1, input, d.maxSteps.getD defaultMaxSteps⟩
        plugins := steps.2 }

theorem assembleSteps_eq {presets : String → Option AgentPreset} {models plugins : List String}
    {steps : List WorkflowStepDef} {r : List WorkflowStepSpec × List String}
    (h : assembleSteps presets models plugins steps = .ok r) : r.1 = steps.map (·.resolve) := by
  induction steps generalizing plugins r with
  | nil =>
    cases h
    rfl
  | cons s steps ih =>
    rw [assembleSteps] at h
    split at h
    · cases h
    · split_ifs at h
      dsimp only at h
      cases hrest : assembleSteps presets models _ steps with
      | error e =>
        rw [hrest] at h
        cases h
      | ok rest =>
        rw [hrest] at h
        cases h
        exact congrArg (s.resolve :: ·) (ih hrest)

theorem step_assembleRunSpec {d : WorkflowInput} {presets : String → Option AgentPreset}
    {models : List String} {input : String} {r : ResolvedRun}
    (h : assembleRunSpec d presets models input = .ok r) :
    r.run.start = d.start ∧
      ∀ name, r.run.step name = (d.step name).map WorkflowStepDef.resolve := by
  unfold assembleRunSpec at h
  split_ifs at h
  cases hsteps : assembleSteps presets models [] d.steps with
  | error e =>
    rw [hsteps] at h
    cases h
  | ok steps =>
    rw [hsteps] at h
    cases h
    refine ⟨rfl, fun name => ?_⟩
    show steps.1.find? (fun s : WorkflowStepSpec => decide (s.name = name)) = _
    rw [assembleSteps_eq hsteps, List.find?_map]
    rfl

end Horsie.Session
