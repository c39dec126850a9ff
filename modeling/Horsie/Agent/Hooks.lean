import Horsie.Agent.Message

/-!
# Plugin hooks

What a plugin hook did, as the transcript records it, and the two ways a record reaches a turn:
`translate` is the message a record shows the model, `startBlocked` the reason a start hook gave
for not running the turn. The payloads of the events no model-visible text comes from are left
out.
-/

namespace Horsie.Agent

inductive StartOutcome
  | ran (additionalContext : Option String)
  | failed (reason : String)
deriving DecidableEq

/-- Outcome of an event that may refuse what it guards. -/
inductive PromptOutcome
  | ran (additionalContext : Option String)
  | blocked (reason : Option String)
  | failed (reason : String)
deriving DecidableEq

inductive StopOutcome
  | ran (additionalContext : Option String)
  | blocked (reason : Option String)
  | failed (reason : String)
  | capReached (reason : Option String)
deriving DecidableEq

/-- What one hook did, tagged by the event it ran for. -/
inductive HookAction
  | preToolUse
  | postToolUse
  | postToolUseFailure
  | postToolBatch (outcome : PromptOutcome)
  | sessionStart (source : String) (outcome : StartOutcome)
  | sessionEnd
  | userPromptSubmit (outcome : PromptOutcome)
  | userPromptExpansion (command : String) (outcome : PromptOutcome)
  | stop (outcome : StopOutcome)
  | stopFailure
  | subagentStart (agentId agentType : String) (outcome : StartOutcome)
  | subagentStop (agentId agentType : String) (outcome : StopOutcome)
  | taskCreated
  | taskCompleted
  | notification
  | cwdChanged
  | preCompact (trigger : String) (outcome : StopOutcome)
  | postCompact
deriving DecidableEq

/-- The hook set `continue: false`. -/
structure HookHalt where
  reason : Option String
deriving DecidableEq

structure HookRecord where
  plugin : String
  durationMs : ℕ
  halt : Option HookHalt
  action : HookAction
deriving DecidableEq

/-- A hook record with its place in the transcript. -/
structure HookEntry where
  id : String
  createdAtMs : ℕ
  record : HookRecord
deriving DecidableEq

namespace StartOutcome

def context? : StartOutcome → Option String
  | .ran c => c
  | .failed _ => none

end StartOutcome

namespace PromptOutcome

def context? : PromptOutcome → Option String
  | .ran c => c
  | .blocked _ | .failed _ => none

/-- The reason of a refusal, `unsaid` where the hook gave none. -/
def refusal? (unsaid : String) : PromptOutcome → Option String
  | .blocked reason => some (reason.getD unsaid)
  | .ran _ | .failed _ => none

end PromptOutcome

namespace StopOutcome

def context? : StopOutcome → Option String
  | .ran c => c
  | .blocked _ | .failed _ | .capReached _ => none

end StopOutcome

namespace HookAction

/-- The event's name and the context it injects, for the events whose context has nowhere else
to live. A tool hook's is already in the tool's own output. -/
def injected? : HookAction → Option (String × String)
  | .sessionStart _ o => o.context?.map ("SessionStart", ·)
  | .userPromptSubmit o => o.context?.map ("UserPromptSubmit", ·)
  | .userPromptExpansion _ o => o.context?.map ("UserPromptExpansion", ·)
  | .stop o => o.context?.map ("Stop", ·)
  | .subagentStart _ _ o => o.context?.map ("SubagentStart", ·)
  | .subagentStop _ _ o => o.context?.map ("SubagentStop", ·)
  | .postToolBatch o => o.context?.map ("PostToolBatch", ·)
  | .preToolUse | .postToolUse | .postToolUseFailure | .sessionEnd | .stopFailure
  | .notification | .cwdChanged | .taskCreated | .taskCompleted | .preCompact _ _
  | .postCompact => none

end HookAction

def translate (entry : HookEntry) : Option Message :=
  entry.record.action.injected?.map fun (event, context) =>
    { id := "hook-context:" ++ entry.id
      role := .user
      parts := [.text ("<hook-context plugin=\"" ++ entry.record.plugin ++ "\" event=\"" ++ event ++
        "\">\n" ++ context ++ "\n</hook-context>")]
      createdAtMs := entry.createdAtMs
      startedAtMs := none }

theorem translate_spec {entry : HookEntry} {m : Message} (h : translate entry = some m) :
    m.role = .user ∧ m.callIds = [] ∧ m.resultIds = [] ∧ m.id = "hook-context:" ++ entry.id := by
  obtain ⟨⟨event, context⟩, -, rfl⟩ := Option.map_eq_some_iff.mp h
  exact ⟨rfl, rfl, rfl, rfl⟩

/-- Why this run must not start, if one of its start hooks said so. A halt comes before any
refusal. -/
def startBlocked (records : List HookRecord) : Option String :=
  match records.findSome? (·.halt) with
  | some halt =>
    some (halt.reason.getD "a start hook set continue: false, so this turn was not run")
  | none =>
    records.findSome? fun r =>
      match r.action with
      | .userPromptSubmit o => o.refusal? "a UserPromptSubmit hook blocked this prompt"
      | .userPromptExpansion _ o => o.refusal? "a UserPromptExpansion hook blocked this command"
      | .preToolUse | .postToolUse | .postToolUseFailure | .postToolBatch _ | .sessionStart _ _
      | .sessionEnd | .stop _ | .stopFailure | .subagentStart _ _ _ | .subagentStop _ _ _
      | .preCompact _ _ | .postCompact | .taskCreated | .taskCompleted | .notification
      | .cwdChanged => none

end Horsie.Agent
