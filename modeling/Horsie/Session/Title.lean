import Horsie.Session.State

/-!
# What a session is called

A session is titled by its agent's title tool, by a person, or once by the first message it gets.
The first and the last are recorded by asking the supervisor.
-/

namespace Horsie.Session

open Lib

def sessionTitleMaxChars : ℕ := 60

inductive SessionTitleError
  | empty
  | multiline
  | tooLong
deriving DecidableEq

def normalizeSessionTitle (input : String) : Except SessionTitleError String :=
  let title := trim input
  if title.isEmpty then .error .empty
  else if title.toList.any fun c => c = '\n' || c = '\r' then .error .multiline
  else if title.length > sessionTitleMaxChars then .error .tooLong
  else .ok title

/-- A short title from a first message. -/
def deriveTitle (text : String) : Option String :=
  let firstLine := trim (String.ofList (text.toList.takeWhile (· ≠ '\n')))
  if firstLine.isEmpty then none
  else if firstLine.length ≤ sessionTitleMaxChars then some firstLine
  else some (trimEnd (String.ofList (firstLine.toList.take sessionTitleMaxChars)) ++ "…")

/-- The command a text invokes: what follows the slash, up to the first white space. -/
def invoked (text : String) : Option String :=
  match text.toList with
  | '/' :: rest => some (String.ofList (rest.takeWhile fun c => !isWhite c))
  | _ => none

def isSubSessionRequest (text : String) : Bool :=
  invoked (trim text) = some "fork" || invoked (trim text) = some "summary-n-fork"

namespace SessionState

def isWorkflow (s : SessionState) : Bool :=
  match s.spec with
  | some ⟨.workflow _, _⟩ => true
  | some ⟨.agent, _⟩ | none => false

def toMain (agent : Option String) : Bool := agent.getD "main" = "main"

/-- Whether a message finds an agent, spawned if it is not resident. A main agent always is. -/
def resolves (s : SessionState) (agent : Option String) : Bool :=
  if toMain agent then true
  else
    match s.forest.ownerOfAgent (agent.getD "main") with
    | some (_, ⟨_, .workflow _⟩) =>
      (s.forest.stepOfAgent (agent.getD "main")).any fun (w, step) =>
        w.graph.steps.any (·.name = step.step)
    | some (_, ⟨_, .main _⟩) | some (_, ⟨_, .sub _⟩) | some (_, ⟨_, .subSession _⟩) => true
    | none => false

/-- Whether a message is taken as one: the session lives, it is not addressed to a workflow, it
finds its agent and does not ask for a sub session. -/
def takes (s : SessionState) (agent : Option String) (text : String) : Bool :=
  s.spec.isSome && s.fatal.isNone && !(s.isWorkflow && toMain agent) && s.resolves agent &&
    !isSubSessionRequest text

def titleFromFirstMessage (s : SessionState) (agent : Option String) (text : String) :
    Option String :=
  if s.takes agent text && s.forest.mainTitle.isNone then deriveTitle text else none

def titleFromTool (s : SessionState) (title : String) : Option String :=
  if s.spec.isSome then (normalizeSessionTitle title).toOption else none

end SessionState

end Horsie.Session
