import Horsie.Lib.Asking
import Horsie.Lib.Links
import Horsie.Lib.Text
import Horsie.Plugins.Row

/-!
# Reading a plugin's tree

A plugin is read off a directory: its manifest in one of two dialects, the skills, agents and
commands that the manifest or the conventions point at, its hooks, and the catalogue of what it
offers. Each is a look at a path, and what is found there decides what is looked at next.
-/

namespace Horsie.Plugins

open Horsie.Lib

/-! ## Values of formats that are read elsewhere -/

/-- A JSON value, as far as it is told apart. -/
inductive Json where
  | str (s : String)
  | num (n : ℕ)
  | arr (values : List Json)
  | obj (members : List (String × Json))
  | other

namespace Json

def get : Json → String → Option Json
  | obj members, key => members.lookup key
  | _, _ => none

def asStr : Json → Option String
  | str s => some s
  | _ => none

def asArray : Json → Option (List Json)
  | arr values => some values
  | _ => none

def asObject : Json → Option (List (String × Json))
  | obj members => some members
  | _ => none

def asU64 : Json → Option ℕ
  | num n => some n
  | _ => none

end Json

inductive StringOrList where
  | one (s : String)
  | many (ss : List String)

def StringOrList.intoVec : StringOrList → List String
  | one s => [s]
  | many ss => ss

structure RawManifest where
  schema : Option String
  name : Option String
  version : Option String
  description : Option String
  skills : Option StringOrList
  agents : Option StringOrList
  commands : Option StringOrList

structure RawMarketplace where
  name : Option String
  plugins : List Json

/-- What is done by other code: JSON and YAML texts read into values, a zip written, a hash taken,
and the head of a clone asked for. -/
structure Tools where
  manifestJson : String → Except String RawManifest
  marketplaceJson : String → Except String RawMarketplace
  json : String → Except String Json
  yamlMapping : String → Option (List (Option String × Option String))
  zip : List (String × Bytes) → Except String Bytes
  sha256 : Bytes → String
  headSha : Option (LinkTree Bytes) → Option String

/-! ## Paths -/

def stripDotSlash : List Char → List Char
  | '.' :: '/' :: rest => stripDotSlash rest
  | rest => rest

def joinDeclared (root : RawPath) (declared : String) : RawPath :=
  let rest := String.ofList (stripDotSlash declared.toList)
  if rest = "" ∨ rest = "." then root else root.join (.ofString rest)

/-- A file name in front of its last dot and behind it, which is not its first character. -/
def splitExtension (name : String) : String × Option String :=
  let behind := (name.toList.reverse.takeWhile (· ≠ '.')).reverse
  let before := (name.toList.reverse.dropWhile (· ≠ '.')).reverse.dropLast
  if before = [] then (name, none) else (String.ofList before, some (String.ofList behind))

def isMarkdown (p : RawPath) : Bool :=
  (p.fileName.bind (splitExtension · |>.2)).any fun e =>
    e.toList.map Char.toLower = ['m', 'd']

def nameOf (p : RawPath) : Option String := p.fileName.map (splitExtension · |>.1)

/-! ## Looking -/

abbrev Reading := Asking RawPath (Option (LinkTree Bytes))

def isFile (p : RawPath) : Reading Bool := do
  match ← ask p with
  | some (.file _) => pure true
  | _ => pure false

def readDir (p : RawPath) : Reading (Option (List String)) := do
  match ← ask p with
  | some (.dir entries) => pure (some (entries.map (·.1)))
  | _ => pure none

def readToString (p : RawPath) : Reading (Except String String) := do
  match ← ask p with
  | some (.file bytes) =>
    match String.fromUTF8? ⟨bytes.toArray⟩ with
    | some text => pure (.ok text)
    | none => pure (.error "stream did not contain valid UTF-8")
  | some (.dir _) => pure (.error "Is a directory (os error 21)")
  | _ => pure (.error "No such file or directory (os error 2)")

def filterPaths (p : RawPath → Reading Bool) : List RawPath → Reading (List RawPath)
  | [] => pure []
  | path :: paths => do
    let keep ← p path
    let rest ← filterPaths p paths
    pure (if keep then path :: rest else rest)

/-- What several looks come to, one after the other. -/
def collect {α β : Type} (f : α → Reading (List β)) : List α → Reading (List β)
  | [] => pure []
  | a :: as => do
    let found ← f a
    let rest ← collect f as
    pure (found ++ rest)

/-! ## The manifest -/

structure PluginManifest where
  dialect : ManifestDialect
  name : Option String
  version : Option String
  description : Option String
  skills : List String
  agents : List String
  commands : List String

def agentPluginsSchemaPrefix : String := "https://agent-plugins.org/schemas/"

def validateName (name : String) : Except String Unit :=
  let complaint (why : String) : Except String Unit := .error s!"plugin name '{name}': {why}"
  let alnum (c : Char) : Bool := ('a' ≤ c ∧ c ≤ 'z') ∨ ('0' ≤ c ∧ c ≤ '9')
  let chars := name.toList
  if chars.isEmpty || 64 < chars.length then complaint "must be 1 to 64 characters"
  else
    match chars.find? fun c => !(alnum c || c == '-' || c == '.') with
    | some bad =>
      complaint
        s!"may only contain lowercase letters, digits, '-' and '.', but has '{String.ofList [bad]}'"
    | none =>
      if !chars.head?.any alnum || !chars.getLast?.any alnum then
        complaint "must start and end with a letter or digit"
      else if (chars.zip chars.tail).any (fun p => p = ('-', '-') ∨ p = ('.', '.')) then
        complaint "may not contain '--' or '..'"
      else .ok ()

namespace PluginManifest

def claudePath (pluginRoot : RawPath) : RawPath :=
  pluginRoot.child [".claude-plugin", "plugin.json"]

def agentPluginPath (pluginRoot : RawPath) : RawPath := pluginRoot.child ["plugin.json"]

def common (raw : RawManifest) (dialect : ManifestDialect) : PluginManifest :=
  ⟨dialect, raw.name, raw.version, raw.description, [], [], []⟩

def parse (tools : Tools) (path : RawPath) : Reading (Except String RawManifest) := do
  match ← readToString path with
  | .error e => pure (.error s!"read {path.display}: {e}")
  | .ok text => pure ((tools.manifestJson text).mapError fun e => s!"plugin.json: {e}")

def ofClaude (raw : RawManifest) : PluginManifest :=
  { common raw .claude with
    skills := (raw.skills.map (·.intoVec)).getD []
    agents := (raw.agents.map (·.intoVec)).getD []
    commands := (raw.commands.map (·.intoVec)).getD [] }

/-- The portable dialect needs its schema and a name. -/
def ofAgentPlugin (raw : RawManifest) : Except String PluginManifest :=
  match raw.schema with
  | none => .error "plugin.json: '$schema' is required"
  | some s =>
    if agentPluginsSchemaPrefix.toList.isPrefixOf s.toList then
      match raw.name with
      | none => .error "plugin.json: 'name' is required"
      | some name =>
        match validateName name with
        | .error e => .error s!"plugin.json: {e}"
        | .ok () => .ok (common raw .agentPlugin)
    else
      .error (s!"plugin.json: '$schema' is '{s}', not an Agent Plugins schema " ++
        s!"({agentPluginsSchemaPrefix}…)")

def read (tools : Tools) (pluginRoot : RawPath) :
    Reading (Except String (Option PluginManifest)) := do
  if ← isFile (claudePath pluginRoot) then
    return (← parse tools (claudePath pluginRoot)).map fun raw => some (ofClaude raw)
  if ← isFile (agentPluginPath pluginRoot) then
    return ((← parse tools (agentPluginPath pluginRoot)).bind ofAgentPlugin).map some
  return .ok none

end PluginManifest

/-! ## Skills, agents and commands -/

/-- Where a manifest puts one kind of component, or the place it has by convention. -/
def locations (pluginRoot : RawPath) (declared : Option (List String)) (conventional : String) :
    List RawPath :=
  match declared with
  | some (root :: roots) => (root :: roots).map (joinDeclared pluginRoot)
  | _ => [pluginRoot.child [conventional]]

def skillLocations (pluginRoot : RawPath) (manifest : Option PluginManifest) : List RawPath :=
  locations pluginRoot (manifest.map (·.skills)) "skills"

def agentLocations (pluginRoot : RawPath) (manifest : Option PluginManifest) : List RawPath :=
  locations pluginRoot (manifest.map (·.agents)) "agents"

def commandLocations (pluginRoot : RawPath) (manifest : Option PluginManifest) : List RawPath :=
  locations pluginRoot (manifest.map (·.commands)) "commands"

def skillDirs (pluginRoot : RawPath) (manifest : Option PluginManifest) :
    Reading (List RawPath) := do
  let dirs ← collect (fun root => do
    match ← readDir root with
    | none => pure []
    | some names =>
      filterPaths (fun dir => isFile (dir.child ["SKILL.md"]))
        (names.map fun name => root.child [name])) (skillLocations pluginRoot manifest)
  return RawPath.sort dirs

def markdownFiles (places : List RawPath) : Reading (List RawPath) := do
  let files ← collect (fun location => do
    if ← isFile location then
      pure (if isMarkdown location then [location] else [])
    else
      match ← readDir location with
      | none => pure []
      | some names =>
        filterPaths (fun path => do return (← isFile path) && isMarkdown path)
          (names.map fun name => location.child [name])) places
  return RawPath.sort files

def agentFiles (pluginRoot : RawPath) (manifest : Option PluginManifest) :
    Reading (List RawPath) :=
  markdownFiles (agentLocations pluginRoot manifest)

def commandFiles (pluginRoot : RawPath) (manifest : Option PluginManifest) :
    Reading (List RawPath) :=
  markdownFiles (commandLocations pluginRoot manifest)

/-! ## Frontmatter -/

def linesInclusive : List Char → List (List Char)
  | [] => []
  | c :: cs =>
    if c = '\n' then [c] :: linesInclusive cs
    else
      match linesInclusive cs with
      | [] => [[c]]
      | line :: lines => (c :: line) :: lines

/-- The line a header stands between. -/
def fence : String := String.ofList (List.replicate 3 '-')

def isFence (line : List Char) : Bool :=
  (line.reverse.dropWhile fun c => c = '\r' ∨ c = '\n').reverse = ['-', '-', '-']

/-- The lines in front of the closing fence and those behind it. -/
def splitFence : List (List Char) → Option (List (List Char) × List (List Char))
  | [] => none
  | line :: lines =>
    if isFence line then some ([], lines)
    else (splitFence lines).map fun p => (line :: p.1, p.2)

/-- The two halves of a document with a fenced header. -/
def frontmatterSplit (content : String) : Option (String × String) :=
  let halves (rest : List Char) : Option (String × String) :=
    (splitFence (linesInclusive rest)).map fun p =>
      (String.ofList p.1.flatten, String.ofList p.2.flatten)
  match content.toList with
  | '-' :: '-' :: '-' :: '\n' :: rest => halves rest
  | '-' :: '-' :: '-' :: '\r' :: '\n' :: rest => halves rest
  | _ => none

def frontmatterPairs (tools : Tools) (front : String) : Option (List (String × String)) :=
  (tools.yamlMapping front).map fun entries => entries.filterMap fun e =>
    match e with
    | (some key, some value) => some (key, value)
    | _ => none

def lastValue (pairs : List (String × String)) (key : String) : Option String :=
  pairs.reverse.lookup key

def skillParse (tools : Tools) (content : String) : Option (String × String) := do
  let (front, _) ← frontmatterSplit content
  let pairs ← frontmatterPairs tools front
  return (← lastValue pairs "name", ← lastValue pairs "description")

/-- The name and the description of an agent, neither of them empty. -/
def agentParse (tools : Tools) (content : String) : Option (String × String) := do
  let (front, _) ← frontmatterSplit content
  let pairs ← frontmatterPairs tools front
  let name := (lastValue pairs "name").getD ""
  let description := (lastValue pairs "description").getD ""
  if name = "" ∨ description = "" then none else some (name, description)

def commandParse (tools : Tools) (name content : String) : Option CatalogEntry := do
  let (front, body) ← frontmatterSplit content
  let pairs ← frontmatterPairs tools front
  let description := (lastValue pairs "description").getD ""
  if description = "" then none
  else some ⟨.command, name, description, lastValue pairs "argument-hint", some (trim body)⟩

/-! ## Hooks -/

inductive Unsupported where
  | notImplemented
  | noConcept
  | unknown
  deriving DecidableEq

def Unsupported.explain (event : String) : Unsupported → String
  | notImplemented => s!"'{event}' is a Claude Code hook horsie has not implemented yet " ++
      "— open an issue if you need it"
  | noConcept => s!"'{event}' has no equivalent in horsie, so its hook can never run"
  | unknown => s!"'{event}' is not a known Claude Code hook event"

def wiredEvents : List String :=
  ["PreToolUse", "PostToolUse", "SessionStart", "SubagentStart", "UserPromptSubmit",
    "UserPromptExpansion", "Stop", "SubagentStop", "PreCompact", "PostCompact"]

/-- The events that are described and fired nowhere. -/
def unwiredEvents : List String :=
  ["PostToolUseFailure", "PostToolBatch", "SessionEnd", "StopFailure", "TaskCreated",
    "TaskCompleted", "Notification", "CwdChanged"]

def noConceptEvents : List String :=
  ["PermissionRequest", "PermissionDenied", "FileChanged", "ConfigChange", "DirectoryAdded",
    "Setup", "MessageDisplay", "TeammateIdle", "WorktreeCreate", "WorktreeRemove", "Elicitation",
    "ElicitationResult", "InstructionsLoaded"]

def classifyEvent (name : String) : Except Unsupported String :=
  if name ∈ wiredEvents then .ok name
  else if name ∈ unwiredEvents then .error .notImplemented
  else if name ∈ noConceptEvents then .error .noConcept
  else .error .unknown

inductive HookTransport where
  | command (command : String)
  | http (url : String) (headers : List (String × String)) (allowedEnvVars : List String)

structure HookDecl where
  event : String
  matcher : Option String
  transport : HookTransport
  timeout : Option ℕ

structure PluginHooks where
  decls : List HookDecl
  unsupported : List (String × Unsupported)

def transportOf (hook : Json) : Option HookTransport :=
  match (hook.get "type").bind (·.asStr) with
  | some "command" => ((hook.get "command").bind (·.asStr)).map .command
  | some "http" => ((hook.get "url").bind (·.asStr)).map fun url =>
      .http url
        ((((hook.get "headers").bind (·.asObject)).getD []).filterMap fun p =>
          p.2.asStr.map (p.1, ·))
        ((((hook.get "allowedEnvVars").bind (·.asArray)).getD []).filterMap (·.asStr))
  | _ => none

def eventDecls (event : String) (matchers : Json) : List HookDecl :=
  (matchers.asArray.getD []).flatMap fun entry =>
    (((entry.get "hooks").bind (·.asArray)).getD []).filterMap fun hook =>
      (transportOf hook).map fun transport =>
        ⟨event, (entry.get "matcher").bind (·.asStr), transport,
          (hook.get "timeout").bind (·.asU64)⟩

def hooksOfJson (json : Json) : PluginHooks :=
  match (json.get "hooks").bind (·.asObject) with
  | none => ⟨[], []⟩
  | some events =>
    ⟨events.flatMap fun e =>
        match classifyEvent e.1 with
        | .ok event => eventDecls event e.2
        | .error _ => [],
      events.filterMap fun e =>
        match classifyEvent e.1 with
        | .ok _ => none
        | .error why => some (e.1, why)⟩

def hooksPath (pluginRoot : RawPath) : RawPath := pluginRoot.child ["hooks", "hooks.json"]

def readHooks (tools : Tools) (pluginRoot : RawPath) : Reading (Except String PluginHooks) := do
  if ← isFile (hooksPath pluginRoot) then
    match ← readToString (hooksPath pluginRoot) with
    | .error e => return .error s!"read {(hooksPath pluginRoot).display}: {e}"
    | .ok text =>
      match tools.json text with
      | .error e => return .error s!"hooks.json: {e}"
      | .ok json => return .ok (hooksOfJson json)
  return .ok ⟨[], []⟩

/-! ## The plugin root -/

/-- An inspected directory. -/
structure PluginRoot where
  dir : RawPath
  manifest : Option PluginManifest
  skillDirs : List RawPath
  agentFiles : List RawPath
  commandFiles : List RawPath

namespace PluginRoot

def inspect (tools : Tools) (dir : RawPath) : Reading (Except String PluginRoot) := do
  match ← PluginManifest.read tools dir with
  | .error e => return .error e
  | .ok manifest =>
    let skillDirs ← Plugins.skillDirs dir manifest
    let agentFiles ← Plugins.agentFiles dir manifest
    let commandFiles ← Plugins.commandFiles dir manifest
    return .ok ⟨dir, manifest, skillDirs, agentFiles, commandFiles⟩

variable (root : PluginRoot)

def dialect : ManifestDialect := (root.manifest.map (·.dialect)).getD .claude

def name (fallback : String) : String := (root.manifest.bind (·.name)).getD fallback

def version : Option String := root.manifest.bind (·.version)

def description : Option String := root.manifest.bind (·.description)

def declaresHooks (tools : Tools) : Reading Bool := do
  match ← readHooks tools root.dir with
  | .ok hooks => return !hooks.decls.isEmpty || !hooks.unsupported.isEmpty
  | .error _ => return false

def isInstallable (tools : Tools) : Reading Bool := do
  if root.manifest.isSome || !root.skillDirs.isEmpty || !root.agentFiles.isEmpty ||
      !root.commandFiles.isEmpty then
    return true
  root.declaresHooks tools

/-- A path as it is shown, without the directory it is below. -/
def relative (p : RawPath) : String :=
  if p.absolute = root.dir.absolute ∧ root.dir.comps.isPrefixOf p.comps then
    (RawPath.mk false (p.comps.drop root.dir.comps.length)).display
  else p.display

def rejection : String :=
  let shown (paths : List RawPath) := ", ".intercalate (paths.map root.relative)
  s!"no manifest and nothing horsie can run: no {shown [PluginManifest.claudePath root.dir]} " ++
    s!"or {shown [PluginManifest.agentPluginPath root.dir]}, no */SKILL.md under " ++
    s!"{shown (skillLocations root.dir root.manifest)}, no *.md under " ++
    s!"{shown (agentLocations root.dir root.manifest)} or " ++
    s!"{shown (commandLocations root.dir root.manifest)}, no hooks/hooks.json"

end PluginRoot

/-! ## The catalogue -/

def CatalogKind.rank : CatalogKind → ℕ
  | command => 0
  | skill => 1
  | agent => 2

/-- The order of a catalogue: by kind, then by name. -/
def CatalogEntry.le (a b : CatalogEntry) : Bool :=
  a.kind.rank < b.kind.rank || (a.kind.rank = b.kind.rank && a.name ≤ b.name)

def buildCatalog (tools : Tools) (root : PluginRoot) : Reading (List CatalogEntry) := do
  let commands ← collect (fun file => do
    match nameOf file, ← readToString file with
    | some name, .ok content => return (commandParse tools name content).toList
    | _, _ => return []) root.commandFiles
  let skills ← collect (fun dir => do
    match ← readToString (dir.child ["SKILL.md"]) with
    | .ok content =>
      return ((skillParse tools content).map fun p =>
        (⟨.skill, p.1, p.2, none, none⟩ : CatalogEntry)).toList
    | .error _ => return []) root.skillDirs
  let agents ← collect (fun file => do
    match ← readToString file with
    | .ok content =>
      return ((agentParse tools content).map fun p =>
        (⟨.agent, p.1, p.2, none, none⟩ : CatalogEntry)).toList
    | .error _ => return []) root.agentFiles
  return (commands ++ skills ++ agents).insertionSort fun a b => a.le b = true

end Horsie.Plugins
