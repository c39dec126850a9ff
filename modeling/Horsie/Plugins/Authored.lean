import Horsie.Lib.Transition
import Horsie.Plugins.Ingest

/-!
# Authored plugins

A plugin that is written here is a row with a generation, its skills and their files. Every write
advances the generation in a transaction of its own, and then reads the tables again, one statement
after the other, renders them into a tree and records the packed tree in the library's row. A
runtime is told the row's generation with the digest of a package that is rendered when it asks,
and fetches it by the generation.
-/

namespace Horsie.Plugins.Authored

open Horsie.Lib

/-! ## Tables -/

structure AuthoredFile where
  path : String
  content : String
  deriving DecidableEq

structure Skill where
  name : String
  description : String
  body : String
  deriving DecidableEq

structure PluginHead where
  description : Option String
  generation : ℕ
  deriving DecidableEq

structure Tables where
  plugin : Option PluginHead
  skills : Map String Skill
  files : Map String (List AuthoredFile)

structure RenderedSkill where
  name : String
  description : String
  body : String
  files : List AuthoredFile
  deriving DecidableEq

/-- What a package is rendered from. -/
structure Content where
  head : PluginHead
  skills : List RenderedSkill
  deriving DecidableEq

namespace Tables

variable (t : Tables)

def listSkills : List Skill :=
  (t.skills.toPairs.map (·.2)).insertionSort fun a b => a.name ≤ b.name

def filesFor (skill : String) : List AuthoredFile :=
  ((t.files.lookup skill).getD []).insertionSort fun a b => a.path ≤ b.path

def render (s : Skill) : RenderedSkill := ⟨s.name, s.description, s.body, t.filesFor s.name⟩

def rendered : List RenderedSkill := t.listSkills.map t.render

def content : Option Content := t.plugin.map fun head => ⟨head, t.rendered⟩

/-- The plugin is created at its first generation, or its description changed at the next. -/
def upsertPlugin (description : Option String) : Tables :=
  { t with plugin := some ⟨description, (t.plugin.map (·.generation + 1)).getD 1⟩ }

def deletePlugin (_ : Tables) : Tables := ⟨none, ∅, ∅⟩

def bumpGeneration (name : String) : Except String Tables :=
  match t.plugin with
  | none => .error s!"no authored plugin '{name}'"
  | some head => .ok { t with plugin := some { head with generation := head.generation + 1 } }

def saveSkill (name : String) (s : Skill) (files : List AuthoredFile) : Except String Tables :=
  if (files.map (·.path)).Nodup then
    { t with skills := t.skills.insert s.name s, files := t.files.insert s.name files
      }.bumpGeneration name
  else .error "save file: UNIQUE constraint failed"

def deleteSkill (name skill : String) : Except String Tables :=
  { t with skills := t.skills.erase skill, files := t.files.erase skill }.bumpGeneration name

end Tables

/-! ## Rendering -/

/-- JSON and YAML as they are printed: the manifest of a schema, a name, a version and a
description, and a mapping. -/
structure Printers where
  manifest : String → String → String → Option String → String
  yaml : List (String × String) → String

def schema : String := "https://agent-plugins.org/schemas/1.0.0/plugin.schema.json"

def validateFilePath (path : String) : Except String Unit :=
  let complaint (why : String) : Except String Unit := .error s!"file path '{path}': {why}"
  let comps := (RawPath.ofString path).comps
  if path = "" then complaint "must not be empty"
  else if path.toList.head? = some '/' ∨ path.toList.head? = some '\\' then
    complaint "must be relative to the skill's directory"
  else if comps.head? = some "." ∨ ".." ∈ comps then
    complaint "must not contain '.', '..' or a drive prefix"
  else .ok ()

def setEntry {C : Type} (entries : List (String × LinkTree C)) (name : String) (t : LinkTree C) :
    List (String × LinkTree C) :=
  if (entries.lookup name).isSome then
    entries.map fun e => if e.1 = name then (name, t) else e
  else entries ++ [(name, t)]

/-- A file is written below a directory, with the directories on the way. -/
def writeFile {C : Type} (content : C) : List String → LinkTree C → Except String (LinkTree C)
  | [], _ => .error "Is a directory (os error 21)"
  | [name], .dir entries =>
    match entries.lookup name with
    | some (.dir _) => .error "Is a directory (os error 21)"
    | _ => .ok (.dir (setEntry entries name (.file content)))
  | name :: rest, .dir entries =>
    match entries.lookup name with
    | some (.dir below) =>
      (writeFile content rest (.dir below)).map fun t => .dir (setEntry entries name t)
    | none => (writeFile content rest (.dir [])).map fun t => .dir (setEntry entries name t)
    | some _ =>
      .error (if rest.length = 1 then "File exists (os error 17)" else
        "Not a directory (os error 20)")
  | _ :: _, _ => .error "Not a directory (os error 20)"

def textBytes (s : String) : Bytes := s.toUTF8.data.toList

def skillDocument (printers : Printers) (s : RenderedSkill) : String :=
  let yaml := printers.yaml [("name", s.name), ("description", s.description)]
  s!"{fence}\n{yaml}{fence}\n\n{trimEnd s.body}\n"

def skillFiles (printers : Printers) (s : RenderedSkill) :
    Except String (List (List String × String)) := do
  let files ← s.files.mapM fun f => do
    validateFilePath f.path
    return (["skills", s.name] ++ (RawPath.ofString f.path).key, f.content)
  return (["skills", s.name, "SKILL.md"], skillDocument printers s) :: files

def renderTree (printers : Printers) (name : String) (c : Content) :
    Except String (LinkTree Bytes) := do
  let description := (c.head.description.map trim).filter (· ≠ "")
  let json := printers.manifest schema name s!"0.0.{c.head.generation}" description
  let files ← c.skills.mapM (skillFiles printers)
  ((["plugin.json"], json) :: files.flatten).foldlM
    (fun t f => writeFile (textBytes f.2) f.1 t) (.dir [])

def packContent (tools : Tools) (printers : Printers) (name : String) (c : Content) :
    Except String PluginBundle := do
  let tree ← renderTree printers name c
  (bundleFromDir tools checkoutRoot name (some s!"0.0.{c.head.generation}")).run fun p =>
    tree.resolve maxLinks [] p.comps

/-! ## Calls -/

inductive Outcome where
  | ok
  | error (e : String)
  | lost (e : String)
  deriving DecidableEq

def Outcome.commits : Outcome → Bool
  | ok | lost _ => true
  | error _ => false

inductive BundleVersion where
  | hash (hash : String)
  | generation (generation : ℕ)
  deriving DecidableEq

inductive Answer where
  | written
  | resolved (version : BundleVersion) (digest : String)
  | served (generation : ℕ) (bytes : Bytes)
  deriving DecidableEq

/-- What a package is packed for. -/
inductive Use where
  | republish
  | package (generation : ℕ)
  | resolve (generation : ℕ)
  deriving DecidableEq

structure SkillInput where
  name : String
  description : Option String
  body : Option String
  files : Option (List AuthoredFile)
  deriving DecidableEq

/-- A call, by the statement it runs next. -/
inductive Call where
  | writePlugin (description : Option String)
  | upsertingPlugin (description : Option String)
  | deletePlugin
  | deletePluginChecked
  | deletingPlugin
  | purging
  | writeSkill (input : SkillInput)
  | writeSkillChecked (input : SkillInput)
  | writeSkillExisting (input : SkillInput)
  | writeSkillFiles (skill : Skill)
  | savingSkill (skill : Skill) (files : List AuthoredFile)
  | deleteSkill (skill : String)
  | deleteSkillChecked (skill : String)
  | deleteSkillExisting (skill : String)
  | deletingSkill (skill : String)
  | packing (u : Use)
  | packingSkills (u : Use) (head : PluginHead)
  | packingFiles (u : Use) (head : PluginHead) (todo : List Skill) (done : List RenderedSkill)
  | persisting (bundle : PluginBundle) (generation : ℕ)
  | publishing (bundle : PluginBundle) (generation : ℕ) (existing : Option PluginRow)
  | resolve
  | package (generation : ℕ)
  | finished (answer : Except String Answer)

def Outcome.next (o : Outcome) (c : Call) : Call :=
  match o with
  | ok => c
  | error e | lost e => .finished (.error e)

inductive Request where
  | writePlugin (description : Option String)
  | deletePlugin
  | writeSkill (input : SkillInput)
  | deleteSkill (skill : String)
  | resolve
  | package (generation : ℕ)
  deriving DecidableEq

def Request.call : Request → Call
  | writePlugin description => .writePlugin description
  | deletePlugin => .deletePlugin
  | writeSkill input => .writeSkill input
  | deleteSkill skill => .deleteSkill skill
  | resolve => .resolve
  | package generation => .package generation

/-- A bundle that came from a clone is not touched. -/
def refuseIfExternal (name : String) (row : Option PluginRow) (next : Call) : Call :=
  if row.any (!·.kind.isAuthored) then
    .finished (.error (s!"'{name}' was installed from a source outside this server, so it " ++
      "cannot be edited here. Pick another name."))
  else next

/-- The rest of `requireAuthored`: the plugin is there. -/
def requirePlugin (name : String) (plugin : Option PluginHead) (next : Call) : Call :=
  if plugin.isSome then next else .finished (.error s!"no authored plugin '{name}'")

def mergeSkill (input : SkillInput) (existing : Option Skill) : Except String Skill :=
  match input.description.or (existing.map (·.description)) with
  | none =>
    .error (s!"creating skill '{input.name}' needs a description — it is what a picker shows " ++
      "and what the model chooses from")
  | some description =>
    match input.body.or (existing.map (·.body)) with
    | none => .error s!"creating skill '{input.name}' needs a body"
    | some body =>
      if isBlank description then .error "a skill's description must not be empty"
      else .ok ⟨input.name, description, body⟩

def saveFiles (skill : Skill) (files : List AuthoredFile) : Call :=
  match files.mapM fun f => validateFilePath f.path with
  | .error e => .finished (.error e)
  | .ok _ => .savingSkill skill files

section

variable (pack : Content → Except String PluginBundle)

def packed (u : Use) (head : PluginHead) (done : List RenderedSkill) : Call :=
  match pack ⟨head, done⟩ with
  | .error e => .finished (.error e)
  | .ok bundle =>
    match u with
    | .republish => .persisting bundle head.generation
    | .package generation => .finished (.ok (.served generation bundle.zipBytes))
    | .resolve generation => .finished (.ok (.resolved (.generation generation) bundle.hash))

def readOn (u : Use) (head : PluginHead) (todo : List Skill) (done : List RenderedSkill) : Call :=
  if todo.isEmpty then packed pack u head done else .packingFiles u head todo done

def read (name : String) (t : Tables) (published : Option PluginRow) : Call → Call
  | .writePlugin description =>
    match validateName name with
    | .error e => .finished (.error e)
    | .ok () => refuseIfExternal name published (.upsertingPlugin description)
  | .deletePlugin => refuseIfExternal name published .deletePluginChecked
  | .deletePluginChecked => requirePlugin name t.plugin .deletingPlugin
  | .writeSkill input =>
    match validateName input.name with
    | .error e => .finished (.error e)
    | .ok () => refuseIfExternal name published (.writeSkillChecked input)
  | .writeSkillChecked input => requirePlugin name t.plugin (.writeSkillExisting input)
  | .writeSkillExisting input =>
    match mergeSkill input (t.skills.lookup input.name) with
    | .error e => .finished (.error e)
    | .ok skill =>
      match input.files with
      | some files => saveFiles skill files
      | none => .writeSkillFiles skill
  | .writeSkillFiles skill => saveFiles skill (t.filesFor skill.name)
  | .deleteSkill skill => refuseIfExternal name published (.deleteSkillChecked skill)
  | .deleteSkillChecked skill => requirePlugin name t.plugin (.deleteSkillExisting skill)
  | .deleteSkillExisting skill =>
    if (t.skills.lookup skill).isSome then .deletingSkill skill
    else .finished (.error s!"no skill '{skill}' in '{name}'")
  | .packing u =>
    match t.plugin with
    | none => .finished (.error s!"no authored plugin '{name}'")
    | some head => .packingSkills u head
  | .packingSkills u head => readOn pack u head t.listSkills []
  | .packingFiles u head todo done =>
    match todo with
    | [] => packed pack u head done
    | skill :: rest => readOn pack u head rest (done ++ [t.render skill])
  | .persisting bundle generation => .publishing bundle generation published
  | .resolve =>
    match published with
    | none => .finished (.error s!"no such bundle '{name}'")
    | some row =>
      match row.kind with
      | .authored generation => .packing (.resolve generation)
      | _ => .finished (.ok (.resolved (.hash row.digest) row.digest))
  | .package generation =>
    match published with
    | none => .finished (.error s!"no such bundle '{name}'")
    | some row =>
      match row.kind with
      | .authored current =>
        if generation ≠ current then
          .finished (.error (s!"'{name}' is at generation {current}, not {generation} — " ++
            "provision again"))
        else .packing (.package generation)
      | _ =>
        .finished (.error s!"'{name}' is not an authored bundle, so it has no generations")
  | c => c

def writes (name : String) (t : Tables) : Call → Option (Except String Tables × Call)
  | .upsertingPlugin description => some (.ok (t.upsertPlugin description), .packing .republish)
  | .deletingPlugin => some (.ok t.deletePlugin, .purging)
  | .savingSkill skill files => some (t.saveSkill name skill files, .packing .republish)
  | .deletingSkill skill => some (t.deleteSkill name skill, .packing .republish)
  | _ => none

/-- The statement that writes the library's row. -/
def publishes (now : String) : Call → Option (Option PluginRow)
  | .publishing bundle generation existing =>
    some (some (bundle.row (.authored generation) existing now))
  | .purging => some none
  | _ => none

/-- The tables, the library's row and the calls under way; `past` keeps what was committed. -/
structure World where
  tables : Tables
  published : Option PluginRow
  calls : List Call
  past : List Content

inductive Label where
  | call (r : Request)
  | act (i : ℕ) (o : Outcome) (now : String)
  deriving DecidableEq

def World.act (name : String) (w : World) (i : ℕ) (c : Call) (o : Outcome) (now : String) : World :=
  match writes name w.tables c with
  | some (.error e, _) => { w with calls := w.calls.set i (.finished (.error e)) }
  | some (.ok t, next) =>
    if o.commits then
      { w with
        tables := t
        calls := w.calls.set i (o.next next)
        past := w.past ++ t.content.toList }
    else { w with calls := w.calls.set i (o.next next) }
  | none =>
    match publishes now c with
    | some row =>
      { w with
        published := if o.commits then row else w.published
        calls := w.calls.set i (o.next (.finished (.ok .written))) }
    | none =>
      { w with calls := w.calls.set i (o.next (read pack name w.tables w.published c)) }

def World.step? (name : String) (w : World) : Label → Option World
  | .call r => some { w with calls := w.calls ++ [r.call] }
  | .act i o now =>
    match w.calls[i]? with
    | none => none
    | some c => some (w.act pack name i c o now)

/-! ## Agreement -/

/-- The library's row is of what the tables hold. -/
def World.isPublished (w : World) : Bool :=
  match w.tables.content with
  | none => w.published.isNone
  | some c =>
    match pack c, w.published with
    | .ok bundle, some row =>
      row.kind = .authored c.head.generation ∧ row.digest = bundle.hash ∧
        row.catalog = bundle.catalog
    | _, _ => false

def Call.isWriting : Call → Bool
  | .resolve | .package _ | .finished _ => false
  | .packing u | .packingSkills u _ | .packingFiles u _ _ _ => u = .republish
  | _ => true

end

/-- One generation names one package: resolves of it told one digest, what was served for it has
that digest, and once nothing is being written the library's row is of what the tables hold. -/
structure World.OneName (pack : Content → Except String PluginBundle) (sha256 : Bytes → String)
    (w : World) : Prop where
  resolved : ∀ generation digest digest',
    .finished (.ok (.resolved (.generation generation) digest)) ∈ w.calls →
      .finished (.ok (.resolved (.generation generation) digest')) ∈ w.calls → digest' = digest
  served : ∀ generation digest bytes,
    .finished (.ok (.resolved (.generation generation) digest)) ∈ w.calls →
      .finished (.ok (.served generation bytes)) ∈ w.calls → sha256 bytes = digest
  published : (∀ c ∈ w.calls, c.isWriting = false) → w.isPublished pack = true

end Horsie.Plugins.Authored
