import Horsie.Lib.Map
import Horsie.Lib.Transition

/-!
# The plugin store

A runtime keeps the bundles of all its agents in one store, each unpacked under a key, and for
every agent a tree of links into it with a marker of the set it was built from. Provisioning an
agent is a sequence of file system steps: each bundle that is not there is fetched, checked against
its digest, unpacked beside the store and renamed into it, and then the agent's tree is emptied,
linked and marked. Calls run at once and take their steps in any order; any of them can stop where
it is.
-/

namespace Horsie.Runtime.PluginStore

open Horsie.Lib

abbrev Bytes := List UInt8

/-! ## Bundles and their places -/

inductive BundleVersion where
  | hash (hash : String)
  | generation (generation : ℕ)
  deriving DecidableEq

structure BundleRef where
  name : String
  version : BundleVersion
  digest : String
  deriving DecidableEq

def storeKey (b : BundleRef) : String :=
  match b.version with
  | .hash hash => hash
  | .generation generation => s!"a_{b.name}_g{generation}"

def replaceDots : List Char → List Char
  | '.' :: '.' :: rest => '_' :: replaceDots rest
  | c :: rest => c :: replaceDots rest
  | [] => []

/-- One safe path component. The source replaces until no two dots are left: one pass leaves none,
since what it puts in their place is no dot. -/
def sanitize (raw : String) : String :=
  let safe := raw.toList.map fun c =>
    if c.isAlphanum ∨ c = '-' ∨ c = '_' ∨ c = '.' then c else '_'
  String.ofList ((replaceDots safe).dropWhile (· = '.'))

def BundleRef.dir (b : BundleRef) : String := sanitize (storeKey b)

def BundleRef.linkName (b : BundleRef) : String := sanitize b.name

/-! ## Directories -/

/-- What is below a directory, by its path: directories, and files with what they hold. -/
abbrev Dir := Map (List String) (Option Bytes)

namespace Dir

variable (d : Dir)

/-- `create_dir_all`, below the directory. -/
def mkdirs (path : List String) : Except String Dir :=
  path.inits.tail.foldlM
    (fun d place =>
      match d.lookup place with
      | none => .ok (d.insert place none)
      | some none => .ok d
      | some (some _) =>
        .error (if place = path then "File exists (os error 17)" else
          "Not a directory (os error 20)"))
    d

def putFile (path : List String) (content : Bytes) : Except String Dir :=
  let parent := if path.dropLast = [] then some none else d.lookup path.dropLast
  if path = [] ∨ d.lookup path = some none then .error "Is a directory (os error 21)"
  else
    match parent with
    | none => .error "No such file or directory (os error 2)"
    | some (some _) => .error "Not a directory (os error 20)"
    | some none => .ok (d.insert path (some content))

/-- Something of the directory is removed, which is not a directory with something in it. -/
def remove (path : List String) : Dir :=
  if d.toPairs.any fun e => path.isPrefixOf e.1 ∧ path ≠ e.1 then d else d.erase path

end Dir

/-- An entry of an archive; one whose name leads out of the archive has none. -/
structure ZipEntry where
  name : Option (List String)
  isDir : Bool
  content : Bytes
  deriving DecidableEq

abbrev Unzip := Bytes → Except String (List (Except String ZipEntry))

def unpackEntry (d : Dir) (e : ZipEntry) : Except String Dir :=
  match e.name with
  | none => .ok d
  | some path =>
    if e.isDir then d.mkdirs path
    else do
      let d ← d.mkdirs path.dropLast
      d.putFile path e.content

def unpackEntries (d : Dir) (entries : List (Except String ZipEntry)) : Except String Dir :=
  entries.foldlM (fun d e => e.bind (unpackEntry d)) d

/-- What is in an archive. -/
def unpacked (unzip : Unzip) (bytes : Bytes) : Except String Dir := do
  unpackEntries ∅ (← unzip bytes)

/-! ## The store -/

/-- The store: its entries, and what is unpacked beside them under the name `.staging-<key>`, which
no key is. `madeFor` keeps which bundle an entry was put there for. -/
structure Store where
  isMade : Bool
  entries : Map String Dir
  staging : Map String Dir
  madeFor : Map String BundleRef

namespace Store

variable (s : Store)

/-- Whether a key's place is a directory: no key at all is the store itself. -/
def isDir (key : String) : Bool :=
  if key = "" then s.isMade else (s.entries.lookup key).isSome

/-- What is unpacked is renamed into the store, over nothing or an empty directory. -/
def rename (b : BundleRef) : Except String Store :=
  match s.staging.lookup b.dir with
  | none => .error "No such file or directory (os error 2)"
  | some d =>
    if b.dir = "" ∨ (s.entries.lookup b.dir).any (·.toPairs ≠ []) then
      .error "Directory not empty (os error 39)"
    else
      .ok { s with
        entries := s.entries.insert b.dir d
        staging := s.staging.erase b.dir
        madeFor := s.madeFor.insert b.dir b }

def setStaging (key : String) (d : Dir) : Store :=
  { s with staging := s.staging.insert key d }

/-- One thing below the staging directory, or the empty directory itself, is removed. -/
def dropStaging (key : String) (path : List String) : Store :=
  match s.staging.lookup key with
  | none => s
  | some d =>
    if path = [] then
      if d.toPairs = [] then { s with staging := s.staging.erase key } else s
    else s.setStaging key (d.remove path)

end Store

/-! ## Trees -/

inductive Link where
  | stored (key : String)
  | host (name : String)
  deriving DecidableEq

/-- The tree of an agent. The marker is a file that records a set or none. -/
structure Tree where
  links : Map String Link
  marker : Option (Option (List BundleRef))

def Tree.empty : Tree := ⟨∅, none⟩

def markerFile : String := ".manifest.json"

def Tree.has (t : Tree) (name : String) : Bool :=
  name = "" ∨ (t.links.lookup name).isSome ∨ name = markerFile ∧ t.marker.isSome

/-! ## Calls -/

/-- Where a call is. -/
inductive Phase where
  | starting
  | checking (todo : List BundleRef)
  | makingStore (b : BundleRef) (rest : List BundleRef)
  | fetching (b : BundleRef) (rest : List BundleRef)
  | removing (b : BundleRef) (rest : List BundleRef) (bytes : Bytes)
  | unpacking (b : BundleRef) (rest : List BundleRef) (bytes : Bytes)
  | extracting (b : BundleRef) (rest : List BundleRef) (bytes : Bytes)
      (entries : List (Except String ZipEntry))
  | writing (b : BundleRef) (rest : List BundleRef) (bytes : Bytes) (path : List String)
      (content : Bytes) (entries : List (Except String ZipEntry))
  | publishing (b : BundleRef) (rest : List BundleRef) (bytes : Bytes)
  | discarding (b : BundleRef) (rest : List BundleRef)
  | makingTree
  | clearing
  | linkingHost (todo : List String)
  | linking (todo : List BundleRef)
  | marking
  | recording
  | finished (result : Except String Unit)
  | aborted

inductive Outcome where
  | ok
  | error (e : String)
  | torn (k : ℕ) (e : String)
  deriving DecidableEq

def Outcome.failure? : Outcome → Option String
  | ok => none
  | error e | torn _ e => some e

def BundleRef.failed (b : BundleRef) (e : String) : Phase :=
  .finished (.error s!"bundle '{b.name}': {e}")

/-- A rename failed: another call has put the bundle there, or it is not there. -/
def Store.lost (s : Store) (b : BundleRef) (rest : List BundleRef) (e : String) : Phase :=
  if s.isDir b.dir then .discarding b rest else b.failed s!"cannot store: {e}"

section

variable (unzip : Unzip) (sha256 : Bytes → String)

/-- The next entry of an archive is made a directory, or its file's directory is made. -/
def extract (s : Store) (o : Outcome) (b : BundleRef) (rest : List BundleRef) (bytes : Bytes)
    (e : ZipEntry) (entries : List (Except String ZipEntry)) : Store × Phase :=
  match e.name with
  | none => (s, .extracting b rest bytes entries)
  | some path =>
    match o.failure? with
    | some why => (s, b.failed why)
    | none =>
      match ((s.staging.lookup b.dir).getD ∅).mkdirs (if e.isDir then path else path.dropLast) with
      | .error why => (s, b.failed why)
      | .ok d =>
        (s.setStaging b.dir d,
          if e.isDir then .extracting b rest bytes entries
          else .writing b rest bytes path e.content entries)

def storeAct (s : Store) (o : Outcome) : Phase → Option (Store × Phase)
  | .checking [] => some (s, .makingTree)
  | .checking (b :: rest) =>
    some (s, if s.isDir b.dir then .checking rest else .makingStore b rest)
  | .makingStore b rest =>
    match o.failure? with
    | some e => some (s, .finished (.error s!"cannot create the bundle store: {e}"))
    | none => some ({ s with isMade := true }, .fetching b rest)
  | .fetching b _ => o.failure?.map fun e => (s, b.failed e)
  | .removing b rest bytes => some (s, .unpacking b rest bytes)
  | .unpacking b rest bytes =>
    match o.failure? with
    | some e => some (s, b.failed e)
    | none =>
      some (s.setStaging b.dir ((s.staging.lookup b.dir).getD ∅),
        match unzip bytes with
        | .error e => b.failed e
        | .ok entries => .extracting b rest bytes entries)
  | .extracting b rest bytes [] => some (s, .publishing b rest bytes)
  | .extracting b _ _ (.error e :: _) => some (s, b.failed e)
  | .extracting b rest bytes (.ok e :: entries) => some (extract s o b rest bytes e entries)
  | .writing b rest bytes path content entries =>
    match s.staging.lookup b.dir with
    | none => some (s, b.failed "No such file or directory (os error 2)")
    | some d =>
      match o with
      | .error e => some (s, b.failed e)
      | .ok =>
        match d.putFile path content with
        | .error e => some (s, b.failed e)
        | .ok d => some (s.setStaging b.dir d, .extracting b rest bytes entries)
      | .torn k e =>
        match d.putFile path (content.take k) with
        | .error e => some (s, b.failed e)
        | .ok d => some (s.setStaging b.dir d, b.failed e)
  | .publishing b rest _ =>
    match o.failure? with
    | some e => some (s, s.lost b rest e)
    | none =>
      match s.rename b with
      | .error e => some (s, s.lost b rest e)
      | .ok s => some (s, .checking rest)
  | .discarding _ rest => some (s, .checking rest)
  | _ => none

/-- What was fetched is checked. -/
def verify (b : BundleRef) (rest : List BundleRef) (bytes : Bytes) : Phase :=
  if sha256 bytes ≠ b.digest then
    b.failed s!"digest mismatch (want {b.digest}, got {sha256 bytes})"
  else .removing b rest bytes

-- what the host has beside the store and the trees
variable (host : List String)

/-- The steps on an agent's tree: the tree, whether it has changed, and where the call is. -/
def treeAct (bundles : List BundleRef) (t : Tree) (o : Outcome) :
    Phase → Option (Tree × Bool × Phase)
  | .starting =>
    some (t, false,
      if t.marker = some (some bundles) ∧ o = .ok then .finished (.ok ()) else .checking bundles)
  | .makingTree =>
    match o.failure? with
    | some e => some (t, false, .finished (.error s!"cannot create the agent's plugin dir: {e}"))
    | none => some (t, false, .clearing)
  | .clearing =>
    some (t, false, if bundles.isEmpty then .linkingHost host else .linking bundles)
  | .linkingHost [] => some (t, false, .linking [])
  | .linkingHost (name :: rest) =>
    -- a directory of the host that cannot be linked is left out
    if o.failure?.isSome ∨ t.has name then some (t, false, .linkingHost rest)
    else some ({ t with links := t.links.insert name (.host name) }, true, .linkingHost rest)
  | .linking [] => some (t, false, .marking)
  | .linking (b :: rest) =>
    match o.failure? with
    | some e => some (t, false, b.failed s!"cannot link: {e}")
    | none =>
      if t.has b.linkName then some (t, false, b.failed "cannot link: File exists (os error 17)")
      else
        some ({ t with links := t.links.insert b.linkName (.stored b.dir) }, true, .linking rest)
  | .marking =>
    match o.failure? with
    | some e => some (t, false, .finished (.error s!"cannot record the agent's bundle set: {e}"))
    | none =>
      if (t.links.lookup markerFile).isSome then
        some (t, false,
          .finished (.error "cannot record the agent's bundle set: Is a directory (os error 21)"))
      else some ({ t with marker := some none }, true, .recording)
  | .recording =>
    match o.failure? with
    | some e => some (t, false, .finished (.error s!"cannot record the agent's bundle set: {e}"))
    | none => some ({ t with marker := some (some bundles) }, true, .finished (.ok ()))
  | _ => none

/-- A call of `provision_agent`; `changed` is whether it has changed the agent's tree. -/
structure Job where
  agent : String
  bundles : List BundleRef
  phase : Phase
  changed : Bool

def Job.to (j : Job) (p : Phase) : Job := { j with phase := p }

def Job.dir (j : Job) : String := sanitize j.agent

structure World where
  store : Store
  agents : Map String Tree
  jobs : List Job

def World.tree (w : World) (dir : String) : Tree := (w.agents.lookup dir).getD .empty

inductive Label where
  | call (agent : String) (bundles : List BundleRef)
  | act (i : ℕ) (o : Outcome)
  | fetched (i : ℕ) (bytes : Bytes)
  | drop (i : ℕ) (path : List String)
  | unlink (i : ℕ) (name : String)
  | unmark (i : ℕ)
  | abort (i : ℕ)
  deriving DecidableEq

/-- The key whose staging directory a call removes. -/
def Phase.drops : Phase → Option String
  | removing b _ _ | discarding b _ => some b.dir
  | _ => none

def Phase.isOver : Phase → Bool
  | finished _ | aborted => true
  | _ => false

def Phase.isClearing : Phase → Bool
  | clearing => true
  | _ => false

def World.clear (w : World) (i : ℕ) (j : Job) (t : Tree) : World :=
  { w with
    agents := w.agents.insert j.dir t
    jobs := w.jobs.set i { j with changed := true } }

/-- One step of a call. -/
def World.act (w : World) (i : ℕ) (j : Job) (o : Outcome) : Option World :=
  match storeAct unzip w.store o j.phase with
  | some (store, p) => some { w with store, jobs := w.jobs.set i (j.to p) }
  | none =>
    (treeAct host j.bundles (w.tree j.dir) o j.phase).map fun r =>
      { w with
        agents := w.agents.insert j.dir r.1
        jobs := w.jobs.set i { j with phase := r.2.2, changed := j.changed || r.2.1 } }

def World.step? (w : World) : Label → Option World
  | .call agent bundles =>
    -- an agent's id is a UUID
    if sanitize agent = "" then none
    else some { w with jobs := w.jobs ++ [⟨agent, bundles, .starting, false⟩] }
  | .act i o => w.jobs[i]?.bind fun j => w.act unzip host i j o
  | .fetched i bytes =>
    match w.jobs[i]? with
    | none => none
    | some j =>
      match j.phase with
      | .fetching b rest =>
        some { w with jobs := w.jobs.set i (j.to (verify sha256 b rest bytes)) }
      | _ => none
  | .drop i path =>
    (w.jobs[i]?.bind (·.phase.drops)).map fun key =>
      { w with store := w.store.dropStaging key path }
  | .unlink i name =>
    match w.jobs[i]? with
    | none => none
    | some j =>
      let t := w.tree j.dir
      if j.phase.isClearing ∧ (t.links.lookup name).isSome then
        some (w.clear i j { t with links := t.links.erase name })
      else none
  | .unmark i =>
    match w.jobs[i]? with
    | none => none
    | some j =>
      let t := w.tree j.dir
      if j.phase.isClearing ∧ t.marker.isSome then some (w.clear i j { t with marker := none })
      else none
  | .abort i =>
    match w.jobs[i]? with
    | none => none
    | some j =>
      if j.phase.isOver then none else some { w with jobs := w.jobs.set i (j.to .aborted) }

end

/-! ## What was provisioned -/

section

variable (unzip : Unzip) (sha256 : Bytes → String) (host : List String)

/-- A directory is all that is in bytes of a digest. -/
def Complete (digest : String) (d : Dir) : Prop :=
  ∃ bytes, sha256 bytes = digest ∧ unpacked unzip bytes = .ok d

/-- A tree's links are those of the set, or of the host's directories where the set is empty. -/
structure Tree.Lists (bundles : List BundleRef) (t : Tree) (done : List BundleRef) : Prop where
  linked : ∀ b ∈ done, t.links.lookup b.linkName = some (.stored b.dir)
  only : ∀ name link, t.links.lookup name = some link →
    (∃ b ∈ done, name = b.linkName ∧ link = .stored b.dir) ∨
      bundles = [] ∧ name ∈ host ∧ link = .host name

/-- Trees are what was provisioned: a tree whose marker records a set holds a link to the unpacked
bytes of each bundle of the set and nothing else, a call that failed has changed no tree, and an
entry of the store is all of the bundle that it was put there for. -/
structure World.Provisioned (w : World) : Prop where
  trees : ∀ dir t bundles, w.agents.lookup dir = some t → t.marker = some (some bundles) →
    t.Lists host bundles bundles ∧ ∀ b ∈ bundles, ∃ d,
      w.store.entries.lookup b.dir = some d ∧ Complete unzip sha256 b.digest d
  failed : ∀ j ∈ w.jobs, ∀ e, j.phase = .finished (.error e) → j.changed = false
  stored : ∀ key d, w.store.entries.lookup key = some d → ∃ b,
    w.store.madeFor.lookup key = some b ∧ b.dir = key ∧ Complete unzip sha256 b.digest d

end

end Horsie.Runtime.PluginStore
