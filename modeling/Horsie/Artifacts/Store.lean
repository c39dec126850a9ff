import Horsie.Artifacts.Media
import Horsie.Lib.Map
import Horsie.Lib.Transition

/-!
# Artifacts and their uses

The bytes of an artifact and what is known of it are columns of one row, which two stores write in
transactions of their own; which sessions need it is a table beside it. The service puts the bytes
in first, and takes the row away again where the second write fails; a session that goes releases
its uses and the artifacts nobody else uses, and then has the bytes of these deleted once more.
-/

namespace Horsie.Artifacts

open Horsie.Lib

def maxArtifactBytes : ℕ := 10 * 1024 * 1024

/-! ## Rows -/

inductive ArtifactShape where
  | image
  | document
  deriving DecidableEq

def ArtifactShape.asStr : ArtifactShape → String
  | image => "image"
  | document => "document"

def ArtifactShape.parse (s : String) : Option ArtifactShape :=
  if s = "image" then some .image else if s = "document" then some .document else none

def ArtifactShape.ofSniffed (sniffed : Sniffed) : ArtifactShape :=
  if sniffed.isImage then .image else .document

theorem ArtifactShape.parse_asStr (shape : ArtifactShape) : parse shape.asStr = some shape := by
  cases shape <;> rfl

structure BlobKey where
  project : String
  artifactId : String
  deriving DecidableEq

structure ArtifactRow where
  id : String
  mediaType : String
  shape : ArtifactShape
  byteSize : ℕ
  width : Option ℕ
  height : Option ℕ
  filename : Option String
  deriving DecidableEq

/-- The columns of a row of the artifacts table behind its key. -/
structure Columns where
  mediaType : String
  kind : String
  byteSize : ℕ
  width : Option ℕ
  height : Option ℕ
  filename : Option String
  bytes : Bytes
  deriving DecidableEq

def rowToArtifact (id : String) (c : Columns) : Except String ArtifactRow :=
  match ArtifactShape.parse c.kind with
  | none => .error s!"artifact row has an unknown kind '{c.kind}'"
  | some shape => .ok ⟨id, c.mediaType, shape, c.byteSize, c.width, c.height, c.filename⟩

structure Use where
  project : String
  artifactId : String
  session : String
  deriving DecidableEq

def Use.key (u : Use) : BlobKey := ⟨u.project, u.artifactId⟩

structure Tables where
  artifacts : Map BlobKey Columns
  uses : List Use

namespace Tables

variable (t : Tables)

/-- The upsert of the bytes: what a row cannot be without is a placeholder where it is new. -/
def putBytes (key : BlobKey) (bytes : Bytes) : Tables :=
  let columns :=
    match t.artifacts.lookup key with
    | some c => { c with bytes }
    | none => ⟨"", "", bytes.length, none, none, none, bytes⟩
  { t with artifacts := t.artifacts.insert key columns }

/-- The upsert of everything but the bytes, which are empty where the row is new. -/
def insert (project : String) (row : ArtifactRow) : Tables :=
  let bytes := ((t.artifacts.lookup ⟨project, row.id⟩).map (·.bytes)).getD []
  let columns := ⟨row.mediaType, row.shape.asStr, row.byteSize, row.width, row.height,
    row.filename, bytes⟩
  { t with artifacts := t.artifacts.insert ⟨project, row.id⟩ columns }

def delete (keys : List BlobKey) : Tables :=
  { t with artifacts := keys.foldl (fun m key => m.erase key) t.artifacts }

def get (key : BlobKey) : Option Bytes := (t.artifacts.lookup key).map (·.bytes)

def getMeta (key : BlobKey) : Except String (Option ArtifactRow) :=
  match t.artifacts.lookup key with
  | none => .ok none
  | some c => (rowToArtifact key.artifactId c).map some

def markUsed (u : Use) : Tables :=
  if u ∈ t.uses then t else { t with uses := t.uses ++ [u] }

def usesOf (project session : String) : List Use :=
  t.uses.filter fun u => u.project = project ∧ u.session = session

def unreferenced (project : String) (candidates : List String) (removed : List Use) :
    List String :=
  candidates.filter fun id => (t.artifacts.lookup ⟨project, id⟩).isSome ∧
    ∀ u ∈ t.uses, u.project = project → u.artifactId = id → u ∈ removed

def release (project : String) (removed : List Use) (ids : List String) : Tables :=
  { t.delete (ids.map (⟨project, ·⟩)) with uses := t.uses.filter (· ∉ removed) }

end Tables

/-! ## The service -/

inductive ArtifactError where
  | unsupportedType (name leading : String)
  | tooLarge (name : String) (size limit : ℕ)
  | storage (e : String)
  deriving DecidableEq

def displayName : Option String → String
  | some name => if name = "" then "this upload" else s!"'{name}'"
  | none => "this upload"

/-- A byte as it is shown in a message. -/
def escapeDefault (b : UInt8) : String :=
  if b = 9 then "\\t"
  else if b = 13 then "\\r"
  else if b = 10 then "\\n"
  else if b = 39 then "\\'"
  else if b = 34 then "\\\""
  else if b = 92 then "\\\\"
  else if 32 ≤ b ∧ b < 127 then (Char.ofNat b.toNat).toString
  else "\\x" ++ String.ofList (Nat.toDigits 16 (b.toNat / 16) ++ Nat.toDigits 16 (b.toNat % 16))

def leadingBytes (bytes : Bytes) : String :=
  if bytes.isEmpty then "nothing at all"
  else "\"" ++ String.join ((bytes.take 8).map escapeDefault) ++ "\""

inductive Answer where
  | stored (row : ArtifactRow)
  | marked
  | released (ids : List String)
  | failed (e : ArtifactError)
  deriving DecidableEq

/-- How a transaction or a statement in one ends: it goes through, it does not, or it does and the
caller hears otherwise. -/
inductive Outcome where
  | ok
  | error (e : String)
  | lost (e : String)
  deriving DecidableEq

inductive Call where
  | put (project : String) (bytes : Bytes) (filename : Option String)
  | inserting (project : String) (row : ArtifactRow)
  | compensating (key : BlobKey) (e : String)
  | markUsed (u : Use)
  | release (project session : String)
  | selected (project session : String) (candidates : List String)
  | unused (project session : String) (candidates : List String) (removed : List Use)
  | deleted (project session : String) (removed : List Use) (ids : List String)
  | freeing (project : String) (ids : List String)
  | finished (answer : Answer)
  deriving DecidableEq

def Outcome.commits : Outcome → Bool
  | ok | lost _ => true
  | error _ => false

def Outcome.commit (o : Outcome) (t t' : Tables) : Tables := if o.commits then t' else t

def Outcome.next (o : Outcome) (c : Call) : Call :=
  match o with
  | ok => c
  | error e | lost e => .finished (.failed (.storage e))

section

variable (sha256 : Bytes → String)

def rowOf (sniffed : Sniffed) (bytes : Bytes) (filename : Option String) : ArtifactRow where
  id := sha256 bytes
  mediaType := sniffed.mediaType
  shape := .ofSniffed sniffed
  byteSize := bytes.length
  width := if sniffed.isImage then (dimensions sniffed bytes).map (·.1) else none
  height := if sniffed.isImage then (dimensions sniffed bytes).map (·.2) else none
  filename

def act (t : Tables) (c : Call) (o : Outcome) : Tables × Call :=
  match c with
  | .put project bytes filename =>
    if maxArtifactBytes < bytes.length then
      (t, .finished (.failed (.tooLarge (displayName filename) bytes.length maxArtifactBytes)))
    else
      match sniff bytes with
      | none =>
        (t, .finished (.failed (.unsupportedType (displayName filename) (leadingBytes bytes))))
      | some sniffed =>
        (o.commit t (t.putBytes ⟨project, sha256 bytes⟩ bytes),
          o.next (.inserting project (rowOf sha256 sniffed bytes filename)))
  | .inserting project row =>
    (o.commit t (t.insert project row),
      match o with
      | .ok => .finished (.stored row)
      | .error e | .lost e => .compensating ⟨project, row.id⟩ e)
  | .compensating key e => (o.commit t (t.delete [key]), .finished (.failed (.storage e)))
  | .markUsed u => (o.commit t (t.markUsed u), o.next (.finished .marked))
  | .release project session =>
    (t, o.next (.selected project session ((t.usesOf project session).map (·.artifactId))))
  | .selected project session candidates =>
    (t, o.next (if candidates.isEmpty then
        .deleted project session (t.usesOf project session) []
      else .unused project session candidates (t.usesOf project session)))
  | .unused project session candidates removed =>
    (t, o.next (.deleted project session removed (t.unreferenced project candidates removed)))
  | .deleted project _ removed ids =>
    (o.commit t (t.release project removed ids),
      o.next (if ids.isEmpty then .finished (.released []) else .freeing project ids))
  | .freeing project ids =>
    (o.commit t (t.delete (ids.map (⟨project, ·⟩))), o.next (.finished (.released ids)))
  | .finished answer => (t, .finished answer)

/-- The tables and the calls under way at any number of nodes. -/
structure World where
  tables : Tables
  calls : List Call

inductive Request where
  | put (project : String) (bytes : Bytes) (filename : Option String)
  | markUsed (u : Use)
  | release (project session : String)
  deriving DecidableEq

def Request.call : Request → Call
  | put project bytes filename => .put project bytes filename
  | markUsed u => .markUsed u
  | release project session => .release project session

inductive Label where
  | call (r : Request)
  | act (i : ℕ) (o : Outcome)
  deriving DecidableEq

def World.step? (w : World) : Label → Option World
  | .call r => some { w with calls := w.calls ++ [r.call] }
  | .act i o =>
    match w.calls[i]? with
    | none => none
    | some c =>
      let done := Artifacts.act sha256 w.tables c o
      some ⟨done.1, w.calls.set i done.2⟩

/-! ## What is kept -/

/-- An artifact has a metadata row, and bytes whose hash is its id. -/
def Tables.Complete (t : Tables) (key : BlobKey) : Prop :=
  (∃ row, t.getMeta key = .ok (some row)) ∧
    ∃ bytes, t.get key = some bytes ∧ sha256 bytes = key.artifactId

instance (t : Tables) (key : BlobKey) : Decidable (∃ row, t.getMeta key = .ok (some row)) :=
  match t.getMeta key with
  | .ok (some row) => .isTrue ⟨row, rfl⟩
  | .ok none => .isFalse fun h => (by obtain ⟨_, h⟩ := h; cases h)
  | .error _ => .isFalse fun h => (by obtain ⟨_, h⟩ := h; cases h)

instance (t : Tables) (key : BlobKey) :
    Decidable (∃ bytes, t.get key = some bytes ∧ sha256 bytes = key.artifactId) :=
  match t.get key with
  | some bytes => decidable_of_iff (sha256 bytes = key.artifactId)
      ⟨fun h => ⟨bytes, rfl, h⟩, fun h => (by obtain ⟨_, hb, h⟩ := h; cases hb; exact h)⟩
  | none => .isFalse fun h => (by obtain ⟨_, hb, _⟩ := h; cases hb)

instance (t : Tables) (key : BlobKey) : Decidable (t.Complete sha256 key) :=
  inferInstanceAs (Decidable (_ ∧ _))

/-- What a session uses is complete: its uses go with its release only. -/
def Tables.Kept (t : Tables) : Prop := ∀ u ∈ t.uses, t.Complete sha256 u.key

end

/-- An artifact that one session uses and no other. -/
def Tables.Solely (t : Tables) (project session id : String) : Prop :=
  ⟨project, id, session⟩ ∈ t.uses ∧
    ∀ u ∈ t.uses, u.key = ⟨project, id⟩ → u.session = session

/-- A session is released: its uses are gone, and exactly the artifacts no other session uses. -/
structure Tables.Released (t t' : Tables) (project session : String) : Prop where
  uses : ∀ u, u ∈ t'.uses ↔ u ∈ t.uses ∧ ¬(u.project = project ∧ u.session = session)
  removed : ∀ id, t.Solely project session id → t'.artifacts.lookup ⟨project, id⟩ = none
  kept : ∀ key, ¬(key.project = project ∧ t.Solely project session key.artifactId) →
    t'.artifacts.lookup key = t.artifacts.lookup key

/-- What a step of one call does is right: the commit of a release releases its session, the
deletion after it takes nothing more, and no other step takes a use. -/
def Call.Right (c : Call) (o : Outcome) (t t' : Tables) : Prop :=
  match c with
  | .deleted project session _ _ => if o.commits then t.Released t' project session else t' = t
  | .freeing _ _ => t'.uses = t.uses ∧ ∀ key, t'.artifacts.lookup key = t.artifacts.lookup key
  | _ => ∀ u ∈ t.uses, u ∈ t'.uses

def World.Right (w : World) (l : Label) (w' : World) : Prop :=
  match l with
  | .call _ => w'.tables = w.tables
  | .act i o => ∀ c, w.calls[i]? = some c → c.Right o w.tables w'.tables

end Horsie.Artifacts
