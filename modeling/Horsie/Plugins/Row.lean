import Horsie.Lib.Map

/-!
# The bundle library

A bundle is a clone in one of two layouts or is authored here; its row holds what was read off its
tree and the digest of its packed bytes.
-/

namespace Horsie.Plugins

open Horsie.Lib

abbrev Bytes := List UInt8

/-- The clone a bundle came from. -/
structure ExternalOrigin where
  url : String
  gitRef : Option String
  subpath : Option String
  marketplace : Option String
  marketplaceEntry : Option String
  deriving DecidableEq

inductive PluginKind where
  | claude (origin : ExternalOrigin)
  | agentPlugin (origin : ExternalOrigin)
  | authored (generation : ℕ)
  deriving DecidableEq

def PluginKind.isAuthored : PluginKind → Bool
  | authored _ => true
  | claude _ | agentPlugin _ => false

inductive CatalogKind where
  | command
  | skill
  | agent
  deriving DecidableEq

/-- One thing a bundle offers. -/
structure CatalogEntry where
  kind : CatalogKind
  name : String
  description : String
  argumentHint : Option String
  template : Option String
  deriving DecidableEq

inductive ManifestDialect where
  | claude
  | agentPlugin
  deriving DecidableEq

def PluginKind.fromDialect : ManifestDialect → ExternalOrigin → PluginKind
  | .claude, origin => .claude origin
  | .agentPlugin, origin => .agentPlugin origin

/-- A packed bundle: what a row needs that its bytes determine. -/
structure PluginBundle where
  name : String
  version : Option String
  description : Option String
  catalog : List CatalogEntry
  hasHooks : Bool
  unsupportedHooks : List String
  zipBytes : Bytes
  hash : String
  dialect : ManifestDialect
  deriving DecidableEq

structure PluginRow where
  name : String
  kind : PluginKind
  version : Option String
  description : Option String
  catalog : List CatalogEntry
  hasHooks : Bool
  digest : String
  artifactSize : ℕ
  enabledDefault : Bool
  createdAt : String
  updatedAt : String
  deriving DecidableEq

/-- The row a bundle is persisted as: the default and the time of creation are the earlier row's. -/
def PluginBundle.row (b : PluginBundle) (kind : PluginKind) (existing : Option PluginRow)
    (now : String) : PluginRow where
  name := b.name
  kind
  version := b.version
  description := b.description
  catalog := b.catalog
  hasHooks := b.hasHooks
  digest := b.hash
  artifactSize := b.zipBytes.length
  enabledDefault := existing.any (·.enabledDefault)
  createdAt := (existing.map (·.createdAt)).getD now
  updatedAt := now

abbrev PluginRows := Map (String × String) PluginRow

/-- Every digest of a cloned bundle, of any project. -/
def referencedHashes (rows : PluginRows) : List String :=
  (rows.toPairs.filter fun p => !p.2.kind.isAuthored).map fun p => p.2.digest

theorem mem_referencedHashes {rows : PluginRows} {h : String} :
    h ∈ referencedHashes rows ↔
      ∃ key row, rows.lookup key = some row ∧ row.kind.isAuthored = false ∧ row.digest = h := by
  simp only [referencedHashes, List.mem_map, List.mem_filter, Bool.not_eq_true']
  constructor
  · rintro ⟨⟨key, row⟩, ⟨hmem, hkind⟩, rfl⟩
    exact ⟨key, row, Map.mem_toPairs.mp hmem, hkind, rfl⟩
  · rintro ⟨key, row, hrow, hkind, rfl⟩
    exact ⟨⟨key, row⟩, ⟨Map.mem_toPairs.mpr hrow, hkind⟩, rfl⟩

end Horsie.Plugins
