import Horsie.Plugins.Checkout

/-!
# Ingesting a plugin

A repository is cloned into a directory of its own on the server, found to be a plugin or an index
of plugins, and packed. What is read is decided by paths that the repository declares, by the names
in it and by its links, and all of them are followed in the server's own file system. Where no path
that is looked at leaves the clone, two servers that hold the same clone get the same bundle.
-/

namespace Horsie.Plugins

open Horsie.Lib

/-! ## Indexes -/

inductive PluginSource where
  | path (path : String)
  | git (url : String) (path gitRef : Option String)
  deriving DecidableEq

structure MarketplaceEntry where
  name : String
  description : Option String
  version : Option String
  source : PluginSource
  deriving DecidableEq

structure Marketplace where
  name : Option String
  plugins : List MarketplaceEntry
  skipped : List String
  deriving DecidableEq

def strField (v : Json) (key : String) : Option String :=
  ((v.get key).bind (·.asStr)).filter (· ≠ "")

def parseSource (v : Json) : Except String PluginSource :=
  match v.asStr with
  | some path => if path = "" then .error "empty path source" else .ok (.path path)
  | none =>
    match strField v "source" with
    | none => .error "source object missing 'source' kind"
    | some kind =>
      if kind = "git-subdir" ∨ kind = "url" ∨ kind = "git" then
        match strField v "url" with
        | none => .error "git source missing 'url'"
        | some url => .ok (.git url (strField v "path") (strField v "ref"))
      else if kind = "github" then
        match strField v "repo" with
        | none => .error "github source missing 'repo'"
        | some repo =>
          .ok (.git s!"https://github.com/{repo}.git" (strField v "path")
            ((strField v "commit").or (strField v "ref")))
      else .error s!"unsupported source kind '{kind}'"

def parseEntry (v : Json) : Except String MarketplaceEntry :=
  match strField v "name" with
  | none => .error "missing 'name'"
  | some name =>
    match v.get "source" with
    | none => .error "missing 'source'"
    | some source =>
      (parseSource source).map fun source =>
        ⟨name, strField v "description", strField v "version", source⟩

namespace Marketplace

/-- An index with the entries that are understood, and why the others are not. -/
def ofRaw (raw : RawMarketplace) : Marketplace :=
  let entries := raw.plugins.zipIdx.map fun p => (p.2, parseEntry p.1)
  ⟨raw.name, entries.filterMap fun p => p.2.toOption,
    entries.filterMap fun p =>
      match p.2 with
      | .ok _ => none
      | .error why => some s!"entry {p.1}: {why}"⟩

def path (repoRoot : RawPath) : RawPath := repoRoot.child [".claude-plugin", "marketplace.json"]

def read (tools : Tools) (repoRoot : RawPath) :
    Reading (Except String (Option Marketplace)) := do
  if ← isFile (path repoRoot) then
    match ← readToString (path repoRoot) with
    | .error e => return .error s!"read {(path repoRoot).display}: {e}"
    | .ok text =>
      match tools.marketplaceJson text with
      | .error e => return .error s!"marketplace.json: {e}"
      | .ok raw => return .ok (some (ofRaw raw))
  return .ok none

end Marketplace

/-- Where the tree of an entry comes from: a URL, a reference and a path below it. -/
def sourceLocation (source : PluginSource) (marketplaceUrl : String)
    (marketplaceRef : Option String) : String × Option String × Option String :=
  match source with
  | .path p => (marketplaceUrl, marketplaceRef, some p)
  | .git url path gitRef => (url, gitRef, path)

/-! ## Packing -/

section

variable {C : Type}

mutual

/-- The files below an entry, through directories only and without those of the repository. -/
def filesBelow : LinkTree C → List (List String × C)
  | .file content => [([], content)]
  | .link _ => []
  | .dir entries => filesOf entries
termination_by structural t => t

def filesAt : String × LinkTree C → List (List String × C)
  | (name, t) =>
    if name = ".git" then [] else (filesBelow t).map fun f => (name :: f.1, f.2)
termination_by structural e => e

def filesOf : List (String × LinkTree C) → List (List String × C)
  | [] => []
  | entry :: entries => filesAt entry ++ filesOf entries
termination_by structural entries => entries

end

end

def relName (place : List String) : String :=
  String.ofList (("/".intercalate place).toList.map fun c => if c = '\\' then '/' else c)

def zipDir (tools : Tools) (root : RawPath) : Reading (Except String Bytes) := do
  match ← ask root with
  | some (.dir entries) =>
    let files := (filesOf entries).map fun f => (relName f.1, f.2)
    return tools.zip (files.insertionSort fun a b => a.1 ≤ b.1)
  | some _ => return .error "Not a directory (os error 20)"
  | none => return .error "No such file or directory (os error 2)"

def bundleFromDir (tools : Tools) (pluginRoot : RawPath) (fallbackName : String)
    (versionFallback : Option String) : Reading (Except String PluginBundle) := do
  match ← PluginRoot.inspect tools pluginRoot with
  | .error e => return .error e
  | .ok root =>
    if ← root.isInstallable tools then
      let catalog ← buildCatalog tools root
      let hasHooks ← isFile (hooksPath pluginRoot)
      let hooks ← readHooks tools pluginRoot
      match ← zipDir tools pluginRoot with
      | .error e => return .error e
      | .ok zipBytes =>
        return .ok {
          name := root.name fallbackName
          version := root.version.or versionFallback
          description := root.description
          catalog
          hasHooks
          unsupportedHooks :=
            match hooks with
            | .ok hooks => hooks.unsupported.map fun u => u.2.explain u.1
            | .error _ => []
          zipBytes
          hash := tools.sha256 zipBytes
          dialect := root.dialect }
    else return .error s!"not a plugin bundle: {root.rejection}"

theorem bundleFromDir_hash {tools : Tools} {pluginRoot : RawPath} {fallbackName : String}
    {versionFallback : Option String} {look : RawPath → Option (LinkTree Bytes)}
    {b : PluginBundle}
    (h : (bundleFromDir tools pluginRoot fallbackName versionFallback).run look = .ok b) :
    b.hash = tools.sha256 b.zipBytes := by
  unfold bundleFromDir at h
  rw [Asking.run_bind] at h
  split at h
  · cases h
  · rename_i root hroot
    rw [Asking.run_bind] at h
    split_ifs at h
    · simp only [Asking.run_bind] at h
      split at h
      · cases h
      · rename_i zipBytes hzip
        cases h
        rfl
    · cases h

/-! ## Ingesting -/

inductive IngestTarget where
  | url (url : String) (gitRef : Option String)
  | resolved (url : String) (gitRef subpath nameHint : Option String)
  deriving DecidableEq

namespace IngestTarget

/-- The URL, without the white space around it. -/
def trimmedUrl : IngestTarget → String
  | url u _ | resolved u _ _ _ => trim u

def gitRef : IngestTarget → Option String
  | url _ r | resolved _ r _ _ => (r.map trim).filter (· ≠ "")

end IngestTarget

structure ParsedMarketplace where
  name : String
  url : String
  gitRef : Option String
  sha : Option String
  entries : List MarketplaceEntry
  skipped : List String
  deriving DecidableEq

inductive Ingested where
  | plugin (bundle : PluginBundle) (origin : ExternalOrigin)
  | marketplace (parsed : ParsedMarketplace)
  deriving DecidableEq

def repoBasename (url : String) : String :=
  let trimmed := (url.toList.reverse.dropWhile (· = '/')).reverse
  let last := ((RawPath.components trimmed).getLast?).getD []
  String.ofList (dropGit last.length last)
where
  /-- Without the endings `.git`. -/
  dropGit : ℕ → List Char → List Char
    | 0, cs => cs
    | n + 1, cs =>
      match cs.reverse with
      | 't' :: 'i' :: 'g' :: '.' :: rest => dropGit n rest.reverse
      | _ => cs

def checkoutRoot : RawPath := ⟨false, []⟩

def pack (tools : Tools) (pluginRoot : RawPath) (url : String) (gitRef subpath : Option String)
    (fallbackName : String) : Reading (Except String (PluginBundle × ExternalOrigin)) := do
  let sha := tools.headSha (← ask checkoutRoot)
  let bundle ← bundleFromDir tools pluginRoot fallbackName sha
  return bundle.map fun b => (b, ⟨url, gitRef, subpath, none, none⟩)

/-- The plugin at a path below the clone. -/
def packAt (tools : Tools) (target : IngestTarget) (subpath : Option String) (fallback : String) :
    Reading (Except String (Ingested ⊕ IngestTarget)) := do
  let pluginRoot :=
    match subpath with
    | some s => joinDeclared checkoutRoot s
    | none => checkoutRoot
  let packed ← pack tools pluginRoot target.trimmedUrl target.gitRef subpath fallback
  return packed.map fun p => .inl (.plugin p.1 p.2)

/-- What is done in one clone: it is packed, found to be an index, or points elsewhere. -/
def ingestCheckout (tools : Tools) (target : IngestTarget) :
    Reading (Except String (Ingested ⊕ IngestTarget)) :=
  let url := target.trimmedUrl
  match target with
  | .resolved _ _ subpath nameHint =>
    packAt tools target subpath (nameHint.getD (repoBasename url))
  | .url _ _ => do
    match ← Marketplace.read tools checkoutRoot with
    | .error e => return .error e
    | .ok none => packAt tools target none (repoBasename url)
    | .ok (some m) =>
      match m.plugins with
      | [] => packAt tools target none (repoBasename url)
      | [only] =>
        let location := sourceLocation only.source url target.gitRef
        if location.1 ≠ url then
          return .ok (.inr (.resolved location.1 location.2.1 location.2.2 (some only.name)))
        packAt tools target location.2.2 only.name
      | _ =>
        let sha := tools.headSha (← ask checkoutRoot)
        return .ok (.inl (.marketplace ⟨m.name.getD (repoBasename url), url, target.gitRef, sha,
          m.plugins, m.skipped⟩))

abbrev Remote := String → Option String → Except String (LinkTree Bytes)

def cloneDir (clone : LinkTree Bytes) : LinkTree Bytes := .dir [("repo", clone)]

/-- A server: its file system with a clone in a temporary directory of its own. -/
structure Server where
  root : LinkTree Bytes → LinkTree Bytes
  tmp : LinkTree Bytes → List String
  holds : ∀ clone, (root clone).sub (tmp clone) = some (cloneDir clone)

/-- How many links a path may lead through. -/
def maxLinks : ℕ := 40

def Server.look (s : Server) (clone : LinkTree Bytes) (p : RawPath) : Option (LinkTree Bytes) :=
  (s.root clone).resolve maxLinks (if p.absolute then [] else s.tmp clone ++ ["repo"]) p.comps

/-- One clone and what is done in it. -/
def ingestOne (tools : Tools) (remote : Remote) (s : Server) (target : IngestTarget) :
    Except String (Ingested ⊕ IngestTarget) :=
  if target.trimmedUrl = "" then .error "source_url is required"
  else
    match remote target.trimmedUrl target.gitRef with
    | .error e => .error e
    | .ok clone => (ingestCheckout tools target).run (s.look clone)

/-- The whole ingest. An index of one entry may point elsewhere, once: what it points to is packed
as it is. -/
def ingestGit (tools : Tools) (remote : Remote) (s : Server) (target : IngestTarget) :
    Except String Ingested :=
  match ingestOne tools remote s target with
  | .error e => .error e
  | .ok (.inl ingested) => .ok ingested
  | .ok (.inr elsewhere) =>
    match ingestOne tools remote s elsewhere with
    | .error e => .error e
    | .ok (.inl ingested) => .ok ingested
    | .ok (.inr _) => .error ""

/-! ## Staying inside -/

def lookIn (clone : LinkTree Bytes) (p : RawPath) : Option (Option (LinkTree Bytes)) :=
  if p.absolute then none else (cloneDir clone).resolveIn maxLinks ["repo"] p.comps

def lookOnlyIn (clone : LinkTree Bytes) (p : RawPath) : Option (LinkTree Bytes) :=
  (lookIn clone p).getD none

/-- No path that is looked at leaves the clone. -/
def StaysIn {α : Type} (clone : LinkTree Bytes) (reading : Reading α) : Prop :=
  ∀ p ∈ reading.asked (lookOnlyIn clone), (lookIn clone p).isSome

instance {α : Type} (clone : LinkTree Bytes) (reading : Reading α) :
    Decidable (StaysIn clone reading) :=
  inferInstanceAs (Decidable (∀ p ∈ reading.asked (lookOnlyIn clone), _))

def cloneOf (remote : Remote) (target : IngestTarget) : Option (LinkTree Bytes) :=
  if target.trimmedUrl = "" then none else (remote target.trimmedUrl target.gitRef).toOption

def pointsTo (tools : Tools) (remote : Remote) (target : IngestTarget) : Option IngestTarget :=
  (cloneOf remote target).bind fun clone =>
    match (ingestCheckout tools target).run (lookOnlyIn clone) with
    | .ok (.inr elsewhere) => some elsewhere
    | _ => none

/-- No path that the ingest of a target looks at leaves the clone it is in. -/
def Contained (tools : Tools) (remote : Remote) (target : IngestTarget) : Prop :=
  (∀ clone, cloneOf remote target = some clone → StaysIn clone (ingestCheckout tools target)) ∧
    ∀ elsewhere, pointsTo tools remote target = some elsewhere →
      ∀ clone, cloneOf remote elsewhere = some clone →
        StaysIn clone (ingestCheckout tools elsewhere)

variable {tools : Tools} {remote : Remote} {target : IngestTarget} {clone : LinkTree Bytes}

theorem Server.look_eq (s : Server) {p : RawPath} (h : (lookIn clone p).isSome) :
    s.look clone p = lookOnlyIn clone p := by
  obtain ⟨r, hr⟩ := Option.isSome_iff_exists.mp h
  have honly : lookOnlyIn clone p = r := by rw [lookOnlyIn, hr, Option.getD_some]
  rw [honly]
  unfold lookIn at hr
  split_ifs at hr with habs
  rw [Server.look, if_neg habs]
  exact LinkTree.resolve_of_resolveIn (s.holds clone) hr

theorem Server.run_eq {α : Type} (s : Server) {reading : Reading α} (h : StaysIn clone reading) :
    reading.run (s.look clone) = reading.run (lookOnlyIn clone) :=
  Asking.run_congr fun p hp => s.look_eq (h p hp)

theorem ingestOne_eq (s : Server)
    (h : ∀ clone, cloneOf remote target = some clone →
      StaysIn clone (ingestCheckout tools target)) :
    ingestOne tools remote s target =
      if target.trimmedUrl = "" then .error "source_url is required"
      else
        match remote target.trimmedUrl target.gitRef with
        | .error e => .error e
        | .ok clone => (ingestCheckout tools target).run (lookOnlyIn clone) := by
  unfold ingestOne
  split_ifs with hurl
  · rfl
  · split
    · rfl
    · rename_i clone hclone
      refine s.run_eq (h clone ?_)
      rw [cloneOf, if_neg hurl, hclone]
      rfl

theorem pointsTo_of_ingestOne (s : Server) {elsewhere : IngestTarget}
    (h : ∀ clone, cloneOf remote target = some clone → StaysIn clone (ingestCheckout tools target))
    (hone : ingestOne tools remote s target = .ok (.inr elsewhere)) :
    pointsTo tools remote target = some elsewhere := by
  rw [ingestOne_eq s h] at hone
  split_ifs at hone with hurl
  split at hone
  · cases hone
  · rename_i clone hclone
    rw [pointsTo, cloneOf, if_neg hurl, hclone]
    simp only [Except.toOption, Option.bind_some, hone]

/-- The archive of no files. -/
def emptyZip : Bytes := [0x50, 0x4B, 0x05, 0x06] ++ List.replicate 18 0

/-- The other code, as far as a skill without packed files needs it. -/
def skillTools : Tools where
  manifestJson _ := .error ""
  marketplaceJson _ := .error ""
  json _ := .error ""
  yamlMapping front :=
    if front = "name: x\ndescription: one\n" then
      some [(some "name", some "x"), (some "description", some "one")]
    else if front = "name: x\ndescription: two\n" then
      some [(some "name", some "x"), (some "description", some "two")]
    else none
  zip files := if files = [] then .ok emptyZip else .error ""
  sha256 bytes :=
    if bytes = emptyZip then "8739c76e681f900923b900c9df0ef75cf421d39cabb54650c4b9ad19b6a76d85"
    else ""
  headSha _ := some "1ec5865"

def skillText (description : String) : Bytes :=
  s!"{fence}\nname: x\ndescription: {description}\n{fence}\nb".toList.map fun c => c.toNat.toUInt8

/-- A server with a skill of its own outside every clone. -/
def serverWith (description : String) : Server where
  root clone := .dir [("tmp", .dir [("t", cloneDir clone)]),
    ("srv", .dir [("SKILL.md", .file (skillText description))])]
  tmp _ := ["tmp", "t"]
  holds _ := rfl

def linkedSkill (target : RawPath) : LinkTree Bytes :=
  .dir [("skills", .dir [("x", .dir [("SKILL.md", .link target)])])]

/-- A plugin below a repository, whose skill is a link to a document beside the plugin. -/
def insideRepo : LinkTree Bytes :=
  .dir [("docs", .dir [("x.md", .file (skillText "one"))]),
    ("p", linkedSkill ⟨false, ["..", "..", "..", "docs", "x.md"]⟩)]

def insideTarget : IngestTarget := .resolved "file:///r" none (some "p") (some "x")

def offered (result : Except String Ingested) : Option (List CatalogEntry) :=
  match result with
  | .ok (.plugin bundle _) => some bundle.catalog
  | _ => none

def outsideRepo : LinkTree Bytes := linkedSkill ⟨true, ["srv", "SKILL.md"]⟩

def outsideTarget : IngestTarget := .url "file:///r" none

end Horsie.Plugins
