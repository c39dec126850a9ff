import Horsie.Plugins.Row
import Horsie.Lib.Take
import Horsie.Lib.Transition

/-!
# Bundle garbage collection

The bytes of a cloned bundle are a file named by their digest in one directory of all projects and
nodes. An install writes the file under a temporary name that all installs of the digest share,
renames it, and then commits its row; every install and every removal ends with a collection, which
reads the digests the rows name and then deletes the other files. In a run in which no row commits
behind a collection's back, no collection deletes what an install is about to name and no file is
renamed half written, the file of every digest that a row names is there.
-/

namespace Horsie.Plugins.Artifact

open Horsie.Lib

/-! ## The directory -/

/-- A file, with the digest it was made for. -/
structure Inode where
  digest : String
  bytes : Bytes
  deriving DecidableEq

structure Disk where
  inodes : List Inode
  /-- `<hash>.zip` -/
  zips : Map String ℕ
  /-- `<hash>.zip.tmp` -/
  tmps : Map String ℕ

namespace Disk

variable (d : Disk)

def create (digest : String) : Disk × ℕ :=
  match d.tmps.lookup digest with
  | some n => ({ d with inodes := d.inodes.set n ⟨digest, []⟩ }, n)
  | none =>
    ({ d with
        inodes := d.inodes ++ [⟨digest, []⟩]
        tmps := d.tmps.insert digest d.inodes.length },
      d.inodes.length)

/-- The first bytes are written into an open file, over what it holds. -/
def write (n : ℕ) (bytes : Bytes) : Disk :=
  { d with inodes := d.inodes.modify n fun f =>
      { f with bytes := bytes ++ f.bytes.drop bytes.length } }

/-- The temporary file gets the digest's name, if it is still there. -/
def rename (digest : String) : Option Disk :=
  (d.tmps.lookup digest).map fun n =>
    { d with zips := d.zips.insert digest n, tmps := d.tmps.erase digest }

def remove (digest : String) : Disk := { d with zips := d.zips.erase digest }

end Disk

/-! ## Calls -/

/-- How a step ends: it does all or nothing, does it and reports otherwise, or writes some of the
bytes. -/
inductive Outcome where
  | ok
  | error (e : String)
  | lost (e : String)
  | torn (k : ℕ) (e : String)
  deriving DecidableEq

def Outcome.commits : Outcome → Bool
  | ok | lost _ => true
  | error _ | torn _ _ => false

inductive Call where
  | update (project name : String) (bundle : PluginBundle) (kind : PluginKind)
  | persist (project : String) (bundle : PluginBundle) (kind : PluginKind)
  | creating (project : String) (bundle : PluginBundle) (kind : PluginKind)
      (existing : Option PluginRow)
  | writing (project : String) (bundle : PluginBundle) (kind : PluginKind)
      (existing : Option PluginRow) (file : ℕ)
  | moving (project : String) (bundle : PluginBundle) (kind : PluginKind)
      (existing : Option PluginRow)
  | upserting (project : String) (bundle : PluginBundle) (kind : PluginKind)
      (existing : Option PluginRow)
  | remove (project name : String)
  | deleting (project name : String)
  | gc (answer : Option PluginRow)
  | sweeping (keep : List String) (answer : Option PluginRow)
  | finished (answer : Except String (Option PluginRow))

def Outcome.next (o : Outcome) (c : Call) : Call :=
  match o with
  | ok => c
  | error e | lost e | torn _ e => .finished (.error e)

/-- The requests: what a clone was packed to comes with them. -/
inductive Request where
  | install (project : String) (bundle : PluginBundle) (kind : PluginKind)
  | update (project name : String) (bundle : PluginBundle) (kind : PluginKind)
  | remove (project name : String)
  deriving DecidableEq

def Request.call : Request → Call
  | install project bundle kind => .persist project bundle kind
  | update project name bundle kind => .update project name bundle kind
  | remove project name => .remove project name

def Request.packed (zip : String → Bytes) : Request → Bool
  | install _ bundle _ | update _ _ bundle _ => bundle.zipBytes = zip bundle.hash
  | remove _ _ => true

structure World where
  rows : PluginRows
  disk : Disk
  calls : List Call

inductive Label where
  | call (r : Request)
  | act (i : ℕ) (o : Outcome) (now : String)
  | unlink (i : ℕ) (digest : String)
  deriving DecidableEq

def act (rows : PluginRows) (d : Disk) (c : Call) (o : Outcome) (now : String) :
    PluginRows × Disk × Call :=
  match c with
  | .update project name bundle kind =>
    (rows, d, o.next
      (match rows.lookup (project, name) with
      | none => .finished (.error s!"no such bundle '{name}'")
      | some row =>
        if row.kind.isAuthored then
          .finished (.error (s!"'{name}' was authored here, so there is nothing to update it " ++
            "from. Edit its skills instead."))
        else .persist project bundle kind))
  | .persist project bundle kind =>
    let existing := rows.lookup (project, bundle.name)
    (rows, d, o.next
      (if kind.isAuthored then .upserting project bundle kind existing
      else .creating project bundle kind existing))
  | .creating project bundle kind existing =>
    if o.commits then
      ((rows, (d.create bundle.hash).1,
        o.next (.writing project bundle kind existing (d.create bundle.hash).2)))
    else (rows, d, o.next c)
  | .writing project bundle kind existing file =>
    (rows,
      (match o with
      | .ok | .lost _ => d.write file bundle.zipBytes
      | .torn k _ => d.write file (bundle.zipBytes.take k)
      | .error _ => d),
      o.next (.moving project bundle kind existing))
  | .moving project bundle kind existing =>
    match d.rename bundle.hash with
    | none => (rows, d, .finished (.error "No such file or directory (os error 2)"))
    | some d' =>
      (rows, (if o.commits then d' else d), o.next (.upserting project bundle kind existing))
  | .upserting project bundle kind existing =>
    ((if o.commits then
        rows.insert (project, bundle.name) (bundle.row kind existing now) else rows),
      d, o.next (.gc (some (bundle.row kind existing now))))
  | .remove project name =>
    (rows, d, o.next
      (if (rows.lookup (project, name)).any (·.kind.isAuthored) then
        .finished (.error (s!"'{name}' was authored on this server, not installed — " ++
          "delete the authored plugin to remove it"))
      else .deleting project name))
  | .deleting project name =>
    ((if o.commits then rows.erase (project, name) else rows), d, o.next (.gc none))
  | .gc answer => (rows, d, o.next (.sweeping (referencedHashes rows) answer))
  | .sweeping _ answer => (rows, d, o.next (.finished (.ok answer)))
  | .finished answer => (rows, d, .finished answer)

section

-- the bytes that a digest is of: no two bundles have one digest
variable (zip : String → Bytes)

def World.step? (w : World) : Label → Option World
  | .call r => if r.packed zip then some { w with calls := w.calls ++ [r.call] } else none
  | .act i o now =>
    match w.calls[i]? with
    | none => none
    | some c =>
      let done := Artifact.act w.rows w.disk c o now
      some ⟨done.1, done.2.1, w.calls.set i done.2.2⟩
  | .unlink i digest =>
    match w.calls[i]? with
    | some (.sweeping keep _) =>
      -- the directory may show what was put into it since the collection began
      if digest ∉ keep ∧ (w.disk.zips.lookup digest).isSome then
        some { w with disk := w.disk.remove digest }
      else none
    | _ => none

def Disk.Holds (d : Disk) (digest : String) : Prop :=
  ∃ n, d.zips.lookup digest = some n ∧ d.inodes[n]? = some ⟨digest, zip digest⟩

/-- Every digest that the row of a cloned bundle names is on disk. -/
def World.Stored (w : World) : Prop :=
  ∀ key row, w.rows.lookup key = some row → row.kind.isAuthored = false →
    w.disk.Holds zip row.digest

/-- The commits and file steps that the rest rests on: a row commits while no collection has read
the digests without it, a collection deletes a file while no install of it is about to commit, and
a temporary file is renamed when it is whole. -/
def World.heeds (w : World) : Label → Bool
  | .call _ => true
  | .act i o _ =>
    !o.commits ||
      match w.calls[i]? with
      | some (.moving _ bundle _ _) =>
        match w.disk.tmps.lookup bundle.hash with
        | none => true
        | some n => w.disk.inodes[n]? = some ⟨bundle.hash, zip bundle.hash⟩
      | some (.upserting _ bundle kind _) =>
        kind.isAuthored || w.calls.all fun c =>
          match c with
          | .sweeping keep _ => bundle.hash ∈ keep
          | _ => true
      | _ => true
  | .unlink _ digest =>
    w.calls.all fun c =>
      match c with
      | .upserting _ bundle kind _ => kind.isAuthored || bundle.hash ≠ digest
      | _ => true

end

/-! ## What is kept -/

variable {zip : String → Bytes} {w w' : World} {d : Disk} {digest : String}

def Disk.MadeFor (d : Disk) (n : ℕ) (digest : String) : Prop :=
  ∃ f, d.inodes[n]? = some f ∧ f.digest = digest

/-- The names of a directory: each names a file made for its digest, and none names one of the
other kind too. -/
structure Disk.Linked (d : Disk) : Prop where
  zips : ∀ digest n, d.zips.lookup digest = some n → d.MadeFor n digest
  tmps : ∀ digest n, d.tmps.lookup digest = some n → d.MadeFor n digest
  apart : ∀ digest n, d.zips.lookup digest = some n → d.tmps.lookup digest ≠ some n

def Call.Sound (zip : String → Bytes) (rows : PluginRows) (d : Disk) : Call → Prop
  | .update _ _ bundle _ | .persist _ bundle _ | .creating _ bundle _ _ =>
    bundle.zipBytes = zip bundle.hash
  | .writing _ bundle _ _ file =>
    bundle.zipBytes = zip bundle.hash ∧ d.MadeFor file bundle.hash
  | .upserting _ bundle kind _ => kind.isAuthored = false → d.Holds zip bundle.hash
  | .sweeping keep _ =>
    ∀ key row, rows.lookup key = some row → row.kind.isAuthored = false → row.digest ∈ keep
  | _ => True

structure World.Kept (zip : String → Bytes) (w : World) : Prop where
  stored : w.Stored zip
  linked : w.disk.Linked
  calls : ∀ (i : ℕ) (c : Call), w.calls[i]? = some c → c.Sound zip w.rows w.disk

/-! ### The directory -/

variable {bytes : Bytes} {digest' : String} {m n : ℕ}

theorem Disk.madeFor_set (h : d.MadeFor m digest')
    (hn : d.MadeFor n digest) :
    { d with inodes := d.inodes.set n ⟨digest, bytes⟩ }.MadeFor m digest' := by
  obtain ⟨f, hf, rfl⟩ := h
  obtain ⟨g, hg, rfl⟩ := hn
  by_cases hm : n = m
  · subst hm
    cases hf.symm.trans hg
    refine ⟨⟨f.digest, bytes⟩, ?_, rfl⟩
    exact List.getElem?_set_self (List.getElem?_eq_some_iff.mp hf).1
  · exact ⟨f, (List.getElem?_set_ne hm).trans hf, rfl⟩

theorem Disk.create_madeFor (h : d.Linked) :
    (d.create digest).1.MadeFor (d.create digest).2 digest := by
  unfold Disk.create
  split
  · rename_i n hn
    exact madeFor_set (h.tmps digest n hn) (h.tmps digest n hn)
  · exact ⟨⟨digest, []⟩, List.getElem?_concat_length, rfl⟩

theorem Disk.madeFor_create (h : d.Linked) (hm : d.MadeFor m digest') :
    (d.create digest).1.MadeFor m digest' := by
  unfold Disk.create
  split
  · rename_i n hn
    exact madeFor_set hm (h.tmps digest n hn)
  · obtain ⟨f, hf, hd⟩ := hm
    exact ⟨f, getElem?_snoc_of_some hf, hd⟩

theorem Disk.Holds.create (h : d.Holds zip digest') (hd : d.Linked) :
    (d.create digest).1.Holds zip digest' := by
  obtain ⟨m, hm, hf⟩ := h
  unfold Disk.create
  split
  · rename_i n hn
    refine ⟨m, hm, (List.getElem?_set_ne ?_).trans hf⟩
    -- the file of the digest is not the temporary one
    rintro rfl
    obtain ⟨f, hf', rfl⟩ := hd.tmps digest n hn
    cases hf.symm.trans hf'
    exact hd.apart digest' n hm hn
  · exact ⟨m, hm, getElem?_snoc_of_some hf⟩

theorem Disk.MadeFor.lt (h : d.MadeFor n digest) : n < d.inodes.length := by
  obtain ⟨f, hf, -⟩ := h
  exact (List.getElem?_eq_some_iff.mp hf).1

theorem Disk.Linked.create (h : d.Linked) (digest : String) : (d.create digest).1.Linked := by
  have hmade : ∀ m digest', d.MadeFor m digest' → (d.create digest).1.MadeFor m digest' :=
    fun m digest' hm => Disk.madeFor_create h hm
  cases hn : d.tmps.lookup digest with
  | some n =>
    have hd : (d.create digest).1 = { d with inodes := d.inodes.set n ⟨digest, []⟩ } := by
      simp only [Disk.create, hn]
    refine ⟨fun k m hk => hmade m k ?_, fun k m hk => hmade m k ?_, fun k m hk => ?_⟩
    · rw [hd] at hk
      exact h.zips k m hk
    · rw [hd] at hk
      exact h.tmps k m hk
    · rw [hd] at hk ⊢
      exact h.apart k m hk
  | none =>
    have hd : (d.create digest).1 =
        { d with
          inodes := d.inodes ++ [⟨digest, []⟩]
          tmps := d.tmps.insert digest d.inodes.length } := by
      simp only [Disk.create, hn]
    refine ⟨fun k m hk => hmade m k ?_, fun k m hk => ?_, fun k m hk => ?_⟩
    · rw [hd] at hk
      exact h.zips k m hk
    · rw [hd] at hk
      simp only [Map.lookup_insert_eq] at hk
      split_ifs at hk with hkd
      · cases hk
        rw [hd, hkd]
        exact ⟨⟨digest, []⟩, List.getElem?_concat_length, rfl⟩
      · exact hmade m k (h.tmps k m hk)
    · rw [hd] at hk ⊢
      simp only [Map.lookup_insert_eq]
      split_ifs with hkd
      · have hlt := (h.zips k m hk).lt
        intro heq
        have hm := Option.some.inj heq
        omega
      · exact h.apart k m hk

theorem Disk.getElem?_write {f : Inode} (hf : d.inodes[n]? = some f) :
    (d.write m bytes).inodes[n]? = some
      (if m = n then { f with bytes := bytes ++ f.bytes.drop bytes.length } else f) := by
  rw [Disk.write, List.getElem?_modify, hf]
  rfl

theorem Disk.MadeFor.write (h : d.MadeFor n digest) :
    (d.write m bytes).MadeFor n digest := by
  obtain ⟨f, hf, hd⟩ := h
  refine ⟨_, getElem?_write hf, ?_⟩
  split_ifs
  · exact hd
  · exact hd

theorem Disk.Linked.write (h : d.Linked) (m : ℕ) (bytes : Bytes) : (d.write m bytes).Linked where
  zips k n hk := (h.zips k n hk).write
  tmps k n hk := (h.tmps k n hk).write
  apart k n hk := h.apart k n hk

theorem Disk.Holds.write {k : ℕ} (h : d.Holds zip digest')
    (hm : d.MadeFor m digest) : (d.write m ((zip digest).take k)).Holds zip digest' := by
  obtain ⟨n, hn, hf⟩ := h
  refine ⟨n, hn, (getElem?_write hf).trans (congrArg some ?_)⟩
  split_ifs with hmn
  · subst hmn
    obtain ⟨f, hf', rfl⟩ := hm
    cases hf.symm.trans hf'
    refine congrArg (Inode.mk digest') ?_
    calc (zip digest').take k ++ (zip digest').drop ((zip digest').take k).length
        = (zip digest').take (min k (zip digest').length) ++
            (zip digest').drop (min k (zip digest').length) := by
          rw [List.length_take, ← List.take_eq_take_min]
      _ = zip digest' := List.take_append_drop _ _
  · rfl

variable {d' : Disk}

theorem Disk.rename_eq (h : d.rename digest = some d') : ∃ n, d.tmps.lookup digest = some n ∧
    d' = { d with zips := d.zips.insert digest n, tmps := d.tmps.erase digest } := by
  obtain ⟨n, hn, rfl⟩ := Option.map_eq_some_iff.mp h
  exact ⟨n, hn, rfl⟩

theorem Disk.MadeFor.rename (h : d.MadeFor n digest')
    (hd : d.rename digest = some d') : d'.MadeFor n digest' := by
  obtain ⟨m, -, rfl⟩ := rename_eq hd
  exact h

theorem Disk.Linked.rename (h : d.Linked) (hd : d.rename digest = some d') : d'.Linked := by
  obtain ⟨m, hm, rfl⟩ := rename_eq hd
  refine ⟨fun k n hk => ?_, fun k n hk => ?_, fun k n hk => ?_⟩
  · simp only [Map.lookup_insert_eq] at hk
    split_ifs at hk with hkd
    · cases hk
      rw [hkd]
      exact h.tmps digest m hm
    · exact h.zips k n hk
  · simp only [Map.lookup_erase_eq] at hk
    split_ifs at hk with hkd
    exact h.tmps k n hk
  · simp only [Map.lookup_insert_eq] at hk
    simp only [Map.lookup_erase_eq]
    split_ifs at hk ⊢ with hkd
    · intro heq
      cases heq
    · exact h.apart k n hk

theorem Disk.Holds.rename (hd : d.rename digest = some d')
    (hwhole : ∀ n, d.tmps.lookup digest = some n → d.inodes[n]? = some ⟨digest, zip digest⟩)
    (h : d.Holds zip digest' ∨ digest' = digest) : d'.Holds zip digest' := by
  obtain ⟨m, hm, rfl⟩ := rename_eq hd
  by_cases hk : digest' = digest
  · subst hk
    refine ⟨m, ?_, hwhole m hm⟩
    simp only [Map.lookup_insert_eq, if_true]
  · obtain ⟨n, hn, hf⟩ := h.resolve_right hk
    refine ⟨n, ?_, hf⟩
    simp only [Map.lookup_insert_eq, if_neg hk]
    exact hn

theorem Disk.Linked.remove (h : d.Linked) (digest : String) : (d.remove digest).Linked := by
  have hzips : ∀ k n, (d.remove digest).zips.lookup k = some n → d.zips.lookup k = some n := by
    intro k n hk
    simp only [Disk.remove, Map.lookup_erase_eq] at hk
    split_ifs at hk
    exact hk
  exact ⟨fun k n hk => h.zips k n (hzips k n hk), h.tmps,
    fun k n hk => h.apart k n (hzips k n hk)⟩

theorem Disk.Holds.remove (h : d.Holds zip digest') (hne : digest' ≠ digest) :
    (d.remove digest).Holds zip digest' := by
  obtain ⟨n, hn, hf⟩ := h
  refine ⟨n, ?_, hf⟩
  simp only [Disk.remove, Map.lookup_erase_eq, if_neg hne]
  exact hn

/-! ### Steps -/

variable {rows rows' : PluginRows} {c c' : Call} {o : Outcome} {i : ℕ} {now : String}

theorem Call.Sound.next (h : c.Sound zip rows d) : (o.next c).Sound zip rows d := by
  cases o with
  | ok => exact h
  | error e => trivial
  | lost e => trivial
  | torn k e => trivial

theorem Call.Sound.mono (h : c.Sound zip rows d)
    (hmade : ∀ n digest, d.MadeFor n digest → d'.MadeFor n digest)
    (hholds : ∀ p b k ex, c = .upserting p b k ex → k.isAuthored = false →
      d.Holds zip b.hash → d'.Holds zip b.hash)
    (hkeeps : ∀ keep answer, c = .sweeping keep answer → ∀ key row,
      rows'.lookup key = some row → row.kind.isAuthored = false → row.digest ∈ keep) :
    c.Sound zip rows' d' := by
  cases c with
  | writing p b k ex file => exact ⟨h.1, hmade _ _ h.2⟩
  | upserting p b k ex => exact fun hk => hholds p b k ex rfl hk (h hk)
  | sweeping keep answer => exact hkeeps keep answer rfl
  | _ => exact h

theorem World.Kept.of_disk (h : w.Kept zip) (hlinked : d'.Linked)
    (hmade : ∀ n digest, w.disk.MadeFor n digest → d'.MadeFor n digest)
    (hholds : ∀ digest, w.disk.Holds zip digest → d'.Holds zip digest)
    (hc' : c'.Sound zip w.rows d') : World.Kept zip ⟨w.rows, d', w.calls.set i c'⟩ where
  stored key row hrow hkind := hholds _ (h.stored key row hrow hkind)
  linked := hlinked
  calls j e hj := by
    rcases getElem?_set_cases hj with ⟨-, rfl⟩ | ⟨-, hj⟩
    · exact hc'
    · refine (h.calls j e hj).mono hmade (fun p b k ex _ _ => hholds b.hash) ?_
      rintro keep answer rfl
      exact h.calls j _ hj

theorem World.Kept.of_same (h : w.Kept zip) (hc' : c'.Sound zip w.rows w.disk) :
    World.Kept zip ⟨w.rows, w.disk, w.calls.set i c'⟩ :=
  h.of_disk h.linked (fun _ _ hm => hm) (fun _ hd => hd) hc'

/-- A step of one call on the rows, which names no digest without its file or behind the back of a
collection. -/
theorem World.Kept.of_rows (h : w.Kept zip)
    (hrows : ∀ key row, rows'.lookup key = some row → row.kind.isAuthored = false →
      (∃ key, w.rows.lookup key = some row) ∨ w.disk.Holds zip row.digest ∧
        ∀ keep answer, .sweeping keep answer ∈ w.calls → row.digest ∈ keep)
    (hc' : c'.Sound zip rows' w.disk) : World.Kept zip ⟨rows', w.disk, w.calls.set i c'⟩ where
  stored key row hrow hkind := by
    rcases hrows key row hrow hkind with ⟨key', hold⟩ | ⟨hholds, -⟩
    · exact h.stored key' row hold hkind
    · exact hholds
  linked := h.linked
  calls j e hj := by
    rcases getElem?_set_cases hj with ⟨-, rfl⟩ | ⟨-, hj⟩
    · exact hc'
    · refine (h.calls j e hj).mono (fun _ _ hm => hm) (fun _ _ _ _ _ _ hd => hd) ?_
      rintro keep answer rfl key row hrow hkind
      rcases hrows key row hrow hkind with ⟨key', hold⟩ | ⟨-, hkeep⟩
      · exact h.calls j _ hj key' row hold hkind
      · exact hkeep keep answer (List.mem_of_getElem? hj)

theorem World.Kept.act (h : w.Kept zip) (hi : w.calls[i]? = some c)
    (hg : w.heeds zip (.act i o now) = true) :
    World.Kept zip ⟨(act w.rows w.disk c o now).1, (Artifact.act w.rows w.disk c o now).2.1,
      w.calls.set i (Artifact.act w.rows w.disk c o now).2.2⟩ := by
  have hc := h.calls i c hi
  cases c with
  | update project name bundle kind =>
    refine h.of_same (Call.Sound.next ?_)
    split
    · trivial
    · split_ifs
      · trivial
      · exact hc
  | persist project bundle kind =>
    refine h.of_same (Call.Sound.next ?_)
    split_ifs with hkind
    · intro hnot
      rw [hkind] at hnot
      cases hnot
    · exact hc
  | creating project bundle kind existing =>
    simp only [Artifact.act]
    split_ifs
    · exact h.of_disk (h.linked.create _) (fun _ _ hm => Disk.madeFor_create h.linked hm)
        (fun _ hd => hd.create h.linked) (Call.Sound.next ⟨hc, Disk.create_madeFor h.linked⟩)
    · exact h.of_same (Call.Sound.next hc)
  | writing project bundle kind existing file =>
    obtain ⟨hpacked, hmade⟩ := hc
    have hwrite : ∀ k c', c'.Sound zip w.rows (w.disk.write file ((zip bundle.hash).take k)) →
        World.Kept zip ⟨w.rows, w.disk.write file ((zip bundle.hash).take k), w.calls.set i c'⟩ :=
      fun k c' hc' => h.of_disk (h.linked.write _ _) (fun _ _ hm => hm.write)
        (fun _ hd => hd.write hmade) hc'
    have hwhole : (zip bundle.hash).take (zip bundle.hash).length = zip bundle.hash :=
      List.take_length
    simp only [Artifact.act, hpacked]
    cases o with
    | ok =>
      have hdone := hwrite (zip bundle.hash).length (.moving project bundle kind existing) trivial
      rwa [hwhole] at hdone
    | error e => exact h.of_same trivial
    | lost e =>
      have hdone := hwrite (zip bundle.hash).length (.finished (.error e)) trivial
      rwa [hwhole] at hdone
    | torn k e => exact hwrite k (.finished (.error e)) trivial
  | moving project bundle kind existing =>
    simp only [Artifact.act]
    split
    · exact h.of_same trivial
    · rename_i d' hd'
      obtain ⟨n, hn, -⟩ := Disk.rename_eq hd'
      cases ho : o.commits with
      | false =>
        refine h.of_same ?_
        cases o <;> trivial
      | true =>
        simp only [World.heeds, ho, hi, hn, Bool.not_true, Bool.false_or, decide_eq_true_eq] at hg
        have hholds : ∀ digest, w.disk.Holds zip digest ∨ digest = bundle.hash →
            d'.Holds zip digest := fun digest hd => .rename hd' (fun m hm => by
              cases hn.symm.trans hm
              exact hg) hd
        exact h.of_disk (h.linked.rename hd') (fun _ _ hm => hm.rename hd')
          (fun digest hd => hholds digest (.inl hd))
          (Call.Sound.next fun _ => hholds bundle.hash (.inr rfl))
  | upserting project bundle kind existing =>
    simp only [Artifact.act]
    split_ifs with ho
    · simp only [World.heeds, ho, hi, Bool.not_true, Bool.false_or, Bool.or_eq_true,
        List.all_eq_true] at hg
      refine h.of_rows (fun key row hrow hkind => ?_) (Call.Sound.next trivial)
      rw [Map.lookup_insert_eq] at hrow
      split_ifs at hrow with hkey
      · cases hrow
        have hcloned : kind.isAuthored = false := hkind
        refine .inr ⟨hc hcloned, fun keep answer hmem => ?_⟩
        rcases hg with hauthored | hall
        · rw [hcloned] at hauthored
          cases hauthored
        · exact of_decide_eq_true (hall _ hmem)
      · exact .inl ⟨key, hrow⟩
    · exact h.of_same (Call.Sound.next trivial)
  | remove project name =>
    refine h.of_same (Call.Sound.next ?_)
    split_ifs <;> trivial
  | deleting project name =>
    simp only [Artifact.act]
    split_ifs
    · refine h.of_rows (fun key row hrow _ => .inl ⟨key, ?_⟩) (Call.Sound.next trivial)
      rw [Map.lookup_erase_eq] at hrow
      split_ifs at hrow
      exact hrow
    · exact h.of_same (Call.Sound.next trivial)
  | gc answer =>
    refine h.of_same (Call.Sound.next fun key row hrow hkind => ?_)
    exact mem_referencedHashes.mpr ⟨key, row, hrow, hkind, rfl⟩
  | sweeping keep answer => exact h.of_same (Call.Sound.next trivial)
  | finished answer => exact h.of_same trivial

/-- A collection deletes a file that neither a row nor an install about to commit names. -/
theorem World.Kept.unlink {keep : List String} {answer : Option PluginRow} (h : w.Kept zip)
    (hi : w.calls[i]? = some (.sweeping keep answer)) (hnot : digest ∉ keep)
    (hg : w.heeds zip (.unlink i digest) = true) :
    World.Kept zip { w with disk := w.disk.remove digest } where
  stored key row hrow hkind := by
    refine (h.stored key row hrow hkind).remove ?_
    rintro rfl
    exact hnot (h.calls i _ hi key row hrow hkind)
  linked := h.linked.remove digest
  calls j c hj := by
    refine (h.calls j c hj).mono (fun _ _ hm => hm) ?_ ?_
    · rintro p b k ex rfl hk hd
      simp only [World.heeds, List.all_eq_true] at hg
      have hne := hg _ (List.mem_of_getElem? hj)
      simp only [hk, Bool.false_or, decide_eq_true_eq] at hne
      exact hd.remove hne
    · rintro keep answer rfl
      exact h.calls j _ hj

theorem Request.sound_call {r : Request} (h : r.packed zip = true) : r.call.Sound zip rows d := by
  cases r with
  | install project bundle kind =>
    simp only [Request.packed, decide_eq_true_eq] at h
    exact h
  | update project name bundle kind =>
    simp only [Request.packed, decide_eq_true_eq] at h
    exact h
  | remove project name => trivial

theorem World.Kept.step {l : Label} (h : w.Kept zip) (hg : w.heeds zip l = true)
    (hw : w.step? zip l = some w') : w'.Kept zip := by
  cases l with
  | call r =>
    simp only [World.step?] at hw
    split_ifs at hw with hpacked
    cases hw
    refine ⟨h.stored, h.linked, fun j c hj => ?_⟩
    rcases getElem?_snoc_cases hj with hj | ⟨-, rfl⟩
    · exact h.calls j c hj
    · exact Request.sound_call hpacked
  | act i o now =>
    simp only [World.step?] at hw
    split at hw
    · cases hw
    · rename_i c hi
      cases hw
      exact h.act hi hg
  | unlink i digest =>
    simp only [World.step?] at hw
    split at hw
    · rename_i keep answer hi
      split_ifs at hw with hcond
      cases hw
      exact h.unlink hi hcond.1 hg
    · cases hw

/-- Nothing is under way, and what the rows name is on disk. -/
structure World.Fresh (zip : String → Bytes) (w : World) : Prop where
  stored : w.Stored zip
  linked : w.disk.Linked
  calls : w.calls = []

theorem World.Fresh.kept (h : w.Fresh zip) : w.Kept zip where
  stored := h.stored
  linked := h.linked
  calls i c hi := by
    rw [h.calls] at hi
    cases hi

def bundles (zip : String → Bytes) : System World Label where
  Init := World.Fresh zip
  Step w l w' := w.step? zip l = some w'

/-- In a run whose commits and file steps heed each other, the file of every digest that a row
names is on disk in every state. -/
theorem referenced_stored {tr : List (World × Label × World)} (hw : w.Fresh zip)
    (h : (bundles zip).Exec w tr w') (hg : ∀ x ∈ tr, World.heeds zip x.1 x.2.1 = true) :
    w'.Stored zip := by
  have hstep : ∀ s l t, (bundles zip).Reachable s → s.Kept zip → s.heeds zip l = true →
      (bundles zip).Step s l t → t.Kept zip := fun s l t _ hs hheeds ht => hs.step hheeds ht
  exact (h.guarded hstep (.init hw) hw.kept hg).stored

/-! ## Two projects and one bundle -/

def emptyWorld : World := ⟨∅, ⟨[], ∅, ∅⟩, []⟩

theorem fresh_emptyWorld : emptyWorld.Fresh zip where
  stored key row hrow := by cases hrow
  linked := ⟨fun _ _ h => (by cases h), fun _ _ h => (by cases h), fun _ _ h => (by cases h)⟩
  calls := rfl

def notesBundle (hash : String) : PluginBundle :=
  ⟨"notes", none, none, [], false, [], hash.toList.map fun c => c.toNat.toUInt8, hash, .claude⟩

def notesZip (hash : String) : Bytes := (notesBundle hash).zipBytes

def notesKind : PluginKind := .claude ⟨"u", none, none, none, none⟩

/-- Two projects install one bundle and remove it one after the other: the file stays until the
second removal. -/
theorem referenced_stored_shared : ∃ tr w', (bundles notesZip).Exec emptyWorld tr w' ∧
    w'.Stored notesZip ∧ (w'.disk.zips.lookup "h1").isSome ∧
    w'.rows.lookup ("p", "notes") = none := by
  let labels : List Label :=
    [.call (.install "p" (notesBundle "h1") notesKind), .act 0 .ok "1", .act 0 .ok "1",
      .act 0 .ok "1", .act 0 .ok "1", .act 0 .ok "1", .act 0 .ok "1", .act 0 .ok "1",
      .call (.install "q" (notesBundle "h1") notesKind), .act 1 .ok "2", .act 1 .ok "2",
      .act 1 .ok "2", .act 1 .ok "2", .act 1 .ok "2", .act 1 .ok "2", .act 1 .ok "2",
      .call (.remove "p" "notes"), .act 2 .ok "3", .act 2 .ok "3", .act 2 .ok "3", .act 2 .ok "3"]
  have hrun : ((System.steps?
      (System.guarded? (fun w l => World.heeds notesZip w l = true) (World.step? notesZip))
      emptyWorld labels).map fun w =>
        ((w.disk.zips.lookup "h1").isSome, w.rows.lookup ("p", "notes"))) =
      some (true, none) := by
    decide +kernel
  obtain ⟨w', hw', hproj⟩ := Option.map_eq_some_iff.mp hrun
  obtain ⟨tr, htr, -, hg⟩ := System.exec_of_guarded? (M := bundles notesZip)
    (fun _ _ _ _ hstep => hstep) hw'
  obtain ⟨hzip, hrow⟩ := Prod.mk.inj hproj
  exact ⟨tr, w', htr, referenced_stored fresh_emptyWorld htr hg, hzip, hrow⟩

/-- A collection of another project has read the digests before an install commits, and deletes the
file after it. -/
theorem collected_behind : ¬∀ (zip : String → Bytes) (w w' : World)
    (tr : List (World × Label × World)), w.Fresh zip → (bundles zip).Exec w tr w' →
      w'.Stored zip := by
  intro h
  have hrun : ((System.steps? (World.step? notesZip) emptyWorld
      [.call (.install "p" (notesBundle "h1") notesKind), .act 0 .ok "1", .act 0 .ok "1",
        .act 0 .ok "1", .act 0 .ok "1", .call (.remove "q" "other"), .act 1 .ok "2",
        .act 1 .ok "2", .act 1 .ok "2", .act 0 .ok "3", .unlink 1 "h1"]).map fun w =>
      ((w.rows.lookup ("p", "notes")).map fun row => (row.kind.isAuthored, row.digest),
        w.disk.zips.lookup "h1")) = some (some (false, "h1"), none) := by
    decide +kernel
  obtain ⟨w', hw', hproj⟩ := Option.map_eq_some_iff.mp hrun
  obtain ⟨tr, htr, -⟩ := System.exec_of_steps? (M := bundles notesZip) (fun _ _ _ hs => hs) hw'
  obtain ⟨hrow, hzip⟩ := Prod.mk.inj hproj
  obtain ⟨row, hlookup, hparts⟩ := Option.map_eq_some_iff.mp hrow
  obtain ⟨hkind, hdigest⟩ := Prod.mk.inj hparts
  obtain ⟨n, hn, -⟩ := h notesZip _ _ _ fresh_emptyWorld htr ("p", "notes") row hlookup hkind
  rw [hdigest, hzip] at hn
  cases hn

end Horsie.Plugins.Artifact
