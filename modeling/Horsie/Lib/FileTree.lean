import Mathlib.Data.List.Basic
import Mathlib.Data.List.TakeDrop

/-!
# File trees

Files and directories without links, paths as the operating system reads them, and the operations
on single files. A place is the list of names that leads to it, the innermost first. A path is
walked from the root through directories; `..` leads to the directory above.
-/

namespace Horsie.Lib

universe u

/-- A place in the tree: its name, its directory's name, and so on up to the root. -/
abbrev Place := List String

inductive Node (C : Type u)
  | file (content : C)
  | dir
deriving DecidableEq

structure FileTree (C : Type u) where
  node : Place → Option (Node C)
  places : List Place
  root : node [] = some .dir
  parent : ∀ name place, node (name :: place) ≠ none → node place = some .dir
  support : ∀ place, node place ≠ none → place ∈ places

inductive OsError
  | notFound
  | alreadyExists
  | notADirectory
  | isADirectory
  | invalidInput
  | directoryNotEmpty
deriving DecidableEq

def OsError.message : OsError → String
  | notFound => "No such file or directory (os error 2)"
  | alreadyExists => "File exists (os error 17)"
  | notADirectory => "Not a directory (os error 20)"
  | isADirectory => "Is a directory (os error 21)"
  | invalidInput => "Invalid argument (os error 22)"
  | directoryNotEmpty => "Directory not empty (os error 39)"

inductive Component
  | up
  | name (name : String)
deriving DecidableEq

/-- A path from the root. `dirOnly` is a path written as a directory, such as `a/`. -/
structure Path where
  components : List Component
  dirOnly : Bool
deriving DecidableEq

namespace FileTree

variable {C : Type u}

def empty : FileTree C where
  node place := if place = [] then some .dir else none
  places := [[]]
  root := rfl
  parent name place h := absurd (if_neg (List.cons_ne_nil name place)) h
  support place h := by
    by_cases hp : place = []
    · rw [hp]
      exact List.mem_singleton_self _
    · exact absurd (if_neg hp) h

variable (t : FileTree C)

/-- Where a path leads: every directory on the way has to be one. -/
def walk (place : Place) : List Component → Except OsError Place
  | [] => .ok place
  | c :: cs =>
    match t.node place with
    | none => .error .notFound
    | some (.file _) => .error .notADirectory
    | some .dir =>
      match c with
      | .up => walk place.tail cs
      | .name n => walk (n :: place) cs

def lookup (p : Path) : Except OsError (Node C) :=
  match t.walk [] p.components with
  | .error e => .error e
  | .ok place =>
    match t.node place with
    | none => .error .notFound
    | some (.file content) => if p.dirOnly then .error .notADirectory else .ok (.file content)
    | some .dir => .ok .dir

def isDirAt (place : Place) : Bool :=
  match t.node place with
  | some .dir => true
  | _ => false

variable {place : Place}

theorem isDirAt_iff : t.isDirAt place = true ↔ t.node place = some .dir := by
  unfold isDirAt
  split <;> simp_all

/-- The tree with a file, a new directory or nothing at a place that is no directory, in one that
is. -/
def put (name : String) (place : Place) (node : Option (Node C)) (hdir : t.isDirAt place = true)
    (hleaf : t.isDirAt (name :: place) = false) : FileTree C where
  node q := if q = name :: place then node else t.node q
  places := (name :: place) :: t.places
  root := by rw [if_neg (List.cons_ne_nil name place).symm]; exact t.root
  parent n q h := by
    have hq : q ≠ name :: place ∨ n :: q ≠ name :: place ∧ t.node (n :: q) = none := by
      by_cases hq : q = name :: place
      · right
        have hne : n :: q ≠ name :: place := fun heq =>
          absurd (congrArg List.length (heq.trans hq.symm)) (Nat.succ_ne_self _)
        refine ⟨hne, ?_⟩
        by_contra hsome
        have hd := t.parent n q hsome
        rw [hq, ← isDirAt_iff, hleaf] at hd
        cases hd
      · exact .inl hq
    rcases hq with hq | ⟨hne, hnone⟩
    · rw [if_neg hq]
      by_cases hnq : n :: q = name :: place
      · rw [(List.cons.inj hnq).2]
        exact (t.isDirAt_iff).mp hdir
      · rw [if_neg hnq] at h
        exact t.parent n q h
    · rw [if_neg hne] at h
      exact absurd hnone h
  support q h := by
    by_cases hq : q = name :: place
    · rw [hq]
      exact List.mem_cons_self
    · rw [if_neg hq] at h
      exact List.mem_cons_of_mem _ (t.support q h)

/-- `put`, or the error of a place that is a directory or in none. -/
def assign (node : Option (Node C)) : Place → Except OsError (FileTree C)
  | [] => .error .isADirectory
  | name :: place =>
    if hleaf : t.isDirAt (name :: place) = true then .error .isADirectory
    else if hdir : t.isDirAt place = true then
      .ok (t.put name place node hdir (Bool.eq_false_iff.mpr hleaf))
    else if (t.node place).isNone then .error .notFound
    else .error .notADirectory

/-- Whether a directory has nothing in it. -/
def isEmptyDir (place : Place) : Bool :=
  t.places.all fun q => decide (q.tail ≠ place) || decide (q = []) || (t.node q).isNone

/-- What is at or below `src` is at or below `dst`, and nothing is left at `src`. -/
def moveTree (src : Place) (name : String) (place : Place) (hplace : t.isDirAt place = true)
    (hout : ¬ src <:+ name :: place) : FileTree C where
  node q :=
    if (name :: place) <:+ q then t.node (q.take (q.length - (place.length + 1)) ++ src)
    else if src <:+ q then none
    else t.node q
  places := t.places ++ t.places.map fun q => q.take (q.length - src.length) ++ name :: place
  root := by
    rw [if_neg fun h => List.cons_ne_nil _ _ (List.suffix_nil.mp h),
      if_neg fun h => hout (by rw [List.suffix_nil.mp h]; exact List.nil_suffix)]
    exact t.root
  parent n q h := by
    by_cases hq : (name :: place) <:+ n :: q
    · rw [if_pos hq] at h
      rcases List.suffix_cons_iff.mp hq with heq | hq
      · cases heq
        have hlong : ¬ (name :: place) <:+ place := fun hs =>
          absurd hs.length_le (Nat.not_succ_le_self _)
        rw [if_neg hlong, if_neg fun hs => hout (hs.trans (List.suffix_cons _ _))]
        exact (t.isDirAt_iff).mp hplace
      · rw [if_pos hq]
        have hlen := hq.length_le
        rw [List.length_cons] at hlen
        rw [List.length_cons, Nat.succ_sub hlen, List.take_succ_cons, List.cons_append] at h
        exact t.parent _ _ h
    · have hq' : ¬ (name :: place) <:+ q := fun hs => hq (hs.trans (List.suffix_cons _ _))
      rw [if_neg hq] at h
      by_cases hs : src <:+ n :: q
      · rw [if_pos hs] at h
        exact absurd rfl h
      · rw [if_neg hs] at h
        rw [if_neg hq', if_neg fun hs' => hs (hs'.trans (List.suffix_cons _ _))]
        exact t.parent _ _ h
  support q h := by
    rw [List.mem_append, List.mem_map]
    by_cases hq : (name :: place) <:+ q
    · rw [if_pos hq] at h
      refine .inr ⟨_, t.support _ h, ?_⟩
      obtain ⟨pre, rfl⟩ := hq
      simp
    · rw [if_neg hq] at h
      by_cases hs : src <:+ q
      · rw [if_pos hs] at h
        exact absurd rfl h
      · rw [if_neg hs] at h
        exact .inl (t.support _ h)

/-! ## Operations -/

def write (p : Path) (content : C) : Except OsError (FileTree C) :=
  match t.walk [] p.components with
  | .error e => .error e
  | .ok place =>
    if p.dirOnly then
      match t.node place with
      | some (.file _) => .error .notADirectory
      | _ => .error .isADirectory
    else t.assign (some (.file content)) place

def removeFile (p : Path) : Except OsError (FileTree C) :=
  match t.walk [] p.components with
  | .error e => .error e
  | .ok place =>
    match t.node place with
    | none => .error .notFound
    | some .dir => .error .isADirectory
    | some (.file _) => if p.dirOnly then .error .notADirectory else t.assign none place

/-- Move a file or a directory. A file takes the place of a file, a directory that of an empty
one. -/
def rename (src dst : Path) : Except OsError (FileTree C) :=
  match t.walk [] src.components, t.walk [] dst.components with
  | .error e, _ => .error e
  | _, .error e => .error e
  | .ok s, .ok d =>
    match t.node s with
    | none => .error .notFound
    | some (.file content) =>
      if src.dirOnly || dst.dirOnly then .error .notADirectory
      else if s = d then .ok t
      else
        match t.assign (some (.file content)) d with
        | .error e => .error e
        | .ok t' => t'.assign none s
    | some .dir =>
      if s = d then .ok t
      else
        match d with
        | [] => .error .directoryNotEmpty
        | name :: place =>
          if hout : s <:+ name :: place then .error .invalidInput
          else if hplace : t.isDirAt place = true then
            match t.node (name :: place) with
            | none => .ok (t.moveTree s name place hplace hout)
            | some (.file _) => .error .notADirectory
            | some .dir =>
              if t.isEmptyDir (name :: place) then .ok (t.moveTree s name place hplace hout)
              else .error .directoryNotEmpty
          else if (t.node place).isNone then .error .notFound
          else .error .notADirectory

/-- Make the directories of a path that are missing, from `place` on. -/
def makeDirs (t : FileTree C) (place : Place) : List Component → FileTree C × Except OsError Place
  | [] => (t, .ok place)
  | .up :: cs => makeDirs t place.tail cs
  | .name n :: cs =>
    match hnode : t.node (n :: place) with
    | some .dir => makeDirs t (n :: place) cs
    | some (.file _) => (t, .error (if cs.isEmpty then .alreadyExists else .notADirectory))
    | none =>
      if hdir : t.isDirAt place = true then
        makeDirs (t.put n place (some .dir) hdir (by rw [isDirAt, hnode])) (n :: place) cs
      else (t, .error .notFound)

/-! ## What the operations need -/

variable {t}

/-- Everything in `t` is in `t'` as it is. -/
def Extends (t t' : FileTree C) : Prop :=
  ∀ place node, t.node place = some node → t'.node place = some node

theorem Extends.refl (t : FileTree C) : t.Extends t := fun _ _ h => h

variable {t' : FileTree C}

theorem Extends.trans {t t'' : FileTree C} (h : t.Extends t') (h' : t'.Extends t'') :
    t.Extends t'' := fun place node hn => h' place node (h place node hn)

variable {cs : List Component} {q : Place}

theorem walk_of_dirs {t : FileTree C}
    (h : ∀ place, t.node place = some .dir → t'.node place = some .dir)
    (hw : t.walk place cs = .ok q) : t'.walk place cs = .ok q := by
  induction cs generalizing place with
  | nil => exact hw
  | cons c cs ih =>
    unfold FileTree.walk at hw ⊢
    cases hn : t.node place with
    | none => simp [hn] at hw
    | some node =>
      rw [hn] at hw
      cases node with
      | file => cases hw
      | dir =>
        rw [h place hn]
        cases c with
        | up => exact ih hw
        | name n => exact ih hw

theorem Extends.walk {t : FileTree C} (h : t.Extends t')
    (hw : t.walk place cs = .ok q) : t'.walk place cs = .ok q :=
  walk_of_dirs (fun place hn => h place .dir hn) hw

theorem walk_append {cs' : List Component} (h : t.walk place cs = .ok q) :
    t.walk place (cs ++ cs') = t.walk q cs' := by
  induction cs generalizing place with
  | nil =>
    obtain rfl : place = q := by simpa [walk] using h
    rfl
  | cons c cs ih =>
    rw [List.cons_append]
    unfold walk at h
    cases hn : t.node place with
    | none => simp [hn] at h
    | some node =>
      rw [hn] at h
      cases node with
      | file => cases h
      | dir =>
        cases c with
        | up =>
          rw [← ih h]
          simp only [walk, hn]
        | name n =>
          rw [← ih h]
          simp only [walk, hn]

variable {content : C} {p : Path}

/-- A file found at a path: where it is, and that the path is not written as a directory. -/
theorem lookup_eq_file (h : t.lookup p = .ok (.file content)) :
    ∃ place, t.walk [] p.components = .ok place ∧ t.node place = some (.file content) ∧
      p.dirOnly = false := by
  unfold lookup at h
  cases hw : t.walk [] p.components with
  | error e => simp [hw] at h
  | ok place =>
    rw [hw] at h
    cases hn : t.node place with
    | none => simp [hn] at h
    | some node =>
      cases node with
      | dir => simp [hn] at h
      | file c =>
        simp only [hn] at h
        split_ifs at h with hdir
        obtain rfl : c = content := by simpa using h
        exact ⟨place, rfl, hn, Bool.eq_false_iff.mpr hdir⟩

theorem assign_of_file (h : t.node place = some (.file content))
    (node : Option (Node C)) : ∃ t', t.assign node place = .ok t' := by
  cases place with
  | nil =>
    rw [t.root] at h
    cases h
  | cons name place =>
    have hleaf : ¬ t.isDirAt (name :: place) = true := by
      rw [isDirAt_iff, h]
      simp
    have hdir : t.isDirAt place = true :=
      (t.isDirAt_iff).mpr (t.parent name place (by rw [h]; exact Option.some_ne_none _))
    exact ⟨_, by rw [assign, dif_neg hleaf, dif_pos hdir]⟩

theorem write_of_file (h : t.lookup p = .ok (.file content)) (new : C) :
    ∃ t', t.write p new = .ok t' := by
  obtain ⟨place, hw, hn, hdir⟩ := lookup_eq_file h
  obtain ⟨t', ht'⟩ := assign_of_file hn (some (.file new))
  refine ⟨t', ?_⟩
  unfold write
  simp only [hw, hdir, Bool.false_eq_true, if_false, ht']

theorem lookup_of_write {new : C}
    (h : t.lookup p = .ok (.file content)) (hw : t.write p new = .ok t') :
    t'.lookup p = .ok (.file new) := by
  obtain ⟨place, hwalk, hn, hdir⟩ := lookup_eq_file h
  unfold write at hw
  simp only [hwalk, hdir, Bool.false_eq_true, if_false] at hw
  cases place with
  | nil => cases hw
  | cons name place =>
    rw [assign] at hw
    split_ifs at hw
    cases hw
    have hdirs : ∀ q, t.node q = some .dir → (if q = name :: place then some (.file new)
        else t.node q) = some (.dir : Node C) := by
      intro q hq
      have hne : q ≠ name :: place := by
        rintro rfl
        rw [hn] at hq
        cases hq
      rw [if_neg hne, hq]
    unfold lookup
    rw [walk_of_dirs hdirs hwalk]
    simp [put, hdir]

theorem removeFile_of_file (h : t.lookup p = .ok (.file content)) :
    ∃ t', t.removeFile p = .ok t' := by
  obtain ⟨place, hw, hn, hdir⟩ := lookup_eq_file h
  obtain ⟨t', ht'⟩ := assign_of_file hn none
  refine ⟨t', ?_⟩
  unfold removeFile
  simp only [hw, hn, hdir, Bool.false_eq_true, if_false, ht']

theorem isDirAt_tail (h : t.isDirAt place = true) :
    t.isDirAt place.tail = true := by
  cases place with
  | nil => exact h
  | cons name place =>
    rw [isDirAt_iff] at h ⊢
    exact t.parent name place (by rw [h]; exact Option.some_ne_none _)

/-- Directories that could be made: the path leads through them, and all else is as it was. -/
theorem makeDirs_ok {t : FileTree C}
    (hp : t.isDirAt place = true) (h : t.makeDirs place cs = (t', .ok q)) :
    t.Extends t' ∧ t'.walk place cs = .ok q ∧ t'.isDirAt q = true := by
  induction cs generalizing t place with
  | nil =>
    obtain ⟨rfl, rfl⟩ : t = t' ∧ place = q := by simpa [makeDirs] using h
    exact ⟨.refl t, rfl, hp⟩
  | cons c cs ih =>
    have hstep : ∀ {next : Place}, t.Extends t' → t'.walk next cs = .ok q →
        (match c with | .up => place.tail | .name n => n :: place) = next →
          t'.walk place (c :: cs) = .ok q := by
      intro next hext hw hnext
      unfold walk
      rw [hext place .dir ((t.isDirAt_iff).mp hp)]
      subst hnext
      cases c <;> exact hw
    cases c with
    | up =>
      obtain ⟨hext, hw, hq⟩ := ih (isDirAt_tail hp) h
      exact ⟨hext, hstep hext hw rfl, hq⟩
    | name n =>
      unfold makeDirs at h
      split at h
      · rename_i hn
        obtain ⟨hext, hw, hq⟩ := ih ((t.isDirAt_iff).mpr hn) h
        exact ⟨hext, hstep hext hw rfl, hq⟩
      · simp at h
      · rename_i hn
        rw [dif_pos hp] at h
        have hext₁ : t.Extends (t.put n place (some .dir) hp (by rw [isDirAt, hn])) := by
          intro x node hx
          show (if x = n :: place then some .dir else t.node x) = some node
          have hne : x ≠ n :: place := fun heq => by
            rw [heq, hn] at hx
            cases hx
          rw [if_neg hne, hx]
        have hnew : (t.put n place (some .dir) hp (by rw [isDirAt, hn])).isDirAt (n :: place) =
            true := by
          rw [isDirAt_iff]
          exact if_pos rfl
        obtain ⟨hext, hw, hq⟩ := ih hnew h
        exact ⟨hext₁.trans hext, hstep (hext₁.trans hext) hw rfl, hq⟩

/-- Whether a file can be put at a path: it names a file, no file stands where it needs a directory,
and no directory stands where the file goes once they are made. -/
def canPlace (t : FileTree C) (p : Path) : Bool :=
  match p.components.getLast? with
  | some (.name n) =>
    !p.dirOnly && match t.makeDirs [] p.components.dropLast with
      | (t', .ok q) => !t'.isDirAt (n :: q)
      | (_, .error _) => false
  | _ => false

theorem canPlace_iff : t.canPlace p = true ↔
    ∃ n t' q, p.components = p.components.dropLast ++ [.name n] ∧ p.dirOnly = false ∧
      t.makeDirs [] p.components.dropLast = (t', .ok q) ∧ t'.isDirAt (n :: q) = false := by
  unfold canPlace
  constructor
  · intro h
    split at h
    · rename_i n hlast
      obtain ⟨hdir, h⟩ := Bool.and_eq_true_iff.mp h
      split at h
      · rename_i t' q hmake
        exact ⟨n, t', q, (List.dropLast_append_getLast? _ hlast).symm, by simpa using hdir, hmake,
          by simpa using h⟩
      · cases h
    · cases h
  · rintro ⟨n, t', q, hcs, hdir, hmake, hleaf⟩
    have hlast : p.components.getLast? = some (.name n) := by
      rw [hcs, List.getLast?_concat]
    simp only [hlast, hdir, hmake, hleaf]
    rfl

theorem assign_of_leaf {name : String} (hdir : t.isDirAt place = true)
    (hleaf : t.isDirAt (name :: place) = false) (node : Option (Node C)) :
    t.assign node (name :: place) = .ok (t.put name place node hdir hleaf) := by
  rw [assign, dif_neg (by rw [hleaf]; exact Bool.false_ne_true), dif_pos hdir]

/-- The path of a file that can be put there leads, once its directories are made, to a place in a
directory. -/
theorem walk_of_canPlace (h : t.canPlace p = true) :
    ∃ n t' q, p.dirOnly = false ∧ t.makeDirs [] p.components.dropLast = (t', .ok q) ∧
      t.Extends t' ∧ t'.isDirAt q = true ∧ t'.isDirAt (n :: q) = false ∧
      t'.walk [] p.components = .ok (n :: q) := by
  obtain ⟨n, t', q, hcs, hdir, hmake, hleaf⟩ := canPlace_iff.mp h
  obtain ⟨hext, hw, hq⟩ := makeDirs_ok ((t.isDirAt_iff).mpr t.root) hmake
  refine ⟨n, t', q, hdir, hmake, hext, hq, hleaf, ?_⟩
  rw [hcs, walk_append hw, walk, (t'.isDirAt_iff).mp hq]
  rfl

theorem write_of_canPlace (h : t.canPlace p = true) (content : C) :
    ∃ t₁ q t₂, t.makeDirs [] p.components.dropLast = (t₁, .ok q) ∧
      t₁.write p content = .ok t₂ := by
  obtain ⟨n, t₁, q, hdir, hmake, -, hq, hleaf, hw⟩ := walk_of_canPlace h
  refine ⟨t₁, q, t₁.put n q (some (.file content)) hq hleaf, hmake, ?_⟩
  unfold write
  simp only [hw, hdir, Bool.false_eq_true, if_false, assign_of_leaf hq hleaf]

theorem rename_of_canPlace {src dst : Path}
    (hsrc : t.lookup src = .ok (.file content)) (h : t.canPlace dst = true) :
    ∃ t₁ q t₂, t.makeDirs [] dst.components.dropLast = (t₁, .ok q) ∧
      t₁.rename src dst = .ok t₂ := by
  obtain ⟨s, hws, hns, hdirs⟩ := lookup_eq_file hsrc
  obtain ⟨n, t₁, q, hdir, hmake, hext, hq, hleaf, hw⟩ := walk_of_canPlace h
  by_cases hsame : s = n :: q
  · refine ⟨t₁, q, t₁, hmake, ?_⟩
    unfold rename
    simp only [hext.walk hws, hw, hext s _ hns, hdirs, hdir, Bool.or_self, Bool.false_eq_true,
      if_false, if_pos hsame]
  · have hns' : (t₁.put n q (some (.file content)) hq hleaf).node s = some (.file content) := by
      show (if s = n :: q then _ else t₁.node s) = _
      rw [if_neg hsame, hext s _ hns]
    obtain ⟨t₂, ht₂⟩ := assign_of_file hns' none
    refine ⟨t₁, q, t₂, hmake, ?_⟩
    unfold rename
    simp only [hext.walk hws, hw, hext s _ hns, hdirs, hdir, Bool.or_self, Bool.false_eq_true,
      if_false, if_neg hsame, assign_of_leaf hq hleaf, ht₂]

end FileTree

end Horsie.Lib
