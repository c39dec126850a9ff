import Horsie.Lib.Numbered
import Mathlib.Data.List.Pairwise

/-!
# Checkout directories

Each selected repository is checked out into a directory of its own: the one it names, or else the
last part of its URL, with a number behind it where that is taken. Names are told apart as texts and
used as paths. `Separate` says what the paths promise, `Placed` which repositories keep it
(`checkouts_separate_iff`).
-/

namespace Horsie.Runtime.Checkouts

open Horsie.Lib

/-! ## From repositories to steps -/

structure RepoConfig where
  url : String
  gitRef : Option String
  dir : Option String

structure StepParam where
  key : String
  value : String

structure ProvisionStep where
  name : String
  uses : String
  params : List StepParam

/-- A reversed text without every `.git` it begins with. -/
def dropGit : List Char → List Char
  | 't' :: 'i' :: 'g' :: '.' :: rest => dropGit rest
  | rest => rest

/-- The last part of a URL's path, without `.git`. -/
def urlBasename (url : String) : List Char :=
  let withoutScheme := ((splitOnce "://".toList url.toList).map Prod.snd).getD url.toList
  let path := (withoutScheme.reverse.dropWhile (· = '/')).reverse
  (dropGit ((RawPath.components path).getLastD []).reverse).reverse

def derivedDir (url : String) : Except String String :=
  if urlBasename url = [] then .error ("cannot derive a directory name from '" ++ url ++ "'")
  else .ok (String.ofList (urlBasename url))

def RepoConfig.wanted (r : RepoConfig) : Except String String :=
  match (r.dir.map trim).filter fun d => !d.isEmpty with
  | some d => .ok d
  | none => derivedDir (trim r.url)

/-- A path that does not lead out of the workspace. -/
def isInside (base : String) : Bool :=
  !(RawPath.ofString base).absolute && !(RawPath.ofString base).comps.contains ".."

/-- The directory a repository gets unless it is taken. -/
def RepoConfig.base (r : RepoConfig) : Except String String :=
  if (trim r.url).isEmpty then .error "repo url cannot be empty"
  else
    match r.wanted with
    | .error e => .error e
    | .ok base =>
      if isInside base then .ok base
      else .error ("repo dir '" ++ base ++ "' must be a relative path without '..'")

def RepoConfig.step (r : RepoConfig) (dir : String) : ProvisionStep where
  name := "checkout " ++ dir
  uses := "git_checkout"
  params := [⟨"url", trim r.url⟩, ⟨"dir", dir⟩] ++
    (((r.gitRef.map trim).filter fun s => !s.isEmpty).map (StepParam.mk "ref")).toList

/-- The first directory that is free: `dir`, or the base numbered from `n` on. -/
def numberUntilFree (taken : List String) (base : String) : ℕ → ℕ → String → String
  | 0, _, dir => dir
  | fuel + 1, n, dir =>
    if taken.contains dir then numberUntilFree taken base fuel (n + 1) (numbered base n) else dir

/-- More numbers than names that are taken are not needed. -/
def freeDir (taken : List String) (base : String) : String :=
  numberUntilFree taken base (taken.length + 1) 2 base

def provisionFrom (taken : List String) : List RepoConfig → Except String (List ProvisionStep)
  | [] => .ok []
  | r :: repos =>
    match r.base with
    | .error e => .error e
    | .ok base =>
      match provisionFrom (taken ++ [freeDir taken base]) repos with
      | .error e => .error e
      | .ok steps => .ok (r.step (freeDir taken base) :: steps)

def provisionFromRepos (repos : List RepoConfig) : Except String (List ProvisionStep) :=
  provisionFrom [] repos

def ProvisionStep.param (s : ProvisionStep) (key : String) : Option String :=
  (s.params.find? fun p => p.key = key).map StepParam.value

def checkoutDirs (steps : List ProvisionStep) : List String := steps.filterMap (·.param "dir")

/-! ## What is promised -/

/-- The components of a path, without those that lead nowhere. -/
abbrev place (dir : String) : List String := (RawPath.ofString dir).key

/-- What is promised of the directories: they are in the workspace and below its root, and none is
another or inside another. -/
structure Separate (dirs : List String) : Prop where
  inside : ∀ d ∈ dirs, (RawPath.ofString d).absolute = false ∧ ".." ∉ (RawPath.ofString d).comps
  below : ∀ d ∈ dirs, place d ≠ []
  apart : dirs.Pairwise fun d d' => ¬ place d <+: place d' ∧ ¬ place d' <+: place d

/-- The directories the repositories ask for, as they are read from the request. -/
def basesOf (repos : List RepoConfig) : List String := repos.filterMap fun r => r.base.toOption

/-- What has been given out to the repositories with these bases. -/
def given (taken : List String) : List String → List String
  | [] => []
  | base :: bases => freeDir taken base :: given (taken ++ [freeDir taken base]) bases

def FirstFree (taken : List String) (base : String) (n : ℕ) : Prop :=
  2 ≤ n ∧ numbered base n ∉ taken ∧ ∀ k, 2 ≤ k → k < n → numbered base k ∈ taken

/-- The bases lead below the root, different ones neither to one place nor one into the other; and
a base that is taken when its turn comes ends in a name, and no other base leads to or below what it
is numbered as. -/
structure Placed (bases : List String) : Prop where
  below : ∀ b ∈ bases, place b ≠ []
  apart : ∀ b ∈ bases, ∀ c ∈ bases, b ≠ c → ¬ place b <+: place c
  ends : ∀ before b after, bases = before ++ b :: after → b ∈ given [] before →
    RawPath.EndsInName b
  clear : ∀ before b after, bases = before ++ b :: after → b ∈ given [] before →
    ∀ n, FirstFree (given [] before) b n → ∀ c ∈ bases, c ≠ numbered b n →
      ¬ place (numbered b n) <+: place c

/-! ## Numbers -/

variable {taken : List String} {base dir : String} {n fuel : ℕ}

theorem numberUntilFree_cases (taken : List String) (base : String) (fuel n : ℕ) (dir : String) :
    numberUntilFree taken base fuel n dir = dir ∧ (dir ∈ taken → fuel = 0) ∨
      dir ∈ taken ∧ ∃ k, n ≤ k ∧ k < n + fuel ∧
        numberUntilFree taken base fuel n dir = numbered base k ∧
        (∀ j, n ≤ j → j < k → numbered base j ∈ taken) ∧
        (numbered base k ∈ taken → k + 1 = n + fuel) := by
  induction fuel generalizing n dir with
  | zero => exact .inl ⟨rfl, fun _ => rfl⟩
  | succ fuel ih =>
    rw [numberUntilFree]
    by_cases hdir : dir ∈ taken
    · rw [if_pos (List.contains_iff_mem.mpr hdir)]
      refine .inr ⟨hdir, ?_⟩
      rcases ih (n + 1) (numbered base n) with
        ⟨heq, hfree⟩ | ⟨htaken, k, hle, hlt, heq, hall, hlast⟩
      · refine ⟨n, Nat.le_refl n, by omega, heq, fun j hj hlt => by omega, ?_⟩
        intro hmem
        have := hfree hmem
        omega
      · refine ⟨k, by omega, by omega, heq, ?_, fun hmem => by have := hlast hmem; omega⟩
        intro j hj hlt
        rcases Nat.eq_or_lt_of_le hj with rfl | hj
        · exact htaken
        · exact hall j hj hlt
    · rw [if_neg fun h => hdir (List.contains_iff_mem.mp h)]
      exact .inl ⟨rfl, fun h => absurd h hdir⟩

theorem freeDir_cases (taken : List String) (base : String) :
    base ∉ taken ∧ freeDir taken base = base ∨
      base ∈ taken ∧ ∃ n, FirstFree taken base n ∧ freeDir taken base = numbered base n := by
  rcases numberUntilFree_cases taken base (taken.length + 1) 2 base with
    ⟨heq, hfree⟩ | ⟨htaken, k, hle, hlt, heq, hall, hlast⟩
  · refine .inl ⟨fun hmem => ?_, heq⟩
    cases hfree hmem
  · refine .inr ⟨htaken, k, ⟨hle, fun hmem => ?_, hall⟩, heq⟩
    -- the base and all numbers tried would be more names than are taken
    have hk := hlast hmem
    have hnames : (base :: (List.range' 2 (taken.length + 1)).map (numbered base)).Nodup := by
      refine List.nodup_cons.mpr ⟨?_, ?_⟩
      · intro hbase
        obtain ⟨j, -, hj⟩ := List.mem_map.mp hbase
        exact numbered_ne base j hj
      · exact List.Nodup.map (fun i j hij => (numbered_inj hij).2) List.nodup_range'
    have hsub : base :: (List.range' 2 (taken.length + 1)).map (numbered base) ⊆ taken := by
      intro name hname
      rcases List.mem_cons.mp hname with rfl | hname
      · exact htaken
      · obtain ⟨j, hj, rfl⟩ := List.mem_map.mp hname
        obtain ⟨h2, hlt⟩ := List.mem_range'_1.mp hj
        rcases Nat.lt_or_ge j k with hjk | hjk
        · exact hall j h2 hjk
        · obtain rfl : j = k := by omega
          exact hmem
    have hlength := (List.subperm_of_subset hnames hsub).length_le
    rw [List.length_cons, List.length_map, List.length_range'] at hlength
    omega

theorem freeDir_not_mem (taken : List String) (base : String) : freeDir taken base ∉ taken := by
  rcases freeDir_cases taken base with ⟨hfree, heq⟩ | ⟨-, n, hfree, heq⟩
  · rwa [heq]
  · rw [heq]
    exact hfree.2.1

theorem FirstFree.unique {m : ℕ} (h : FirstFree taken base n) (h' : FirstFree taken base m) :
    n = m := by
  rcases Nat.lt_trichotomy n m with hlt | heq | hlt
  · exact absurd (h'.2.2 n h.1 hlt) h.2.1
  · exact heq
  · exact absurd (h.2.2 m h'.1 hlt) h'.2.1

/-! ## What is given out -/

variable {bases before after : List String} {b c d : String}

theorem given_append (taken before after : List String) : given taken (before ++ after) =
    given taken before ++ given (taken ++ given taken before) after := by
  induction before generalizing taken with
  | nil => rw [given, List.nil_append, List.nil_append, List.append_nil]
  | cons b before ih =>
    rw [List.cons_append, given, given, ih, List.cons_append, List.append_assoc]
    rfl

theorem given_nodup (h : taken.Nodup) (bases : List String) :
    (taken ++ given taken bases).Nodup := by
  induction bases generalizing taken with
  | nil => rwa [given, List.append_nil]
  | cons b bases ih =>
    have hnew : (taken ++ [freeDir taken b]).Nodup := by
      rw [List.nodup_append]
      refine ⟨h, List.nodup_singleton _, ?_⟩
      intro name hname name' hname'
      obtain rfl := List.mem_singleton.mp hname'
      rintro rfl
      exact freeDir_not_mem taken b hname
    have hrest := ih hnew
    rwa [List.append_assoc, List.singleton_append] at hrest

theorem base_mem_given (hb : b ∈ bases) : b ∈ taken ++ given taken bases := by
  induction bases generalizing taken with
  | nil => cases hb
  | cons c bases ih =>
    rw [given]
    rcases List.mem_cons.mp hb with rfl | hb
    · rcases freeDir_cases taken b with ⟨-, heq⟩ | ⟨hmem, -⟩
      · rw [heq]
        exact List.mem_append_right _ List.mem_cons_self
      · exact List.mem_append_left _ hmem
    · have hrest : b ∈ (taken ++ [freeDir taken c]) ++ given (taken ++ [freeDir taken c]) bases :=
        ih hb
      rwa [List.append_assoc, List.singleton_append] at hrest

theorem numbered_mem_given (h : bases = before ++ b :: after) (hb : b ∈ given [] before)
    (hfree : FirstFree (given [] before) b n) : numbered b n ∈ given [] bases := by
  subst h
  rw [given_append, List.nil_append, given]
  rcases freeDir_cases (given [] before) b with ⟨hnot, -⟩ | ⟨-, m, hm, heq⟩
  · exact absurd hb hnot
  · obtain rfl := hm.unique hfree
    rw [heq]
    exact List.mem_append_right _ List.mem_cons_self

theorem mem_given (hd : d ∈ given taken bases) : d ∈ bases ∨ ∃ before b after n,
    bases = before ++ b :: after ∧ b ∈ taken ++ given taken before ∧
      FirstFree (taken ++ given taken before) b n ∧ d = numbered b n := by
  induction bases generalizing taken with
  | nil => cases hd
  | cons c bases ih =>
    rw [given] at hd
    rcases List.mem_cons.mp hd with rfl | hd
    · rcases freeDir_cases taken c with ⟨-, heq⟩ | ⟨hmem, n, hfree, heq⟩
      · rw [heq]
        exact .inl List.mem_cons_self
      · refine .inr ⟨[], c, bases, n, rfl, ?_, ?_, heq⟩
        · rwa [given, List.append_nil]
        · rwa [given, List.append_nil]
    · rcases ih hd with hbase | ⟨before, b, after, n, rfl, hb, hfree, rfl⟩
      · exact .inl (List.mem_cons_of_mem _ hbase)
      · rw [List.append_assoc, List.singleton_append] at hb hfree
        exact .inr ⟨c :: before, b, after, n, rfl, hb, hfree, rfl⟩

/-! ## Paths that keep apart -/

/-- Different names that are given out lead to different places, none inside another. -/
def Unrelated (dirs : List String) : Prop :=
  ∀ d ∈ dirs, ∀ d' ∈ dirs, d ≠ d' → ¬ place d <+: place d'

theorem pairwise_iff_unrelated {dirs : List String} (h : dirs.Nodup) :
    (dirs.Pairwise fun d d' => ¬ place d <+: place d' ∧ ¬ place d' <+: place d) ↔
      Unrelated dirs := by
  constructor
  · intro hpairwise d hd d' hd' hne
    have hsymm : Std.Symm fun x y : String => ¬ place x <+: place y ∧ ¬ place y <+: place x :=
      ⟨fun _ _ h => ⟨h.2, h.1⟩⟩
    exact (hpairwise.forall hd hd' hne).1
  · intro hunrelated
    refine List.Pairwise.imp_of_mem ?_ h
    intro d d' hd hd' hne
    exact ⟨hunrelated d hd d' hd' hne, hunrelated d' hd' d hd (Ne.symm hne)⟩

/-- Two numbers of names: where one leads to or below the other's place, it is the other, or its
name does. -/
theorem numbered_related {m : ℕ} (hb : RawPath.EndsInName b) (hc : RawPath.EndsInName c)
    (h : place (numbered b n) <+: place (numbered c m)) :
    place b = place c ∧ n = m ∨ place (numbered b n) <+: place c ∧ c ≠ numbered b n := by
  obtain ⟨init, last, hbn, hkeyb, -⟩ := RawPath.key_numbered b n
  obtain ⟨init', last', hcm, hkeyc, -⟩ := RawPath.key_numbered c m
  have hkeyb := hkeyb hb
  have hkeyc := hkeyc hc
  rw [place, place, hcm, List.prefix_concat_iff] at h
  rcases h with h | h
  · rw [hbn] at h
    obtain ⟨hinit, hlast⟩ := List.append_inj' h rfl
    have hlast := String.ofList_inj.mp (List.singleton_inj.mp hlast)
    obtain ⟨rfl, rfl⟩ := append_suffix_inj hlast
    exact .inl ⟨by rw [place, place, hkeyb, hkeyc, hinit], rfl⟩
  · refine .inr ⟨?_, ?_⟩
    · rw [place, place, hkeyc]
      exact h.trans (List.prefix_append _ _)
    · rintro rfl
      have hlength := h.length_le
      rw [hkeyc, List.length_append, List.length_singleton] at hlength
      exact Nat.not_succ_le_self _ hlength

/-- A name that leads above or to a number of another leads above the other, or to the number. -/
theorem base_related (hc : RawPath.EndsInName c) (h : place b <+: place (numbered c n)) :
    place b = place (numbered c n) ∨ place b <+: place c ∧ b ≠ c := by
  obtain ⟨init, last, hcn, hkeyc, -⟩ := RawPath.key_numbered c n
  have hkeyc := hkeyc hc
  rw [place, place, hcn, List.prefix_concat_iff] at h
  rcases h with h | h
  · rw [place, place, h, hcn]
    exact .inl rfl
  · refine .inr ⟨?_, ?_⟩
    · rw [place, place, hkeyc]
      exact h.trans (List.prefix_append _ _)
    · rintro rfl
      have hlength := h.length_le
      rw [hkeyc, List.length_append, List.length_singleton] at hlength
      exact Nat.not_succ_le_self _ hlength

theorem Placed.unrelated (h : Placed bases) : Unrelated (given [] bases) := by
  intro d hd d' hd' hne hprefix
  rcases mem_given hd with hd | ⟨before, b, after, n, hsplit, hb, hfree, rfl⟩
  · rcases mem_given hd' with hd' | ⟨before, c, after, n, hsplit, hc, hfree, rfl⟩
    · exact h.apart d hd d' hd' hne hprefix
    · rw [List.nil_append] at hc hfree
      have hmem : c ∈ bases := by
        rw [hsplit]
        exact List.mem_append_right _ List.mem_cons_self
      rcases base_related (h.ends _ _ _ hsplit hc) hprefix with heq | ⟨hrelated, hdc⟩
      · exact h.clear _ _ _ hsplit hc n hfree d hd hne (heq ▸ List.prefix_refl _)
      · exact h.apart d hd c hmem hdc hrelated
  · rw [List.nil_append] at hb hfree
    rcases mem_given hd' with hd' | ⟨before', c, after', m, hsplit', hc, hfree', rfl⟩
    · exact h.clear _ _ _ hsplit hb n hfree d' hd' (Ne.symm hne) hprefix
    · rw [List.nil_append] at hc hfree'
      have hmemb : b ∈ bases := by
        rw [hsplit]
        exact List.mem_append_right _ List.mem_cons_self
      have hmemc : c ∈ bases := by
        rw [hsplit']
        exact List.mem_append_right _ List.mem_cons_self
      rcases numbered_related (h.ends _ _ _ hsplit hb) (h.ends _ _ _ hsplit' hc) hprefix with
        ⟨hplace, rfl⟩ | ⟨hrelated, hcb⟩
      · refine h.apart b hmemb c hmemc ?_ (hplace ▸ List.prefix_refl _)
        rintro rfl
        exact hne rfl
      · exact h.clear _ _ _ hsplit hb n hfree c hmemc hcb hrelated

/-! ## Checkouts -/

variable {repos : List RepoConfig} {steps : List ProvisionStep}

theorem isInside_iff : isInside b = true ↔
    (RawPath.ofString b).absolute = false ∧ ".." ∉ (RawPath.ofString b).comps := by
  unfold isInside
  rw [Bool.and_eq_true, Bool.not_eq_true', Bool.not_eq_true', ← Bool.not_eq_true,
    ← Bool.not_eq_true (List.contains _ _), List.contains_iff_mem]

theorem isInside_base {r : RepoConfig} (h : r.base = .ok b) : isInside b = true := by
  unfold RepoConfig.base at h
  split_ifs at h
  split at h
  · cases h
  · split_ifs at h with hinside
    cases h
    exact hinside

theorem param_step (r : RepoConfig) (dir : String) : (r.step dir).param "dir" = some dir := rfl

theorem checkoutDirs_provisionFrom (h : provisionFrom taken repos = .ok steps) :
    checkoutDirs steps = given taken (basesOf repos) ∧ ∀ b ∈ basesOf repos, isInside b = true := by
  induction repos generalizing taken steps with
  | nil =>
    cases h
    exact ⟨rfl, fun b hb => absurd hb List.not_mem_nil⟩
  | cons r repos ih =>
    rw [provisionFrom] at h
    cases hbase : r.base with
    | error e =>
      rw [hbase] at h
      cases h
    | ok base =>
      rw [hbase] at h
      dsimp only at h
      cases hrest : provisionFrom (taken ++ [freeDir taken base]) repos with
      | error e =>
        rw [hrest] at h
        cases h
      | ok rest =>
        rw [hrest] at h
        cases h
        obtain ⟨hdirs, hinside⟩ := ih hrest
        have hbases : basesOf (r :: repos) = base :: basesOf repos :=
          List.filterMap_cons_some (by rw [hbase]; rfl)
        refine ⟨?_, ?_⟩
        · rw [hbases, given, ← hdirs]
          exact List.filterMap_cons_some (param_step r _)
        · rw [hbases]
          intro b hb
          rcases List.mem_cons.mp hb with rfl | hb
          · exact isInside_base hbase
          · exact hinside b hb

theorem Placed.separate (hinside : ∀ b ∈ bases, isInside b = true) (h : Placed bases) :
    Separate (given [] bases) := by
  refine ⟨?_, ?_, (pairwise_iff_unrelated (given_nodup List.nodup_nil bases)).mpr h.unrelated⟩
  · intro d hd
    rcases mem_given hd with hd | ⟨before, b, after, n, rfl, -, -, rfl⟩
    · exact isInside_iff.mp (hinside d hd)
    · obtain ⟨habsolute, hdotdot⟩ := isInside_iff.mp
        (hinside b (List.mem_append_right _ List.mem_cons_self))
      exact ⟨RawPath.absolute_numbered b n habsolute, RawPath.dotdot_numbered b n hdotdot⟩
  · intro d hd
    rcases mem_given hd with hd | ⟨before, b, after, n, -, -, -, rfl⟩
    · exact h.below d hd
    · obtain ⟨init, last, hkey, -, -⟩ := RawPath.key_numbered b n
      rw [place, hkey]
      exact List.append_ne_nil_of_right_ne_nil _ (List.cons_ne_nil _ _)

theorem Separate.placed (h : Separate (given [] bases)) : Placed bases := by
  have hunrelated := (pairwise_iff_unrelated (given_nodup List.nodup_nil bases)).mp h.apart
  have hgiven : ∀ b ∈ bases, b ∈ given [] bases := by
    intro b hb
    have hmem : b ∈ [] ++ given [] bases := base_mem_given hb
    rwa [List.nil_append] at hmem
  constructor
  · intro b hb
    exact h.below b (hgiven b hb)
  · intro b hb c hc hne
    exact hunrelated b (hgiven b hb) c (hgiven c hc) hne
  · intro before b after hsplit hb
    by_contra hends
    rcases freeDir_cases (given [] before) b with ⟨hnot, -⟩ | ⟨-, n, hfree, -⟩
    · exact hnot hb
    · obtain ⟨init, last, hbn, -, hkey⟩ := RawPath.key_numbered b n
      refine hunrelated b (hgiven b ?_) (numbered b n) (numbered_mem_given hsplit hb hfree)
        (numbered_ne b n).symm ?_
      · rw [hsplit]
        exact List.mem_append_right _ List.mem_cons_self
      · rw [place, place, hbn, hkey hends]
        exact List.prefix_append _ _
  · intro before b after hsplit hb n hfree c hc hne
    exact hunrelated _ (numbered_mem_given hsplit hb hfree) c (hgiven c hc) (Ne.symm hne)

/-- The directories of an accepted request keep apart exactly if its repositories are placed so. -/
theorem checkouts_separate_iff (h : provisionFromRepos repos = .ok steps) :
    Separate (checkoutDirs steps) ↔ Placed (basesOf repos) := by
  obtain ⟨hdirs, hinside⟩ := checkoutDirs_provisionFrom h
  rw [hdirs]
  exact ⟨Separate.placed, Placed.separate hinside⟩

def repoAt (dir : String) : RepoConfig := ⟨"https://host/o/api", none, some dir⟩

theorem checkouts_separate_pair : ∃ steps,
    provisionFromRepos [repoAt "api", repoAt "web"] = .ok steps ∧
      (Separate (checkoutDirs steps) ↔ Placed (basesOf [repoAt "api", repoAt "web"])) :=
  ⟨_, rfl, checkouts_separate_iff rfl⟩

/-- One directory under two names. -/
theorem checkouts_collide : ¬ ∀ repos steps, provisionFromRepos repos = .ok steps →
    Separate (checkoutDirs steps) := by
  intro h
  have hapart := (h [repoAt "api", repoAt "./api"] _ rfl).apart
  exact absurd hapart (by decide +kernel)

end Horsie.Runtime.Checkouts
