import Mathlib.Data.List.Sort

/-!
# File trees with links

Files, directories and symbolic links, and where a path leads: through directories and links,
`..` to the directory above, a link to where its target leads from its own directory or from the
root. A path is followed in a tree and in a part of it alike, as long as it does not leave the part.
-/

namespace Horsie.Lib

universe u

/-- A path as it is written, between its slashes. -/
structure RawPath where
  absolute : Bool
  comps : List String
  deriving DecidableEq

namespace RawPath

/-- What stands between the slashes of a path. -/
def components : List Char → List (List Char)
  | [] => [[]]
  | c :: cs =>
    if c = '/' then [] :: components cs
    else
      match components cs with
      | [] => [[c]]
      | comp :: comps => (c :: comp) :: comps

def ofString (s : String) : RawPath where
  absolute := s.toList.head? = some '/'
  comps := (components s.toList).map String.ofList

/-- A path behind another, which it replaces if it is absolute. -/
def join (p rest : RawPath) : RawPath :=
  if rest.absolute then rest else ⟨p.absolute, p.comps ++ rest.comps⟩

def child (p : RawPath) (names : List String) : RawPath := ⟨p.absolute, p.comps ++ names⟩

def display (p : RawPath) : String :=
  (if p.absolute then "/" else "") ++ "/".intercalate (p.comps.filter (· ≠ ""))

def compsLe : List String → List String → Bool
  | [], _ => true
  | _ :: _, [] => false
  | a :: as, b :: bs =>
    if a = b then compsLe as bs else a = ".." ∨ (b ≠ ".." ∧ a < b)

def key (p : RawPath) : List String := p.comps.filter fun c => c ≠ "" ∧ c ≠ "."

def sort (ps : List RawPath) : List RawPath :=
  ps.insertionSort fun p q => compsLe p.key q.key = true

def fileName (p : RawPath) : Option String :=
  p.key.getLast?.filter (· ≠ "..")

end RawPath

inductive LinkTree (C : Type u) where
  | file (content : C)
  | link (target : RawPath)
  | dir (entries : List (String × LinkTree C))

namespace LinkTree

variable {C : Type u}

/-- What is at a place, from the root and through directories only. -/
def sub : LinkTree C → List String → Option (LinkTree C)
  | t, [] => some t
  | dir entries, name :: place => (entries.lookup name).bind (·.sub place)
  | _, _ :: _ => none

/-- Where a path leads from a place, with another reading for what is behind a link. -/
def walk (root : LinkTree C) (follow : List String → List String → Option (LinkTree C)) :
    List String → List String → Option (LinkTree C)
  | place, [] => root.sub place
  | place, comp :: rest =>
    match root.sub place with
    | some (dir entries) =>
      if comp = "" ∨ comp = "." then walk root follow place rest
      else if comp = ".." then walk root follow place.dropLast rest
      else
        match entries.lookup comp with
        | none => none
        | some (link target) =>
          follow (if target.absolute then [] else place) (target.comps ++ rest)
        | some _ => walk root follow (place ++ [comp]) rest
    | _ => none

/-- Where a path leads through a number of links at most. -/
def resolve (root : LinkTree C) : ℕ → List String → List String → Option (LinkTree C)
  | 0 => walk root fun _ _ => none
  | links + 1 => walk root (root.resolve links)

def walkIn (part : LinkTree C)
    (follow : List String → List String → Option (Option (LinkTree C))) :
    List String → List String → Option (Option (LinkTree C))
  | place, [] => some (part.sub place)
  | place, comp :: rest =>
    match part.sub place with
    | some (dir entries) =>
      if comp = "" ∨ comp = "." then walkIn part follow place rest
      else if comp = ".." then
        if place = [] then none else walkIn part follow place.dropLast rest
      else
        match entries.lookup comp with
        | none => some none
        | some (link target) =>
          if target.absolute then none else follow place (target.comps ++ rest)
        | some _ => walkIn part follow (place ++ [comp]) rest
    | _ => some none

def resolveIn (part : LinkTree C) : ℕ → List String → List String → Option (Option (LinkTree C))
  | 0 => walkIn part fun _ _ => some none
  | links + 1 => walkIn part (part.resolveIn links)

theorem sub_append (t : LinkTree C) (place place' : List String) :
    t.sub (place ++ place') = (t.sub place).bind (·.sub place') := by
  induction place generalizing t with
  | nil => rfl
  | cons name place ih =>
    cases t with
    | file content => rfl
    | link target => rfl
    | dir entries =>
      show (entries.lookup name).bind (·.sub (place ++ place')) = _
      cases hname : entries.lookup name with
      | none => simp [sub, hname]
      | some t' => simp [sub, hname, ih t']

section

variable {root part : LinkTree C} {base : List String}

theorem walk_of_walkIn (h : root.sub base = some part)
    {follow : List String → List String → Option (LinkTree C)}
    {followIn : List String → List String → Option (Option (LinkTree C))}
    (hfollow : ∀ place rest r, followIn place rest = some r → follow (base ++ place) rest = r)
    {place todo : List String} {r : Option (LinkTree C)}
    (hr : part.walkIn followIn place todo = some r) :
    root.walk follow (base ++ place) todo = r := by
  have hsub : ∀ p, root.sub (base ++ p) = part.sub p := fun p => by
    rw [sub_append, h, Option.bind_some]
  induction todo generalizing place with
  | nil =>
    rw [walk, hsub]
    exact Option.some.inj hr
  | cons comp rest ih =>
    rw [walkIn] at hr
    rw [walk, hsub]
    split at hr
    · split_ifs at hr ⊢ with hstay hup htop
      · exact ih hr
      · rw [List.dropLast_append_of_ne_nil htop]
        exact ih hr
      · split at hr
        · exact Option.some.inj hr
        · split_ifs at hr with habs
          rw [if_neg habs]
          exact hfollow place _ r hr
        · rw [List.append_assoc]
          exact ih hr
    · exact Option.some.inj hr

/-- A path that stays inside a part of a tree leads in the tree where it leads in the part. -/
theorem resolve_of_resolveIn (h : root.sub base = some part) {links : ℕ}
    {place todo : List String} {r : Option (LinkTree C)}
    (hr : part.resolveIn links place todo = some r) :
    root.resolve links (base ++ place) todo = r := by
  induction links generalizing place todo r with
  | zero => exact walk_of_walkIn h (fun _ _ _ hf => Option.some.inj hf) hr
  | succ links ih => exact walk_of_walkIn h (fun _ _ _ hf => ih hf) hr

end

end LinkTree

end Horsie.Lib
