import Horsie.Runtime.Staging

/-!
# Provisioned plugin trees

Trees are what was provisioned as long as the calls heed each other: no two unpack into one staging
directory or build one tree at once, a key that is there was put there for the digest that is
asked for, a tree is emptied marker first, and nothing fails once the tree has changed. Where one
of these is left out, it is not so: two calls for one bundle publish a part of it.
-/

namespace Horsie.Runtime.PluginStore

open Horsie.Lib

/-! ## What the calls heed -/

def Tree.heeds (t : Tree) (changed : Bool) (o : Outcome) : Phase → Bool
  | .clearing => t.links.toPairs = [] ∧ t.marker = none
  | .linking (b :: _) => !changed || (o = .ok && !t.has b.linkName)
  | .marking => !changed || (o = .ok && (t.links.lookup markerFile).isNone)
  | .recording => !changed || o = .ok
  | _ => true

def World.heeds (w : World) : Label → Bool
  | .act i o =>
    w.jobs[i]?.all fun j =>
      w.store.heeds j.phase && (w.tree j.dir).heeds j.changed o j.phase &&
        match j.phase with
        | .makingTree => o ≠ .ok || w.jobs.all fun e => !e.phase.isBuilding || e.dir ≠ j.dir
        | _ => true
  | .fetched i _ =>
    w.jobs[i]?.all fun j =>
      match j.phase with
      | .fetching b _ => w.jobs.all fun e => e.phase.stagingKey ≠ some b.dir
      | _ => true
  | .unlink i _ => w.jobs[i]?.all fun j => (w.tree j.dir).marker.all (·.isNone)
  | _ => true

/-! ## What is kept -/

section

variable (unzip : Unzip) (sha256 : Bytes → String) (host : List String)

/-- What a call has linked so far. -/
def Tree.Builds (t : Tree) (bundles : List BundleRef) : Phase → Prop
  | .linkingHost todo =>
    t.marker = none ∧ bundles = [] ∧ (∀ name ∈ todo, name ∈ host) ∧ t.Lists host bundles []
  | .linking todo => t.marker = none ∧ ∃ done, bundles = done ++ todo ∧ t.Lists host bundles done
  | .marking => t.marker = none ∧ t.Lists host bundles bundles
  | .recording => t.marker = some none ∧ t.Lists host bundles bundles
  | _ => True

structure Job.Sound (s : Store) (t : Tree) (j : Job) : Prop where
  ensured : ∀ todo, j.phase.todo = some todo → ∀ b ∈ j.bundles, b ∈ todo ∨ s.Has b
  unpacks : s.Unpacks unzip sha256 j.phase
  builds : t.Builds host j.bundles j.phase
  unchanged : j.phase.isBuilding = false → j.phase.isOver = false → j.changed = false
  failed : ∀ e, j.phase = .finished (.error e) → j.changed = false

structure World.Kept (w : World) : Prop where
  store : w.store.Valid unzip sha256
  trees : ∀ dir bundles, (w.tree dir).marker = some (some bundles) →
    (w.tree dir).Lists host bundles bundles ∧ ∀ b ∈ bundles, w.store.Has b
  stagingApart : ∀ (i k : ℕ) (a b : Job), w.jobs[i]? = some a → w.jobs[k]? = some b → i ≠ k →
    ∀ key, a.phase.stagingKey = some key → b.phase.stagingKey ≠ some key
  treesApart : ∀ (i k : ℕ) (a b : Job), w.jobs[i]? = some a → w.jobs[k]? = some b → i ≠ k →
    a.phase.isBuilding = true → b.phase.isBuilding = true → a.dir ≠ b.dir
  jobs : ∀ (i : ℕ) (j : Job), w.jobs[i]? = some j →
    j.Sound unzip sha256 host w.store (w.tree j.dir)

end

variable {unzip : Unzip} {sha256 : Bytes → String} {host : List String} {s s' : Store}
  {p p' : Phase} {o : Outcome} {bundles : List BundleRef} {b : BundleRef} {key : Option String}

/-! ### Building trees -/

variable {t t' : Tree} {c changed : Bool}

/-- What a step of a call on its agent's tree comes to. -/
structure Tree.Acted (host : List String) (s : Store) (bundles : List BundleRef) (changed : Bool)
    (o : Outcome) (t t' : Tree) (c : Bool) (p p' : Phase) : Prop where
  key : p'.stagingKey = none
  before : p.isOver = false
  outside : p.isBuilding = false → t' = t
  entered : p'.isBuilding = true → p.isBuilding = true ∨ p = .makingTree ∧ o = .ok
  ensured : ∀ todo, p'.todo = some todo → ∀ b ∈ bundles, b ∈ todo ∨ s.Has b
  builds : t'.Builds host bundles p'
  marked : ∀ set, t'.marker = some (some set) → t'.marker = t.marker ∧ t'.links = t.links ∨
    set = bundles ∧ t'.Lists host bundles bundles ∧ ∀ b ∈ bundles, s.Has b
  unchanged : p'.isBuilding = false → p'.isOver = false → (changed || c) = false
  failed : ∀ e, p' = .finished (.error e) → (changed || c) = false

theorem Outcome.eq_ok_of_failure? (h : o.failure? = none) : o = .ok := by
  cases o with
  | ok => rfl
  | error e => cases h
  | torn k e => cases h

theorem Tree.acted_same (hkey : p'.stagingKey = none) (hbefore : p.isOver = false)
    (hentered : p'.isBuilding = true → p.isBuilding = true ∨ p = .makingTree ∧ o = .ok)
    (hensured : ∀ todo, p'.todo = some todo → ∀ b ∈ bundles, b ∈ todo ∨ s.Has b)
    (hbuilds : t.Builds host bundles p')
    (hunchanged : p'.isBuilding = false → p'.isOver = false → changed = false)
    (hfailed : ∀ e, p' = .finished (.error e) → changed = false) :
    t.Acted host s bundles changed o t false p p' where
  key := hkey
  before := hbefore
  outside _ := rfl
  entered := hentered
  ensured := hensured
  builds := hbuilds
  marked _ _ := .inl ⟨rfl, rfl⟩
  unchanged h h' := by rw [Bool.or_false, hunchanged h h']
  failed e h := by rw [Bool.or_false, hfailed e h]

theorem Tree.acted_failed (hbefore : p.isOver = false) (hchanged : changed = false) (e : String) :
    t.Acted host s bundles changed o t false p (.finished (.error e)) :=
  Tree.acted_same rfl hbefore (fun h => by cases h) (fun todo h => by cases h) trivial
    (fun _ h => by cases h) fun _ _ => hchanged

theorem Tree.Lists.link {done : List BundleRef} {b : BundleRef} (h : t.Lists host bundles done)
    (hb : t.links.lookup b.linkName = none) :
    Tree.Lists host bundles
      { t with links := t.links.insert b.linkName (.stored b.dir) } (done ++ [b]) where
  linked e he := by
    rw [Map.lookup_insert_eq]
    rcases List.mem_append.mp he with he | he
    · have hold := h.linked e he
      have hne : e.linkName ≠ b.linkName := by
        intro heq
        rw [heq, hb] at hold
        cases hold
      rw [if_neg hne]
      exact hold
    · obtain rfl := List.mem_singleton.mp he
      rw [if_pos rfl]
  only name link hlink := by
    rw [Map.lookup_insert_eq] at hlink
    split_ifs at hlink with hname
    · exact .inl ⟨b, List.mem_append_right _ (List.mem_singleton_self b), hname,
        (Option.some.inj hlink).symm⟩
    · rcases h.only name link hlink with ⟨e, he, hparts⟩ | hhost
      · exact .inl ⟨e, List.mem_append_left _ he, hparts⟩
      · exact .inr hhost

theorem Tree.Lists.linkHost {name : String} (h : t.Lists host bundles []) (hempty : bundles = [])
    (hname : name ∈ host) :
    Tree.Lists host bundles { t with links := t.links.insert name (.host name) } [] where
  linked e he := by cases he
  only name' link hlink := by
    rw [Map.lookup_insert_eq] at hlink
    split_ifs at hlink with heq
    · subst heq
      exact .inr ⟨hempty, hname, (Option.some.inj hlink).symm⟩
    · exact h.only name' link hlink

theorem Tree.lists_nil (h : t.links.toPairs = []) : t.Lists host bundles [] where
  linked e he := by cases he
  only name link hlink := by
    have hmem := Map.mem_toPairs.mpr hlink
    rw [h] at hmem
    cases hmem

theorem Tree.builds_of_not_building (h : p.isBuilding = false) : t.Builds host bundles p := by
  cases p with
  | linkingHost todo => cases h
  | linking todo => cases h
  | marking => cases h
  | recording => cases h
  | _ => trivial

theorem treeAct_acted (hensured : ∀ todo, p.todo = some todo → ∀ b ∈ bundles, b ∈ todo ∨ s.Has b)
    (hbuilds : t.Builds host bundles p)
    (hunchanged : p.isBuilding = false → p.isOver = false → changed = false)
    (hg : t.heeds changed o p = true) (hact : treeAct host bundles t o p = some (t', c, p')) :
    t.Acted host s bundles changed o t' c p p' := by
  cases p with
  | starting =>
    cases hact
    have hfalse := hunchanged rfl rfl
    split_ifs
    · exact Tree.acted_same rfl rfl (fun h => by cases h) (fun todo h => by cases h) trivial
        (fun _ _ => hfalse) fun _ _ => hfalse
    · refine Tree.acted_same rfl rfl (fun h => by cases h) ?_ trivial (fun _ _ => hfalse)
        fun _ _ => hfalse
      rintro todo htodo b hb
      cases htodo
      exact .inl hb
  | makingTree =>
    have hfalse := hunchanged rfl rfl
    simp only [treeAct] at hact
    split at hact
    · cases hact
      exact Tree.acted_failed rfl hfalse _
    · rename_i ho
      cases hact
      exact Tree.acted_same rfl rfl (fun _ => .inr ⟨rfl, Outcome.eq_ok_of_failure? ho⟩) hensured
        trivial (fun _ _ => hfalse) fun _ _ => hfalse
  | clearing =>
    cases hact
    obtain ⟨hlinks, hmarker⟩ := of_decide_eq_true hg
    split_ifs with hempty
    · refine Tree.acted_same rfl rfl (fun _ => .inl rfl) hensured ?_ (fun h => by cases h)
        fun e h => by cases h
      exact ⟨hmarker, List.isEmpty_iff.mp hempty, fun _ h => h, Tree.lists_nil hlinks⟩
    · refine Tree.acted_same rfl rfl (fun _ => .inl rfl) hensured ?_ (fun h => by cases h)
        fun e h => by cases h
      exact ⟨hmarker, [], rfl, Tree.lists_nil hlinks⟩
  | linkingHost todo =>
    obtain ⟨hmarker, hempty, hhost, hlists⟩ := hbuilds
    cases todo with
    | nil =>
      cases hact
      refine Tree.acted_same rfl rfl (fun _ => .inl rfl) hensured ⟨hmarker, [], hempty, hlists⟩
        (fun h => by cases h) fun e h => by cases h
    | cons name rest =>
      have hrest := fun n hn => hhost n (List.mem_cons_of_mem _ hn)
      simp only [treeAct] at hact
      split_ifs at hact
      · cases hact
        exact Tree.acted_same rfl rfl (fun _ => .inl rfl) hensured ⟨hmarker, hempty, hrest, hlists⟩
          (fun h => by cases h) fun e h => by cases h
      · cases hact
        refine ⟨rfl, rfl, (fun h => by cases h), fun _ => .inl rfl, hensured,
          ⟨hmarker, hempty, hrest, hlists.linkHost hempty (hhost name List.mem_cons_self)⟩,
          fun set hset => ?_, (fun h => by cases h), fun e h => by cases h⟩
        rw [hmarker] at hset
        cases hset
  | linking todo =>
    obtain ⟨hmarker, done, hdone, hlists⟩ := hbuilds
    cases todo with
    | nil =>
      cases hact
      rw [List.append_nil] at hdone
      subst hdone
      exact Tree.acted_same rfl rfl (fun _ => .inl rfl) hensured ⟨hmarker, hlists⟩
        (fun h => by cases h) fun e h => by cases h
    | cons b rest =>
      simp only [Tree.heeds, Bool.or_eq_true, Bool.not_eq_true', Bool.and_eq_true,
        decide_eq_true_eq] at hg
      simp only [treeAct] at hact
      split at hact
      · rename_i e ho
        cases hact
        refine Tree.acted_failed rfl (hg.resolve_right ?_) _
        rintro ⟨rfl, -⟩
        cases ho
      · split_ifs at hact with hhas
        · cases hact
          refine Tree.acted_failed rfl (hg.resolve_right ?_) _
          rintro ⟨-, hnot⟩
          exact absurd (hhas.symm.trans hnot) (by decide)
        · cases hact
          simp only [Tree.has, decide_eq_true_eq, not_or, Option.not_isSome_iff_eq_none] at hhas
          refine ⟨rfl, rfl, (fun h => by cases h), fun _ => .inl rfl, hensured,
            ⟨hmarker, done ++ [b], ?_, hlists.link hhas.2.1⟩, fun set hset => ?_,
            (fun h => by cases h), fun e h => by cases h⟩
          · rw [hdone, List.append_assoc, List.singleton_append]
          · rw [hmarker] at hset
            cases hset
  | marking =>
    obtain ⟨hmarker, hlists⟩ := hbuilds
    simp only [Tree.heeds, Bool.or_eq_true, Bool.not_eq_true', Bool.and_eq_true,
      decide_eq_true_eq] at hg
    simp only [treeAct] at hact
    split at hact
    · rename_i e ho
      cases hact
      refine Tree.acted_failed rfl (hg.resolve_right ?_) _
      rintro ⟨rfl, -⟩
      cases ho
    · split_ifs at hact with hhas
      · cases hact
        refine Tree.acted_failed rfl (hg.resolve_right ?_) _
        rintro ⟨-, hnone⟩
        rw [Option.isNone_iff_eq_none.mp hnone] at hhas
        cases hhas
      · cases hact
        exact ⟨rfl, rfl, (fun h => by cases h), fun _ => .inl rfl, hensured,
          ⟨rfl, hlists.linked, hlists.only⟩, (fun set hset => by cases hset),
          (fun h => by cases h), fun e h => by cases h⟩
  | recording =>
    obtain ⟨hmarker, hlists⟩ := hbuilds
    simp only [Tree.heeds, Bool.or_eq_true, Bool.not_eq_true', decide_eq_true_eq] at hg
    simp only [treeAct] at hact
    split at hact
    · rename_i e ho
      cases hact
      refine Tree.acted_failed rfl (hg.resolve_right ?_) _
      rintro rfl
      cases ho
    · cases hact
      have hall : ∀ b ∈ bundles, s.Has b := fun b hb =>
        (hensured [] rfl b hb).resolve_left List.not_mem_nil
      refine ⟨rfl, rfl, (fun h => by cases h), (fun h => by cases h), (fun todo h => by cases h),
        trivial, fun set hset => ?_, (fun _ h => by cases h), fun e h => by cases h⟩
      cases hset
      exact .inr ⟨rfl, ⟨hlists.linked, hlists.only⟩, hall⟩
  | _ => cases hact

/-! ### Steps -/

variable {w w' : World} {i : ℕ} {j : Job}

theorem Store.Unpacks.goes (h : s.Unpacks unzip sha256 p) (hs : s.Goes unzip sha256 s' key)
    (hkey : ∀ k, p.stagingKey = some k → key ≠ some k) : s'.Unpacks unzip sha256 p := by
  have hlookup : ∀ k, p.stagingKey = some k → s'.staging.lookup k = s.staging.lookup k :=
    fun k hk => hs.staging k (hkey k hk)
  cases p with
  | unpacking b rest bytes => exact ⟨h.1, (hlookup _ rfl).trans h.2⟩
  | extracting b rest bytes entries =>
    obtain ⟨hsha, done, d, hbytes, hd, hstaged⟩ := h
    exact ⟨hsha, done, d, hbytes, hd, (hlookup _ rfl).trans hstaged⟩
  | writing b rest bytes path content entries =>
    obtain ⟨hsha, done, d, d', e, hbytes, hd, hname, hdir, hcontent, hmade, hstaged⟩ := h
    exact ⟨hsha, done, d, d', e, hbytes, hd, hname, hdir, hcontent, hmade,
      (hlookup _ rfl).trans hstaged⟩
  | publishing b rest bytes =>
    obtain ⟨hsha, d, hd, hstaged⟩ := h
    exact ⟨hsha, d, hd, (hlookup _ rfl).trans hstaged⟩
  | _ => exact h

/-- A call rests on its own staging directory, on its own tree and on the keys that are there. -/
theorem Job.Sound.frame (h : j.Sound unzip sha256 host s t) (hs : s.Goes unzip sha256 s' key)
    (hkey : ∀ k, j.phase.stagingKey = some k → key ≠ some k)
    (htree : j.phase.isBuilding = true → t' = t) : j.Sound unzip sha256 host s' t' where
  ensured todo htodo b hb := (h.ensured todo htodo b hb).imp_right (hs.has b)
  unpacks := h.unpacks.goes hs hkey
  builds := by
    cases hbuilding : j.phase.isBuilding with
    | true =>
      rw [htree hbuilding]
      exact h.builds
    | false => exact Tree.builds_of_not_building hbuilding
  unchanged := h.unchanged
  failed := h.failed

theorem World.apart_set {R : Job → Job → Prop} {j' : Job}
    (h : ∀ (m n : ℕ) (a b : Job), w.jobs[m]? = some a → w.jobs[n]? = some b → m ≠ n → R a b)
    (hleft : ∀ (n : ℕ) (b : Job), n ≠ i → w.jobs[n]? = some b → R j' b ∧ R b j') :
    ∀ (m n : ℕ) (a b : Job), (w.jobs.set i j')[m]? = some a → (w.jobs.set i j')[n]? = some b →
      m ≠ n → R a b := by
  intro m n a b ha hb hne
  rcases getElem?_set_cases ha with ⟨rfl, rfl⟩ | ⟨hm, ha'⟩
  · rcases getElem?_set_cases hb with ⟨rfl, rfl⟩ | ⟨hn, hb⟩
    · exact absurd rfl hne
    · exact (hleft n b hn hb).1
  · rcases getElem?_set_cases hb with ⟨rfl, rfl⟩ | ⟨hn, hb⟩
    · exact (hleft m a hm ha').2
    · exact h m n a b ha' hb hne

theorem World.Kept.of_job (h : w.Kept unzip sha256 host) (hi : w.jobs[i]? = some j)
    (key : Option String) (t' : Tree) (j' : Job)
    (hjobs : w'.jobs = w.jobs.set i j') (hdir : j'.dir = j.dir)
    (htree : ∀ dir, w'.tree dir = if dir = j.dir then t' else w.tree dir)
    (hs : w.store.Goes unzip sha256 w'.store key)
    (hkey : ∀ (m : ℕ) (e : Job), m ≠ i → w.jobs[m]? = some e → ∀ k,
      e.phase.stagingKey = some k → key ≠ some k ∧ j'.phase.stagingKey ≠ some k)
    (hbuilding : ∀ (m : ℕ) (e : Job), m ≠ i → w.jobs[m]? = some e → e.phase.isBuilding = true →
      e.dir = j.dir → t' = w.tree j.dir ∧ j'.phase.isBuilding = false)
    (hmarked : ∀ set, t'.marker = some (some set) →
      t'.Lists host set set ∧ ∀ b ∈ set, w'.store.Has b)
    (hsound : j'.Sound unzip sha256 host w'.store t') : w'.Kept unzip sha256 host where
  store := hs.valid
  trees dir set hset := by
    rw [htree] at hset ⊢
    split_ifs at hset ⊢
    · exact hmarked set hset
    · obtain ⟨hlists, hhas⟩ := h.trees dir set hset
      exact ⟨hlists, fun b hb => hs.has b (hhas b hb)⟩
  stagingApart := by
    rw [hjobs]
    refine World.apart_set h.stagingApart fun m e hm he => ⟨fun k hk hek => ?_, fun k hek => ?_⟩
    · exact (hkey m e hm he k hek).2 hk
    · exact (hkey m e hm he k hek).2
  treesApart := by
    rw [hjobs]
    refine World.apart_set h.treesApart fun m e hm he =>
      ⟨fun hj he' heq => ?_, fun he' hj heq => ?_⟩
    · rw [hdir] at heq
      rw [(hbuilding m e hm he he' heq.symm).2] at hj
      cases hj
    · rw [hdir] at heq
      rw [(hbuilding m e hm he he' heq).2] at hj
      cases hj
  jobs m e he := by
    rw [hjobs] at he
    rcases getElem?_set_cases he with ⟨rfl, rfl⟩ | ⟨hm, he'⟩
    · rw [htree, if_pos hdir]
      exact hsound
    · refine (h.jobs m e he').frame hs (fun k hk => (hkey m e hm he' k hk).1) fun hb => ?_
      rw [htree]
      split_ifs with heq
      · rw [(hbuilding m e hm he' hb heq).1, heq]
      · rfl

theorem Store.unpacks_of_no_key (h : p.stagingKey = none) : s.Unpacks unzip sha256 p := by
  cases p with
  | removing b rest bytes => cases h
  | unpacking b rest bytes => cases h
  | extracting b rest bytes entries => cases h
  | writing b rest bytes path content entries => cases h
  | publishing b rest bytes => cases h
  | _ => trivial

theorem World.tree_insert (w : World) (dir : String) (t : Tree) (s : Store) (jobs : List Job)
    (dir' : String) : World.tree ⟨s, w.agents.insert dir t, jobs⟩ dir' =
      if dir' = dir then t else w.tree dir' := by
  unfold World.tree
  rw [Map.lookup_insert_eq]
  split_ifs
  · rfl
  · rfl

theorem World.Kept.act_store (h : w.Kept unzip sha256 host) (hi : w.jobs[i]? = some j)
    (hg : w.store.heeds j.phase = true)
    (hact : storeAct unzip w.store o j.phase = some (s', p')) :
    World.Kept unzip sha256 host { w with store := s', jobs := w.jobs.set i (j.to p') } := by
  have hj := h.jobs i j hi
  have hacted := storeAct_acted h.store hj.ensured hj.unpacks hg hact
  have hfalse := hj.unchanged hacted.before.1 hacted.before.2
  refine h.of_job hi j.phase.stagingKey (w.tree j.dir) (j.to p') rfl rfl (fun dir => ?_)
    hacted.goes (fun m e hm he k hk => ?_) (fun m e hm he hb heq => ⟨rfl, hacted.after⟩)
    (fun set hset => ?_) ⟨hacted.ensured, hacted.unpacks,
      Tree.builds_of_not_building hacted.after, fun _ _ => hfalse, fun _ _ => hfalse⟩
  · show w.tree dir = _
    split_ifs with heq
    · rw [heq]
    · rfl
  · have hne : j.phase.stagingKey ≠ some k := h.stagingApart m i e j he hi hm k hk
    refine ⟨hne, ?_⟩
    show p'.stagingKey ≠ some k
    rcases hacted.key with hkey | hkey
    · rwa [hkey]
    · rw [hkey]
      intro heq
      cases heq
  · obtain ⟨hlists, hhas⟩ := h.trees _ set hset
    exact ⟨hlists, fun b hb => hacted.goes.has b (hhas b hb)⟩

theorem World.Kept.act_tree (h : w.Kept unzip sha256 host) (hi : w.jobs[i]? = some j)
    (hg : (w.tree j.dir).heeds j.changed o j.phase = true)
    (halone : j.phase = .makingTree → o = .ok → ∀ e ∈ w.jobs, e.phase.isBuilding = true →
      e.dir ≠ j.dir)
    (hact : treeAct host j.bundles (w.tree j.dir) o j.phase = some (t', c, p')) :
    World.Kept unzip sha256 host
      { w with
        agents := w.agents.insert j.dir t'
        jobs := w.jobs.set i { j with phase := p', changed := j.changed || c } } := by
  have hj := h.jobs i j hi
  have hacted := treeAct_acted hj.ensured hj.builds hj.unchanged hg hact
  refine h.of_job hi none t' { j with phase := p', changed := j.changed || c } rfl rfl
    (w.tree_insert j.dir t' _ _) h.store.goes
    (fun m e hm he k hk => ⟨(by intro heq; cases heq), ?_⟩) (fun m e hm he hb heq => ?_)
    (fun set hset => ?_) ⟨hacted.ensured, Store.unpacks_of_no_key hacted.key, hacted.builds,
      hacted.unchanged, hacted.failed⟩
  · show p'.stagingKey ≠ some k
    rw [hacted.key]
    intro heq
    cases heq
  · have hnot : j.phase.isBuilding = false := by
      by_contra hbuilding
      exact h.treesApart m i e j he hi hm hb (Bool.not_eq_false _ ▸ hbuilding) heq
    refine ⟨hacted.outside hnot, ?_⟩
    by_contra hbuilding
    rcases hacted.entered (Bool.not_eq_false _ ▸ hbuilding) with hold | ⟨hphase, ho⟩
    · rw [hnot] at hold
      cases hold
    · exact halone hphase ho e (List.mem_of_getElem? he) hb heq
  · rcases hacted.marked set hset with ⟨hmarker, hlinks⟩ | ⟨rfl, hlists, hhas⟩
    · rw [hmarker] at hset
      obtain ⟨hlists, hhas⟩ := h.trees _ set hset
      refine ⟨⟨fun b hb => ?_, fun name link hlink => ?_⟩, hhas⟩
      · rw [hlinks]
        exact hlists.linked b hb
      · rw [hlinks] at hlink
        exact hlists.only name link hlink
    · exact ⟨hlists, hhas⟩

theorem World.Kept.of_phase (h : w.Kept unzip sha256 host) (hi : w.jobs[i]? = some j)
    (hkey : ∀ e ∈ w.jobs, ∀ k, e.phase.stagingKey = some k → p'.stagingKey ≠ some k)
    (hnot : p'.isBuilding = false)
    (hsound : (j.to p').Sound unzip sha256 host w.store (w.tree j.dir)) :
    World.Kept unzip sha256 host { w with jobs := w.jobs.set i (j.to p') } := by
  refine h.of_job hi none (w.tree j.dir) (j.to p') rfl rfl (fun dir => ?_) h.store.goes
    (fun m e _ he k hk => ⟨(by intro heq; cases heq), hkey e (List.mem_of_getElem? he) k hk⟩)
    (fun m e _ _ _ _ => ⟨rfl, hnot⟩) (fun set hset => h.trees _ set hset) hsound
  show w.tree dir = _
  split_ifs with heq
  · rw [heq]
  · rfl

theorem World.Kept.call (h : w.Kept unzip sha256 host) (agent : String)
    (bundles : List BundleRef) :
    World.Kept unzip sha256 host
      { w with jobs := w.jobs ++ [⟨agent, bundles, .starting, false⟩] } where
  store := h.store
  trees := h.trees
  stagingApart m n a b ha hb hne k hak hbk := by
    rcases getElem?_snoc_cases ha with ha' | ⟨rfl, rfl⟩
    · rcases getElem?_snoc_cases hb with hb' | ⟨rfl, rfl⟩
      · exact h.stagingApart m n a b ha' hb' hne k hak hbk
      · cases hbk
    · cases hak
  treesApart m n a b ha hb hne hab hbb := by
    rcases getElem?_snoc_cases ha with ha' | ⟨rfl, rfl⟩
    · rcases getElem?_snoc_cases hb with hb' | ⟨rfl, rfl⟩
      · exact h.treesApart m n a b ha' hb' hne hab hbb
      · cases hbb
    · cases hab
  jobs m e he := by
    rcases getElem?_snoc_cases he with he' | ⟨rfl, rfl⟩
    · exact h.jobs m e he'
    · exact ⟨(fun todo htodo => by cases htodo), trivial, trivial, fun _ _ => rfl, fun _ _ => rfl⟩

theorem World.Kept.fetched {rest : List BundleRef} (h : w.Kept unzip sha256 host)
    (hi : w.jobs[i]? = some j) (hphase : j.phase = .fetching b rest)
    (hg : ∀ e ∈ w.jobs, e.phase.stagingKey ≠ some b.dir) (bytes : Bytes) :
    World.Kept unzip sha256 host
      { w with jobs := w.jobs.set i (j.to (verify sha256 b rest bytes)) } := by
  have hj := h.jobs i j hi
  have hfalse : j.changed = false := hj.unchanged (by rw [hphase]; rfl) (by rw [hphase]; rfl)
  have hensured := hj.ensured
  rw [hphase] at hensured
  unfold verify
  split_ifs with hsha
  · exact h.of_phase hi (fun e _ k _ heq => by cases heq) rfl
      ⟨(fun todo htodo => by cases htodo), trivial, trivial, fun _ _ => hfalse,
        fun _ _ => hfalse⟩
  · refine h.of_phase hi (fun e he k hk heq => ?_) rfl
      ⟨hensured, not_not.mp hsha, trivial, fun _ _ => hfalse, fun _ _ => hfalse⟩
    cases heq
    exact hg e he hk

theorem World.Kept.drop {k : String} (h : w.Kept unzip sha256 host) (hi : w.jobs[i]? = some j)
    (hdrops : j.phase.drops = some k) (path : List String) :
    World.Kept unzip sha256 host { w with store := w.store.dropStaging k path } := by
  have hj := h.jobs i j hi
  have hgoes := h.store.goes_dropStaging k path
  have hset : w.jobs = w.jobs.set i j := by
    obtain ⟨hlt, rfl⟩ := List.getElem?_eq_some_iff.mp hi
    exact (List.set_getElem_self hlt).symm
  have hkey : j.phase.stagingKey = some k := by
    unfold Phase.drops at hdrops
    split at hdrops
    · rename_i hphase
      rw [hphase]
      exact hdrops
    · rename_i hphase
      rw [hphase]
      exact hdrops
    · cases hdrops
  have hunpacks : (w.store.dropStaging k path).Unpacks unzip sha256 j.phase := by
    unfold Phase.drops at hdrops
    split at hdrops
    · rename_i hphase
      have hold := hj.unpacks
      rw [hphase] at hold ⊢
      exact hold
    · rename_i hphase
      rw [hphase]
      trivial
    · cases hdrops
  refine h.of_job hi (some k) (w.tree j.dir) j hset rfl (fun dir => ?_) hgoes
    (fun m e hm he n hn => ?_)
    (fun m e hm he hb heq => ⟨rfl, ?_⟩) (fun set hmarked => ?_)
    ⟨fun todo htodo a ha => (hj.ensured todo htodo a ha).imp_right (hgoes.has a), hunpacks,
      hj.builds, hj.unchanged, hj.failed⟩
  · show w.tree dir = _
    split_ifs with heq
    · rw [heq]
    · rfl
  · have hne := h.stagingApart m i e j he hi hm n hn
    rw [hkey] at hne
    exact ⟨hne, by rwa [hkey]⟩
  · cases hphase : j.phase with
    | removing b rest bytes => rfl
    | discarding b rest => rfl
    | _ =>
      rw [hphase] at hdrops
      cases hdrops
  · obtain ⟨hlists, hhas⟩ := h.trees _ set hmarked
    exact ⟨hlists, fun b hb => hgoes.has b (hhas b hb)⟩

theorem Phase.eq_clearing (h : p.isClearing = true) : p = .clearing := by
  cases p with
  | clearing => rfl
  | _ => cases h

/-- Something of a tree is removed whose marker is not there afterwards, or records nothing. -/
theorem World.Kept.clear (h : w.Kept unzip sha256 host) (hi : w.jobs[i]? = some j)
    (hphase : j.phase = .clearing) (hmarker : ∀ set, t'.marker ≠ some (some set)) :
    (w.clear i j t').Kept unzip sha256 host := by
  have hj := h.jobs i j hi
  refine h.of_job hi none t' { j with changed := true } rfl rfl
    (w.tree_insert j.dir t' _ _) h.store.goes
    (fun m e hm he k hk => ⟨(by intro heq; cases heq), ?_⟩) (fun m e hm he hb heq => ?_)
    (fun set hset => absurd hset (hmarker set))
    ⟨hj.ensured, hj.unpacks, ?_, ?_, ?_⟩
  · show j.phase.stagingKey ≠ some k
    rw [hphase]
    intro heq
    cases heq
  · exact absurd heq (h.treesApart m i e j he hi hm hb (by rw [hphase]; rfl))
  · show t'.Builds host j.bundles j.phase
    rw [hphase]
    trivial
  · intro hnot
    rw [show ({ j with changed := true } : Job).phase = .clearing from hphase] at hnot
    cases hnot
  · intro e he
    rw [show ({ j with changed := true } : Job).phase = .clearing from hphase] at he
    cases he

theorem World.Kept.step {l : Label} (h : w.Kept unzip sha256 host) (hg : w.heeds l = true)
    (hw : w.step? unzip sha256 host l = some w') : w'.Kept unzip sha256 host := by
  cases l with
  | call agent bundles =>
    simp only [World.step?] at hw
    split_ifs at hw
    cases hw
    exact h.call agent bundles
  | act i o =>
    obtain ⟨j, hi, hact⟩ := Option.bind_eq_some_iff.mp hw
    simp only [World.heeds, hi, Option.all_some, Bool.and_eq_true] at hg
    obtain ⟨⟨hstore, htree⟩, halone⟩ := hg
    unfold World.act at hact
    split at hact
    · rename_i s' p' hs
      cases hact
      exact h.act_store hi hstore hs
    · obtain ⟨⟨t', c, p'⟩, ht, rfl⟩ := Option.map_eq_some_iff.mp hact
      refine h.act_tree hi htree (fun hphase ho e he hb => ?_) ht
      rw [hphase] at halone
      simp only [ho, ne_eq, not_true, decide_false, Bool.false_or, List.all_eq_true] at halone
      have hother := halone e he
      rw [hb] at hother
      simpa using hother
  | fetched i bytes =>
    simp only [World.step?] at hw
    split at hw
    · cases hw
    · rename_i j hi
      split at hw
      · rename_i b rest hphase
        cases hw
        simp only [World.heeds, hi, Option.all_some, hphase, List.all_eq_true,
          decide_eq_true_eq] at hg
        exact h.fetched hi hphase hg bytes
      · cases hw
  | drop i path =>
    obtain ⟨k, hk, rfl⟩ := Option.map_eq_some_iff.mp hw
    obtain ⟨j, hi, hdrops⟩ := Option.bind_eq_some_iff.mp hk
    exact h.drop hi hdrops path
  | unlink i name =>
    simp only [World.step?] at hw
    split at hw
    · cases hw
    · rename_i j hi
      split_ifs at hw with hcond
      cases hw
      simp only [World.heeds, hi, Option.all_some] at hg
      refine h.clear hi (Phase.eq_clearing hcond.1) fun set hset => ?_
      have hset' : (w.tree j.dir).marker = some (some set) := hset
      rw [hset'] at hg
      cases hg
  | unmark i =>
    simp only [World.step?] at hw
    split at hw
    · cases hw
    · rename_i j hi
      split_ifs at hw with hcond
      cases hw
      refine h.clear hi (Phase.eq_clearing hcond.1) fun set hset => ?_
      cases hset
  | abort i =>
    simp only [World.step?] at hw
    split at hw
    · cases hw
    · rename_i j hi
      split_ifs at hw
      cases hw
      refine h.of_phase hi (fun e _ k _ heq => by cases heq) rfl
        ⟨(fun todo htodo => by cases htodo), trivial, trivial, (fun _ hover => by cases hover),
          fun e he => by cases he⟩

/-- No call is under way, and trees and store are what was provisioned. -/
structure World.Fresh (unzip : Unzip) (sha256 : Bytes → String) (host : List String)
    (w : World) : Prop where
  store : w.store.Valid unzip sha256
  trees : ∀ dir bundles, (w.tree dir).marker = some (some bundles) →
    (w.tree dir).Lists host bundles bundles ∧ ∀ b ∈ bundles, w.store.Has b
  jobs : w.jobs = []

theorem World.Fresh.kept (h : w.Fresh unzip sha256 host) : w.Kept unzip sha256 host where
  store := h.store
  trees := h.trees
  stagingApart i k a b ha := by
    rw [h.jobs] at ha
    cases ha
  treesApart i k a b ha := by
    rw [h.jobs] at ha
    cases ha
  jobs i j hj := by
    rw [h.jobs] at hj
    cases hj

theorem World.Kept.provisioned (h : w.Kept unzip sha256 host) :
    w.Provisioned unzip sha256 host where
  trees dir t set ht hset := by
    have htree : w.tree dir = t := by rw [World.tree, ht, Option.getD_some]
    rw [← htree] at hset ⊢
    obtain ⟨hlists, hhas⟩ := h.trees dir set hset
    refine ⟨hlists, fun b hb => ?_⟩
    obtain ⟨made, hmade, hdigest⟩ := hhas b hb
    obtain ⟨d, hd⟩ := Option.isSome_iff_exists.mp (h.store.madeFor _ _ hmade)
    obtain ⟨made', hmade', -, hcomplete⟩ := h.store.stored _ _ hd
    cases hmade.symm.trans hmade'
    exact ⟨d, hd, hdigest ▸ hcomplete⟩
  failed j hj e he := by
    obtain ⟨i, hi⟩ := List.getElem?_of_mem hj
    exact (h.jobs i j hi).failed e he
  stored := h.store.stored

def provisioning (unzip : Unzip) (sha256 : Bytes → String) (host : List String) :
    System World Label where
  Init := World.Fresh unzip sha256 host
  Step w l w' := w.step? unzip sha256 host l = some w'

/-- In a run whose calls heed each other, trees are what was provisioned in every state. -/
theorem trees_provisioned {tr : List (World × Label × World)} (hw : w.Fresh unzip sha256 host)
    (h : (provisioning unzip sha256 host).Exec w tr w')
    (hg : ∀ x ∈ tr, World.heeds x.1 x.2.1 = true) : w'.Provisioned unzip sha256 host := by
  have hstep : ∀ s l t, (provisioning unzip sha256 host).Reachable s →
      s.Kept unzip sha256 host → s.heeds l = true →
      (provisioning unzip sha256 host).Step s l t → t.Kept unzip sha256 host :=
    fun s l t _ hs hheeds ht => hs.step hheeds ht
  exact (h.guarded hstep (.init hw) hw.kept hg).provisioned

/-! ## Two agents with one bundle -/

def emptyWorld : World := ⟨⟨false, ∅, ∅, ∅⟩, ∅, []⟩

theorem fresh_emptyWorld : emptyWorld.Fresh unzip sha256 host where
  store := ⟨(fun key d hd => by cases hd), fun key b hb => by cases hb⟩
  trees dir set hset := by cases hset
  jobs := rfl

/-- An archive of one file. -/
def notesZip : Bytes :=
  [0x50, 0x4B, 0x03, 0x04, 0x14, 0, 0, 0, 0, 0, 0, 0, 0x21, 0, 0x83, 0x16, 0xDC, 0x8C, 1, 0, 0, 0,
    1, 0, 0, 0, 8, 0, 0, 0, 0x53, 0x4B, 0x49, 0x4C, 0x4C, 0x2E, 0x6D, 0x64, 0x78, 0x50, 0x4B, 0x01,
    0x02, 0x14, 3, 0x14, 0, 0, 0, 0, 0, 0, 0, 0x21, 0, 0x83, 0x16, 0xDC, 0x8C, 1, 0, 0, 0, 1, 0, 0,
    0, 8, 0, 0, 0, 0, 0, 0, 0, 0, 0, 0, 0, 0xA4, 1, 0, 0, 0, 0, 0x53, 0x4B, 0x49, 0x4C, 0x4C, 0x2E,
    0x6D, 0x64, 0x50, 0x4B, 5, 6, 0, 0, 0, 0, 1, 0, 1, 0, 0x36, 0, 0, 0, 0x27, 0, 0, 0, 0, 0]

def notesDigest : String := "5f75ff4fdd3bacd14ccdd7ae1d9dadd6b3151c87556da8248db10d09b4392de1"

/-- The other code, as far as the archive needs it. -/
def notesUnzip : Unzip := fun bytes =>
  if bytes = notesZip then .ok [.ok ⟨some ["SKILL.md"], false, [0x78]⟩]
  else .error "invalid Zip archive: Could not find EOCD"

def notesSha256 (bytes : Bytes) : String := if bytes = notesZip then notesDigest else ""

def notes : BundleRef := ⟨"notes", .generation 4, notesDigest⟩

/-- One agent is provisioned with a bundle that is fetched, then another with the same, and then
the first with none. -/
theorem trees_provisioned_twice : ∃ tr w', (provisioning notesUnzip notesSha256 []).Exec
    emptyWorld tr w' ∧ w'.Provisioned notesUnzip notesSha256 [] ∧
      (w'.tree "a1").marker = some (some []) ∧ (w'.tree "a2").marker = some (some [notes]) := by
  let labels : List Label :=
    Label.call "a1" [notes] :: List.replicate 3 (.act 0 .ok) ++ Label.fetched 0 notesZip ::
      List.replicate 13 (.act 0 .ok) ++
    Label.call "a2" [notes] :: List.replicate 9 (.act 1 .ok) ++
    Label.call "a1" [] :: List.replicate 3 (.act 2 .ok) ++
      [Label.unmark 2, .unlink 2 "notes"] ++ List.replicate 5 (Label.act 2 .ok)
  have hrun : ((System.steps? (System.guarded? (fun w l => World.heeds w l = true)
      (World.step? notesUnzip notesSha256 [])) emptyWorld labels).map fun w =>
        ((w.tree "a1").marker, (w.tree "a2").marker)) =
      some (some (some []), some (some [notes])) := by
    decide +kernel
  obtain ⟨w', hw', hproj⟩ := Option.map_eq_some_iff.mp hrun
  obtain ⟨tr, htr, -, hg⟩ := System.exec_of_guarded? (M := provisioning notesUnzip notesSha256 [])
    (fun _ _ _ _ hstep => hstep) hw'
  obtain ⟨hfirst, hsecond⟩ := Prod.mk.inj hproj
  exact ⟨tr, w', htr, trees_provisioned fresh_emptyWorld htr hg, hfirst, hsecond⟩

/-- Two agents are provisioned with one bundle at once: the second call has emptied the staging
directory when the first renames it into the store. -/
theorem published_in_part : ¬∀ (unzip : Unzip) (sha256 : Bytes → String) (host : List String)
    (w w' : World) (tr : List (World × Label × World)), w.Fresh unzip sha256 host →
      (provisioning unzip sha256 host).Exec w tr w' → w'.Provisioned unzip sha256 host := by
  intro h
  have hrun : ((System.steps? (World.step? notesUnzip notesSha256 []) emptyWorld
      (Label.call "a1" [notes] :: List.replicate 3 (.act 0 .ok) ++ Label.fetched 0 notesZip ::
        List.replicate 5 (.act 0 .ok) ++
      Label.call "a2" [notes] :: List.replicate 3 (.act 1 .ok) ++ Label.fetched 1 notesZip ::
        .drop 1 ["SKILL.md"] :: .drop 1 [] :: List.replicate 2 (.act 1 .ok) ++
      [Label.act 0 .ok])).map fun w =>
        ((w.store.entries.lookup notes.dir).map fun d => d.toPairs.length,
          w.store.madeFor.lookup notes.dir)) = some (some 0, some notes) := by
    decide +kernel
  obtain ⟨w', hw', hproj⟩ := Option.map_eq_some_iff.mp hrun
  obtain ⟨tr, htr, -⟩ := System.exec_of_steps? (M := provisioning notesUnzip notesSha256 [])
    (fun _ _ _ hs => hs) hw'
  obtain ⟨hentry, hmade⟩ := Prod.mk.inj hproj
  obtain ⟨d, hd, hempty⟩ := Option.map_eq_some_iff.mp hentry
  obtain ⟨b, hb, -, bytes, hsha, hunpacked⟩ :=
    (h notesUnzip notesSha256 [] _ w' tr fresh_emptyWorld htr).stored _ d hd
  cases hb.symm.trans hmade
  have hbytes : bytes = notesZip := by
    unfold notesSha256 at hsha
    split_ifs at hsha with heq
    · exact heq
    · exact absurd hsha (by decide)
  rw [hbytes] at hunpacked
  have hfull : ((unpacked notesUnzip notesZip).map fun d => d.toPairs.length).toOption =
      some 1 := by
    decide +kernel
  rw [hunpacked] at hfull
  exact absurd (hempty.symm.trans (Option.some.inj hfull)) (by decide)

end Horsie.Runtime.PluginStore
