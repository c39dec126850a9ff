import Horsie.Lib.Take
import Horsie.Runtime.PluginStore

/-!
# Staging of bundles

A bundle that is not in the store is unpacked beside it and renamed into it. As long as no two
calls unpack under one key, and what is at a key was put there for the digest that is asked for,
every entry of the store is all of a bundle, and what a call found there stays.
-/

namespace Horsie.Runtime.PluginStore

open Horsie.Lib

/-! ## What the calls heed -/

def Phase.stagingKey : Phase → Option String
  | removing b _ _ | unpacking b _ _ | extracting b _ _ _ | writing b _ _ _ _ _ |
    publishing b _ _ | discarding b _ => some b.dir
  | _ => none

/-- A call that changes its agent's tree. -/
def Phase.isBuilding : Phase → Bool
  | clearing | linkingHost _ | linking _ | marking | recording => true
  | _ => false

/-- What is at a bundle's key was put there for its digest. -/
def Store.agrees (s : Store) (b : BundleRef) : Bool :=
  !s.isDir b.dir || (s.madeFor.lookup b.dir).any (·.digest = b.digest)

def Store.heeds (s : Store) : Phase → Bool
  | .checking (b :: _) | .publishing b _ _ => s.agrees b
  | .removing b _ _ => (s.staging.lookup b.dir).isNone
  | _ => true

/-! ## What is kept of the store -/

section

variable (unzip : Unzip) (sha256 : Bytes → String)

def Store.Has (s : Store) (b : BundleRef) : Prop :=
  ∃ b', s.madeFor.lookup b.dir = some b' ∧ b'.digest = b.digest

structure Store.Valid (s : Store) : Prop where
  stored : ∀ key d, s.entries.lookup key = some d → ∃ b,
    s.madeFor.lookup key = some b ∧ b.dir = key ∧ Complete unzip sha256 b.digest d
  madeFor : ∀ key b, s.madeFor.lookup key = some b → (s.entries.lookup key).isSome = true

/-- The bundles that a call has still to put into the store. -/
def Phase.todo : Phase → Option (List BundleRef)
  | starting | finished _ | aborted => none
  | checking todo => some todo
  | makingStore b rest | fetching b rest | removing b rest _ | unpacking b rest _ |
    extracting b rest _ _ | writing b rest _ _ _ _ | publishing b rest _ => some (b :: rest)
  | discarding _ rest => some rest
  | makingTree | clearing | linkingHost _ | linking _ | marking | recording => some []

/-- What a call has unpacked so far is what the archive has so far. -/
def Store.Unpacks (s : Store) : Phase → Prop
  | .removing b _ bytes => sha256 bytes = b.digest
  | .unpacking b _ bytes => sha256 bytes = b.digest ∧ s.staging.lookup b.dir = none
  | .extracting b _ bytes entries => sha256 bytes = b.digest ∧ ∃ done d,
      unzip bytes = .ok (done ++ entries) ∧ unpackEntries ∅ done = .ok d ∧
        s.staging.lookup b.dir = some d
  | .writing b _ bytes path content entries => sha256 bytes = b.digest ∧ ∃ done d d' e,
      unzip bytes = .ok (done ++ .ok e :: entries) ∧ unpackEntries ∅ done = .ok d ∧
        e.name = some path ∧ e.isDir = false ∧ e.content = content ∧
          d.mkdirs path.dropLast = .ok d' ∧ s.staging.lookup b.dir = some d'
  | .publishing b _ bytes => sha256 bytes = b.digest ∧ ∃ d,
      unpacked unzip bytes = .ok d ∧ s.staging.lookup b.dir = some d
  | _ => True

/-- A step of a call on the store: what is there stays, and no staging directory changes but the
call's own. -/
structure Store.Goes (s s' : Store) (key : Option String) : Prop where
  valid : s'.Valid unzip sha256
  has : ∀ b, s.Has b → s'.Has b
  staging : ∀ k, key ≠ some k → s'.staging.lookup k = s.staging.lookup k

end

variable {unzip : Unzip} {sha256 : Bytes → String} {s s' : Store} {p p' : Phase} {o : Outcome}
  {bundles : List BundleRef} {b : BundleRef} {key : Option String}

/-! ### The store -/

theorem Store.Valid.goes (h : s.Valid unzip sha256) : s.Goes unzip sha256 s key :=
  ⟨h, fun _ hb => hb, fun _ _ => rfl⟩

theorem Store.Valid.goes_isMade (h : s.Valid unzip sha256) :
    s.Goes unzip sha256 { s with isMade := true } key :=
  ⟨⟨h.stored, h.madeFor⟩, fun _ hb => hb, fun _ _ => rfl⟩

theorem Store.Valid.goes_setStaging (h : s.Valid unzip sha256) (k : String) (d : Dir) :
    s.Goes unzip sha256 (s.setStaging k d) (some k) :=
  ⟨⟨h.stored, h.madeFor⟩, fun _ hb => hb, fun _ hk => AList.lookup_insert_ne fun heq =>
    hk (congrArg some heq.symm)⟩

theorem Store.Valid.goes_dropStaging (h : s.Valid unzip sha256) (k : String)
    (path : List String) : s.Goes unzip sha256 (s.dropStaging k path) (some k) := by
  unfold Store.dropStaging
  split
  · exact h.goes
  · split_ifs
    · exact ⟨⟨h.stored, h.madeFor⟩, fun _ hb => hb, fun _ hk => AList.lookup_erase_ne fun heq =>
        hk (congrArg some heq.symm)⟩
    · exact h.goes
    · exact h.goes_setStaging k _

theorem Store.has_of_agrees (h : s.agrees b = true) (hdir : s.isDir b.dir = true) : s.Has b := by
  unfold Store.agrees at h
  rw [hdir, Bool.not_true, Bool.false_or, Option.any_eq_true] at h
  obtain ⟨b', hb', hdigest⟩ := h
  exact ⟨b', hb', of_decide_eq_true hdigest⟩

theorem Store.Valid.goes_rename (h : s.Valid unzip sha256) (hs : s.rename b = .ok s')
    (hagrees : s.agrees b = true)
    (hd : ∀ d, s.staging.lookup b.dir = some d → Complete unzip sha256 b.digest d) :
    s.Goes unzip sha256 s' (some b.dir) ∧ s'.Has b := by
  unfold Store.rename at hs
  split at hs
  · cases hs
  · rename_i d hlookup
    split_ifs at hs with hfull
    cases hs
    obtain ⟨hkey, -⟩ := not_or.mp hfull
    have hsame : ∀ b', s.Has b' → b'.dir = b.dir → b.digest = b'.digest := by
      rintro b' ⟨made, hmade, hdigest⟩ hdir
      rw [hdir] at hmade
      have hisDir : s.isDir b.dir = true := by
        rw [Store.isDir, if_neg hkey]
        exact h.madeFor b.dir made hmade
      obtain ⟨made', hmade', hdigest'⟩ := Store.has_of_agrees hagrees hisDir
      cases hmade'.symm.trans hmade
      exact hdigest'.symm.trans hdigest
    refine ⟨⟨⟨fun key e he => ?_, fun key made hmade => ?_⟩, fun b' hb' => ?_, fun k hk => ?_⟩, ?_⟩
    · simp only [Map.lookup_insert_eq] at he ⊢
      split_ifs at he ⊢ with hk
      · cases he
        exact ⟨b, rfl, hk.symm, hd _ hlookup⟩
      · exact h.stored key e he
    · simp only [Map.lookup_insert_eq] at hmade ⊢
      split_ifs at hmade ⊢ with hk
      · rfl
      · exact h.madeFor key made hmade
    · unfold Store.Has
      simp only [Map.lookup_insert_eq]
      split_ifs with hk
      · exact ⟨b, rfl, hsame b' hb' hk⟩
      · exact hb'
    · exact AList.lookup_erase_ne fun heq => hk (congrArg some heq.symm)
    · exact ⟨b, AList.lookup_insert _, rfl⟩

/-! ### Putting bundles into the store -/

/-- What a step of a call on the store comes to. -/
structure Store.Acted (unzip : Unzip) (sha256 : Bytes → String) (s s' : Store)
    (bundles : List BundleRef) (p p' : Phase) : Prop where
  goes : s.Goes unzip sha256 s' p.stagingKey
  before : p.isBuilding = false ∧ p.isOver = false
  after : p'.isBuilding = false
  key : p'.stagingKey = p.stagingKey ∨ p'.stagingKey = none
  ensured : ∀ todo, p'.todo = some todo → ∀ b ∈ bundles, b ∈ todo ∨ s'.Has b
  unpacks : s'.Unpacks unzip sha256 p'

theorem Store.Valid.acted_same (h : s.Valid unzip sha256)
    (hbefore : p.isBuilding = false ∧ p.isOver = false) (hafter : p'.isBuilding = false)
    (hkey : p'.stagingKey = p.stagingKey ∨ p'.stagingKey = none)
    (hensured : ∀ todo, p'.todo = some todo → ∀ b ∈ bundles, b ∈ todo ∨ s.Has b)
    (hunpacks : s.Unpacks unzip sha256 p') : s.Acted unzip sha256 s bundles p p' :=
  ⟨h.goes, hbefore, hafter, hkey, hensured, hunpacks⟩

theorem Store.Valid.acted_failed (h : s.Valid unzip sha256)
    (hbefore : p.isBuilding = false ∧ p.isOver = false) (e : String) :
    s.Acted unzip sha256 s bundles p (b.failed e) :=
  h.acted_same hbefore rfl (.inr rfl) (fun todo htodo => by cases htodo) trivial

theorem unpackEntries_snoc {done : List (Except String ZipEntry)} {d d' : Dir} {e : ZipEntry}
    (h : unpackEntries ∅ done = .ok d) (he : unpackEntry d e = .ok d') :
    unpackEntries ∅ (done ++ [.ok e]) = .ok d' := by
  unfold unpackEntries at h ⊢
  rw [List.foldlM_append, h]
  show (unpackEntry d e >>= fun d => pure d) = Except.ok d'
  rw [he]
  rfl

theorem extract_acted {rest : List BundleRef} {bytes : Bytes} {e : ZipEntry}
    {entries : List (Except String ZipEntry)} (h : s.Valid unzip sha256)
    (hensured : ∀ e ∈ bundles, e ∈ b :: rest ∨ s.Has e)
    (hunpacks : s.Unpacks unzip sha256 (.extracting b rest bytes (.ok e :: entries))) :
    s.Acted unzip sha256 (extract s o b rest bytes e entries).1 bundles
      (.extracting b rest bytes (.ok e :: entries)) (extract s o b rest bytes e entries).2 := by
  obtain ⟨hsha, done, d, hbytes, hd, hstaged⟩ := hunpacks
  have htodo : ∀ todo, some (b :: rest) = some todo → ∀ e ∈ bundles, e ∈ todo ∨ s.Has e := by
    rintro todo heq e he
    cases heq
    exact hensured e he
  have hnext : done ++ Except.ok e :: entries = (done ++ [Except.ok e]) ++ entries := by
    rw [List.append_assoc, List.singleton_append]
  rw [hnext] at hbytes
  unfold extract
  split
  · rename_i hname
    refine h.acted_same ⟨rfl, rfl⟩ rfl (.inl rfl) htodo ⟨hsha, _, d, hbytes, ?_, hstaged⟩
    refine unpackEntries_snoc hd ?_
    rw [unpackEntry, hname]
  · rename_i path hname
    split
    · exact h.acted_failed ⟨rfl, rfl⟩ _
    · rw [hstaged, Option.getD_some]
      split
      · exact h.acted_failed ⟨rfl, rfl⟩ _
      · rename_i d' hd'
        have hstaged' : (s.setStaging b.dir d').staging.lookup b.dir = some d' :=
          AList.lookup_insert _
        cases hdir : e.isDir with
        | true =>
          rw [hdir, if_pos rfl] at hd'
          refine ⟨h.goes_setStaging _ _, ⟨rfl, rfl⟩, rfl, .inl rfl, htodo, hsha, _, d', hbytes, ?_,
            hstaged'⟩
          refine unpackEntries_snoc hd ?_
          rw [unpackEntry, hname]
          simp only [hdir, if_true]
          exact hd'
        | false =>
          rw [hdir, if_neg (by decide)] at hd'
          rw [← hnext] at hbytes
          exact ⟨h.goes_setStaging _ _, ⟨rfl, rfl⟩, rfl, .inl rfl, htodo, hsha, done, d, d', e,
            hbytes, hd, hname, hdir, rfl, hd', hstaged'⟩

/-- A rename that failed goes on where another call has put the bundle there. -/
theorem lost_acted {rest : List BundleRef} {bytes : Bytes} (h : s.Valid unzip sha256)
    (hensured : ∀ e ∈ bundles, e ∈ b :: rest ∨ s.Has e) (hg : s.agrees b = true) (e : String) :
    s.Acted unzip sha256 s bundles (.publishing b rest bytes) (s.lost b rest e) := by
  unfold Store.lost
  split_ifs with hdir
  · refine h.acted_same ⟨rfl, rfl⟩ rfl (.inl rfl) ?_ trivial
    rintro todo heq a ha
    cases heq
    rcases hensured a ha with hmem | hhas
    · rcases List.mem_cons.mp hmem with rfl | hmem
      · exact .inr (Store.has_of_agrees hg hdir)
      · exact .inl hmem
    · exact .inr hhas
  · exact h.acted_failed ⟨rfl, rfl⟩ _

theorem storeAct_acted (h : s.Valid unzip sha256)
    (hensured : ∀ todo, p.todo = some todo → ∀ b ∈ bundles, b ∈ todo ∨ s.Has b)
    (hunpacks : s.Unpacks unzip sha256 p) (hg : s.heeds p = true)
    (hact : storeAct unzip s o p = some (s', p')) : s.Acted unzip sha256 s' bundles p p' := by
  cases p with
  | checking todo =>
    cases todo with
    | nil =>
      cases hact
      exact h.acted_same ⟨rfl, rfl⟩ rfl (.inl rfl) hensured trivial
    | cons b rest =>
      cases hact
      split_ifs with hdir
      · refine h.acted_same ⟨rfl, rfl⟩ rfl (.inl rfl) ?_ trivial
        rintro todo heq e he
        cases heq
        rcases hensured _ rfl e he with hmem | hhas
        · rcases List.mem_cons.mp hmem with rfl | hmem
          · exact .inr (Store.has_of_agrees hg hdir)
          · exact .inl hmem
        · exact .inr hhas
      · exact h.acted_same ⟨rfl, rfl⟩ rfl (.inl rfl) hensured trivial
  | makingStore b rest =>
    simp only [storeAct] at hact
    split at hact
    · cases hact
      exact h.acted_same ⟨rfl, rfl⟩ rfl (.inl rfl) (fun todo htodo => by cases htodo) trivial
    · cases hact
      exact ⟨h.goes_isMade, ⟨rfl, rfl⟩, rfl, .inl rfl, hensured, trivial⟩
  | fetching b rest =>
    obtain ⟨e, -, he⟩ := Option.map_eq_some_iff.mp hact
    cases he
    exact h.acted_failed ⟨rfl, rfl⟩ e
  | removing b rest bytes =>
    cases hact
    exact h.acted_same ⟨rfl, rfl⟩ rfl (.inl rfl) hensured
      ⟨hunpacks, Option.isNone_iff_eq_none.mp hg⟩
  | unpacking b rest bytes =>
    obtain ⟨hsha, hstaged⟩ := hunpacks
    simp only [storeAct] at hact
    split at hact
    · cases hact
      exact h.acted_failed ⟨rfl, rfl⟩ _
    · cases hact
      split
      · exact ⟨h.goes_setStaging _ _, ⟨rfl, rfl⟩, rfl, .inr rfl,
          (fun todo htodo => by cases htodo), trivial⟩
      · rename_i entries hentries
        refine ⟨h.goes_setStaging _ _, ⟨rfl, rfl⟩, rfl, .inl rfl, hensured, hsha, [], ∅, hentries,
          rfl, ?_⟩
        rw [hstaged]
        exact AList.lookup_insert _
  | extracting b rest bytes entries =>
    cases entries with
    | nil =>
      cases hact
      obtain ⟨hsha, done, d, hbytes, hd, hstaged⟩ := hunpacks
      refine h.acted_same ⟨rfl, rfl⟩ rfl (.inl rfl) hensured ⟨hsha, d, ?_, hstaged⟩
      rw [List.append_nil] at hbytes
      rw [unpacked, hbytes]
      exact hd
    | cons entry entries =>
      cases entry with
      | error e =>
        cases hact
        exact h.acted_failed ⟨rfl, rfl⟩ e
      | ok e =>
        obtain ⟨rfl, rfl⟩ := Prod.mk.inj (Option.some.inj hact)
        exact extract_acted h (hensured _ rfl) hunpacks
  | writing b rest bytes path content entries =>
    obtain ⟨hsha, done, d, d', e, hbytes, hd, hname, hdir, rfl, hmade, hstaged⟩ := hunpacks
    simp only [storeAct, hstaged] at hact
    cases o with
    | error why =>
      cases hact
      exact h.acted_failed ⟨rfl, rfl⟩ why
    | ok =>
      dsimp only at hact
      split at hact
      · cases hact
        exact h.acted_failed ⟨rfl, rfl⟩ _
      · rename_i written hwritten
        cases hact
        refine ⟨h.goes_setStaging _ _, ⟨rfl, rfl⟩, rfl, .inl rfl, hensured, hsha, done ++ [.ok e],
          written, ?_, ?_, AList.lookup_insert _⟩
        · rw [List.append_assoc, List.singleton_append]
          exact hbytes
        · refine unpackEntries_snoc hd ?_
          rw [unpackEntry, hname]
          simp only [hdir, Bool.false_eq_true, if_false]
          show (d.mkdirs path.dropLast).bind _ = _
          rw [hmade]
          exact hwritten
    | torn k why =>
      dsimp only at hact
      split at hact
      · cases hact
        exact h.acted_failed ⟨rfl, rfl⟩ _
      · cases hact
        exact ⟨h.goes_setStaging _ _, ⟨rfl, rfl⟩, rfl, .inr rfl,
          (fun todo htodo => by cases htodo), trivial⟩
  | publishing b rest bytes =>
    obtain ⟨hsha, d, hd, hstaged⟩ := hunpacks
    simp only [storeAct] at hact
    split at hact
    · cases hact
      exact lost_acted h (hensured _ rfl) hg _
    · split at hact
      · cases hact
        exact lost_acted h (hensured _ rfl) hg _
      · rename_i renamed hrename
        cases hact
        obtain ⟨hgoes, hhas⟩ := h.goes_rename hrename hg fun d' hd' => by
          cases hstaged.symm.trans hd'
          exact ⟨bytes, hsha, hd⟩
        refine ⟨hgoes, ⟨rfl, rfl⟩, rfl, .inr rfl, ?_, trivial⟩
        rintro todo heq a ha
        cases heq
        rcases hensured _ rfl a ha with hmem | hold
        · rcases List.mem_cons.mp hmem with rfl | hmem
          · exact .inr hhas
          · exact .inl hmem
        · exact .inr (hgoes.has a hold)
  | discarding b rest =>
    cases hact
    exact h.acted_same ⟨rfl, rfl⟩ rfl (.inr rfl) hensured trivial
  | _ => cases hact

end Horsie.Runtime.PluginStore
