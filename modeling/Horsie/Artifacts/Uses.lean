import Horsie.Artifacts.Store
import Horsie.Lib.Take

/-!
# A used artifact keeps its bytes

A use is marked without a look at the artifact, the row of a failed upload is taken away without a
look at the uses, and the bytes of what a release dropped are deleted once more, after its
transaction, whoever has stored them again. In a run in which no such step meets an artifact that
is used, what a session uses is complete until the session is released, and a release takes exactly
what nobody else uses.
-/

namespace Horsie.Artifacts

open Horsie.Lib

variable {sha256 : Bytes → String} {t t' : Tables} {key : BlobKey} {project session : String}

/-! ## Rows -/

theorem Tables.complete_congr (h : t'.artifacts.lookup key = t.artifacts.lookup key) :
    t'.Complete sha256 key ↔ t.Complete sha256 key := by
  unfold Tables.Complete getMeta get
  rw [h]

theorem Tables.Complete.lookup (h : t.Complete sha256 key) :
    ∃ c row, t.artifacts.lookup key = some c ∧ rowToArtifact key.artifactId c = .ok row ∧
      sha256 c.bytes = key.artifactId := by
  obtain ⟨⟨row, hrow⟩, bytes, hbytes, hsha⟩ := h
  obtain ⟨c, hc, rfl⟩ := Option.map_eq_some_iff.mp hbytes
  simp only [getMeta, hc] at hrow
  cases hr : rowToArtifact key.artifactId c with
  | error e => rw [hr] at hrow; cases hrow
  | ok row' => exact ⟨c, row', hc, hr, hsha⟩

theorem Tables.complete_of_lookup {c : Columns} {row : ArtifactRow}
    (hc : t.artifacts.lookup key = some c) (hr : rowToArtifact key.artifactId c = .ok row)
    (hsha : sha256 c.bytes = key.artifactId) : t.Complete sha256 key := by
  refine ⟨⟨row, ?_⟩, c.bytes, ?_, hsha⟩
  · simp only [getMeta, hc, hr]
    rfl
  · simp only [get, hc, Option.map_some]

theorem Tables.Complete.putBytes {bytes : Bytes} (h : t.Complete sha256 key) :
    (t.putBytes ⟨project, sha256 bytes⟩ bytes).Complete sha256 key := by
  obtain ⟨c, row, hc, hr, hsha⟩ := h.lookup
  by_cases hk : key = ⟨project, sha256 bytes⟩
  · subst hk
    have hnew : (t.putBytes ⟨project, sha256 bytes⟩ bytes).artifacts.lookup
        ⟨project, sha256 bytes⟩ = some { c with bytes } := by
      simp only [Tables.putBytes, hc, Map.lookup_insert_eq, if_true]
    exact complete_of_lookup hnew hr rfl
  · refine (complete_congr ?_).mpr h
    simp only [Tables.putBytes, Map.lookup_insert_eq, if_neg hk]

theorem Tables.Complete.insert {row : ArtifactRow} (h : t.Complete sha256 key) :
    (t.insert project row).Complete sha256 key := by
  obtain ⟨c, old, hc, hr, hsha⟩ := h.lookup
  by_cases hk : key = ⟨project, row.id⟩
  · subst hk
    have hnew : (t.insert project row).artifacts.lookup ⟨project, row.id⟩ =
        some ⟨row.mediaType, row.shape.asStr, row.byteSize, row.width, row.height, row.filename,
          c.bytes⟩ := by
      simp only [Tables.insert, hc, Map.lookup_insert_eq, if_true, Option.map_some,
        Option.getD_some]
    have hrow : rowToArtifact row.id ⟨row.mediaType, row.shape.asStr, row.byteSize, row.width,
        row.height, row.filename, c.bytes⟩ = .ok row := by
      simp only [rowToArtifact, ArtifactShape.parse_asStr]
    exact complete_of_lookup hnew hrow hsha
  · refine (complete_congr ?_).mpr h
    simp only [Tables.insert, Map.lookup_insert_eq, if_neg hk]

theorem Tables.lookup_delete (t : Tables) (keys : List BlobKey) (key : BlobKey) :
    (t.delete keys).artifacts.lookup key =
      if key ∈ keys then none else t.artifacts.lookup key := by
  have hfold : ∀ (ks : List BlobKey) (m : Map BlobKey Columns),
      (ks.foldl (fun m key => m.erase key) m).lookup key =
        if key ∈ ks then none else m.lookup key := by
    intro ks
    induction ks with
    | nil => intro m; simp
    | cons k ks ih =>
      intro m
      rw [List.foldl_cons, ih, Map.lookup_erase_eq]
      by_cases hk : key = k
      · simp [hk]
      · simp [hk]
  exact hfold keys t.artifacts

theorem Tables.Kept.of_uses (h : t.Kept sha256) (huses : t'.uses = t.uses)
    (hrows : ∀ u ∈ t.uses, t.Complete sha256 u.key → t'.Complete sha256 u.key) :
    t'.Kept sha256 := by
  intro u hu
  rw [huses] at hu
  exact hrows u hu (h u hu)

/-! ## Releases under way -/

/-- What a release has read is what is there. -/
def Call.Seen (t : Tables) : Call → Prop
  | .selected project session candidates =>
    ∀ id, id ∈ candidates ↔ ⟨project, id, session⟩ ∈ t.uses
  | .unused project session candidates removed =>
    (∀ id, id ∈ candidates ↔ ⟨project, id, session⟩ ∈ t.uses) ∧
      ∀ u, u ∈ removed ↔ u ∈ t.usesOf project session
  | .deleted project session removed ids =>
    (∀ u, u ∈ removed ↔ u ∈ t.usesOf project session) ∧
      ∀ id, id ∈ ids ↔ t.Solely project session id
  | _ => True

def Call.opened : Call → Option (String × String)
  | .selected project session _ | .unused project session _ _ | .deleted project session _ _ =>
    some (project, session)
  | _ => none

/-- What an open transaction has deleted. -/
def Call.taken : Call → List String
  | .deleted _ _ _ ids => ids
  | _ => []

/-- A use that a release under way is not about. -/
def Call.apart (u : Use) (c : Call) : Bool :=
  match c.opened with
  | none => true
  | some (project, session) =>
    u.project ≠ project ∨ (u.session ≠ session ∧ u.artifactId ∉ c.taken)

/-- A release under way that another release's commit does not change the outcome of. -/
def Call.unshared (t : Tables) (project session : String) (c : Call) : Bool :=
  match c with
  | .deleted project' session' _ _ =>
    project' ≠ project ∨ (session' ≠ session ∧
      ∀ u ∈ t.usesOf project session, ⟨project, u.artifactId, session'⟩ ∉ t.uses)
  | c => c.opened ≠ some (project, session)

/-- The commits that the rest rests on: a use is marked of a complete artifact that no release is
about to take, two releases that share an artifact do not overlap, and neither an upload that
failed nor the second deletion of a release takes what is stored again. -/
def World.heeds (sha256 : Bytes → String) (w : World) : Label → Bool
  | .call _ => true
  | .act i o =>
    !o.commits ||
      match w.calls[i]? with
      | some (.compensating key _) => ∀ u ∈ w.tables.uses, u.key ≠ key
      | some (.markUsed u) =>
        u ∈ w.tables.uses ∨
          (w.tables.Complete sha256 u.key ∧ ∀ c ∈ w.calls, c.apart u = true)
      | some (.deleted project session _ _) =>
        (w.calls.eraseIdx i).all (·.unshared w.tables project session)
      | some (.freeing project ids) =>
        ∀ id ∈ ids, w.tables.artifacts.lookup ⟨project, id⟩ = none
      | _ => true

/-- What is kept between steps. -/
structure World.Kept (sha256 : Bytes → String) (w : World) : Prop where
  tables : w.tables.Kept sha256
  seen : ∀ (i : ℕ) (c : Call), w.calls[i]? = some c → c.Seen w.tables

variable {u : Use}

theorem Tables.mem_usesOf :
    u ∈ t.usesOf project session ↔ u ∈ t.uses ∧ u.project = project ∧ u.session = session := by
  simp [usesOf]

theorem Tables.mem_usesOf_iff {id : String} :
    id ∈ (t.usesOf project session).map (·.artifactId) ↔ ⟨project, id, session⟩ ∈ t.uses := by
  rw [List.mem_map]
  constructor
  · rintro ⟨u, hu, rfl⟩
    obtain ⟨hmem, rfl, rfl⟩ := mem_usesOf.mp hu
    exact hmem
  · intro h
    exact ⟨_, mem_usesOf.mpr ⟨h, rfl, rfl⟩, rfl⟩

variable {removed : List Use}

/-- The artifacts a release deletes are those its session alone uses. -/
theorem mem_unreferenced_iff {candidates : List String} {id : String}
    (h : t.Kept sha256) (hc : ∀ id, id ∈ candidates ↔ ⟨project, id, session⟩ ∈ t.uses)
    (hr : ∀ u, u ∈ removed ↔ u ∈ t.usesOf project session) :
    id ∈ t.unreferenced project candidates removed ↔ t.Solely project session id := by
  simp only [Tables.unreferenced, List.mem_filter, decide_eq_true_eq, hc]
  constructor
  · rintro ⟨hused, -, hall⟩
    refine ⟨hused, fun u hu hkey => ?_⟩
    obtain ⟨hproject, hid⟩ := BlobKey.mk.inj hkey
    exact (Tables.mem_usesOf.mp ((hr u).mp (hall u hu hproject hid))).2.2
  · rintro ⟨hused, hall⟩
    obtain ⟨c, row, hrow, -⟩ := (h _ hused).lookup
    refine ⟨hused, ?_, fun u hu hproject hid => ?_⟩
    · exact Option.isSome_iff_exists.mpr ⟨c, hrow⟩
    · have hkey : u.key = ⟨project, id⟩ := by rw [Use.key, hproject, hid]
      exact (hr u).mpr (Tables.mem_usesOf.mpr ⟨hu, hproject, hall u hu hkey⟩)

/-! ### Other calls -/

variable {c : Call}

theorem Call.Seen.of_uses (h : c.Seen t) (huses : t'.uses = t.uses) : c.Seen t' := by
  cases c <;> simp only [Seen, Tables.usesOf, Tables.Solely, huses] at h ⊢ <;> exact h

theorem Call.Seen.of_sessions (h : c.Seen t)
    (hsame : ∀ p s, c.opened = some (p, s) →
      ∀ u : Use, u.project = p → u.session = s → (u ∈ t'.uses ↔ u ∈ t.uses))
    (hsole : ∀ p s removed ids, c = .deleted p s removed ids →
      ∀ id, t'.Solely p s id ↔ t.Solely p s id) : c.Seen t' := by
  have husesOf : ∀ p s, c.opened = some (p, s) → ∀ u, u ∈ t'.usesOf p s ↔ u ∈ t.usesOf p s := by
    intro p s hopen u
    rw [Tables.mem_usesOf, Tables.mem_usesOf]
    constructor
    · rintro ⟨hu, hp, hs⟩
      exact ⟨(hsame p s hopen u hp hs).mp hu, hp, hs⟩
    · rintro ⟨hu, hp, hs⟩
      exact ⟨(hsame p s hopen u hp hs).mpr hu, hp, hs⟩
  cases c with
  | selected p s candidates =>
    intro id
    rw [h id, hsame p s rfl _ rfl rfl]
  | unused p s candidates removed =>
    refine ⟨fun id => ?_, fun u => ?_⟩
    · rw [h.1 id, hsame p s rfl _ rfl rfl]
    · rw [h.2 u, husesOf p s rfl]
  | deleted p s removed ids =>
    refine ⟨fun u => ?_, fun id => ?_⟩
    · rw [h.1 u, husesOf p s rfl]
    · rw [h.2 id, hsole p s removed ids rfl]
  | _ => trivial

theorem Tables.mem_markUsed {v : Use} : v ∈ (t.markUsed u).uses ↔ v ∈ t.uses ∨ v = u := by
  unfold markUsed
  split_ifs with hu
  · constructor
    · exact .inl
    · rintro (hv | rfl)
      · exact hv
      · exact hu
  · rw [List.mem_append, List.mem_singleton]

theorem Call.Seen.markUsed (h : c.Seen t) (hapart : c.apart u = true) :
    c.Seen (t.markUsed u) := by
  have hother : ∀ p s, c.opened = some (p, s) →
      u.project ≠ p ∨ u.session ≠ s ∧ u.artifactId ∉ c.taken := by
    intro p s hopen
    simpa [Call.apart, hopen] using hapart
  refine h.of_sessions (fun p s hopen v hp hs => ?_) fun p s removed ids hc id => ?_
  · rw [Tables.mem_markUsed]
    refine or_iff_left ?_
    rintro rfl
    rcases hother p s hopen with hne | ⟨hne, -⟩
    · exact hne hp
    · exact hne hs
  · subst hc
    have hu : ⟨p, id, s⟩ ≠ u := by
      rintro rfl
      rcases hother p s rfl with hne | ⟨hne, -⟩
      · exact hne rfl
      · exact hne rfl
    constructor
    · rintro ⟨hused, hall⟩
      refine ⟨(Tables.mem_markUsed.mp hused).resolve_right hu, fun v hv => ?_⟩
      exact hall v (Tables.mem_markUsed.mpr (.inl hv))
    · rintro ⟨hused, hall⟩
      refine ⟨Tables.mem_markUsed.mpr (.inl hused), fun v hv hkey => ?_⟩
      rcases Tables.mem_markUsed.mp hv with hv | rfl
      · exact hall v hv hkey
      · obtain ⟨hp, hid⟩ := BlobKey.mk.inj hkey
        have htaken : id ∈ ids := (h.2 id).mpr ⟨hused, hall⟩
        rcases hother p s rfl with hne | ⟨-, hnot⟩
        · exact absurd hp hne
        · exact absurd (hid ▸ htaken) hnot

theorem mem_release {ids : List String}
    (hr : ∀ u, u ∈ removed ↔ u ∈ t.usesOf project session) :
    u ∈ (t.release project removed ids).uses ↔
      u ∈ t.uses ∧ ¬(u.project = project ∧ u.session = session) := by
  simp only [Tables.release, List.mem_filter, decide_eq_true_eq, hr, Tables.mem_usesOf]
  tauto

theorem Call.Seen.release {ids : List String} (h : c.Seen t)
    (hr : ∀ u, u ∈ removed ↔ u ∈ t.usesOf project session)
    (hunshared : c.unshared t project session = true) :
    c.Seen (t.release project removed ids) := by
  have hother : ∀ p s, c.opened = some (p, s) → ¬(p = project ∧ s = session) := by
    rintro p s hopen ⟨rfl, rfl⟩
    cases c <;> simp_all [Call.unshared, Call.opened]
  refine h.of_sessions (fun p s hopen v hp hs => ?_) fun p s removed' ids' hc id => ?_
  · rw [mem_release hr, hp, hs]
    exact and_iff_left (hother p s hopen)
  · subst hc
    have hkeep := hother p s rfl
    constructor
    · rintro ⟨hused, hall⟩
      rw [mem_release hr] at hused
      refine ⟨hused.1, fun v hv hkey => ?_⟩
      obtain ⟨hp, hid⟩ := BlobKey.mk.inj hkey
      by_cases hgone : v.project = project ∧ v.session = session
      · -- the two releases share the artifact
        obtain ⟨hproject, hsession⟩ := hgone
        simp only [Call.unshared, decide_eq_true_eq] at hunshared
        rcases hunshared with hne | ⟨-, hnone⟩
        · exact absurd (hp.symm.trans hproject) hne
        · refine absurd ?_ (hnone v (Tables.mem_usesOf.mpr ⟨hv, hproject, hsession⟩))
          rw [← hproject, hp, hid]
          exact hused.1
      · exact hall v ((mem_release hr).mpr ⟨hv, hgone⟩) hkey
    · rintro ⟨hused, hall⟩
      refine ⟨(mem_release hr).mpr ⟨hused, hkeep⟩, fun v hv hkey => ?_⟩
      exact hall v ((mem_release hr).mp hv).1 hkey

/-! ## Steps -/

theorem Outcome.seen_next {o : Outcome} (h : ∀ t, c.Seen t) :
    ∀ t, (o.next c).Seen t := by
  intro t
  cases o with
  | ok => exact h t
  | error e => trivial
  | lost e => trivial

inductive Acted (sha256 : Bytes → String) (t : Tables) (o : Outcome) : Call → Tables × Call → Prop
  | idle (c c' : Call) (hseen : t.Kept sha256 → c.Seen t → c'.Seen t) (hright : c.Right o t t) :
      Acted sha256 t o c (t, c')
  | put (project : String) (bytes : Bytes) (filename : Option String) (c' : Call)
      (ho : o.commits = true) (hseen : ∀ t, c'.Seen t) :
      Acted sha256 t o (.put project bytes filename)
        (t.putBytes ⟨project, sha256 bytes⟩ bytes, c')
  | inserted (project : String) (row : ArtifactRow) (c' : Call) (ho : o.commits = true)
      (hseen : ∀ t, c'.Seen t) :
      Acted sha256 t o (.inserting project row) (t.insert project row, c')
  | compensated (key : BlobKey) (e : String) (c' : Call) (ho : o.commits = true)
      (hseen : ∀ t, c'.Seen t) :
      Acted sha256 t o (.compensating key e) (t.delete [key], c')
  | marked (u : Use) (c' : Call) (ho : o.commits = true) (hseen : ∀ t, c'.Seen t) :
      Acted sha256 t o (.markUsed u) (t.markUsed u, c')
  | released (project session : String) (removed : List Use) (ids : List String) (c' : Call)
      (ho : o.commits = true) (hseen : ∀ t, c'.Seen t) :
      Acted sha256 t o (.deleted project session removed ids)
        (t.release project removed ids, c')
  | freed (project : String) (ids : List String) (c' : Call) (ho : o.commits = true)
      (hseen : ∀ t, c'.Seen t) :
      Acted sha256 t o (.freeing project ids) (t.delete (ids.map (⟨project, ·⟩)), c')

theorem Acted.commit {o : Outcome} {c' : Call}
    (h : o.commits = true → Acted sha256 t o c (t', c'))
    (hseen : ∀ t, c'.Seen t) (hright : o.commits = false → c.Right o t t) :
    Acted sha256 t o c (o.commit t t', c') := by
  unfold Outcome.commit
  cases ho : o.commits with
  | true => exact h ho
  | false => exact .idle c c' (fun _ _ => hseen t) (hright ho)

theorem acted_act (t : Tables) (c : Call) (o : Outcome) :
    Acted sha256 t o c (act sha256 t c o) := by
  cases c with
  | put project bytes filename =>
    simp only [act]
    split_ifs
    · exact .idle _ _ (fun _ _ => trivial) fun u hu => hu
    · split
      · exact .idle _ _ (fun _ _ => trivial) fun u hu => hu
      · rename_i sniffed _
        have hseen := Outcome.seen_next (o := o)
          (c := .inserting project (rowOf sha256 sniffed bytes filename)) fun _ => trivial
        exact .commit (fun ho => .put project bytes filename _ ho hseen) hseen fun _ u hu => hu
  | inserting project row =>
    have hseen : ∀ t : Tables, (act sha256 t (.inserting project row) o).2.Seen t := by
      intro t
      cases o <;> trivial
    exact .commit (fun ho => .inserted project row _ ho hseen) hseen fun _ u hu => hu
  | compensating key e =>
    exact .commit (fun ho => .compensated key e _ ho fun _ => trivial) (fun _ => trivial)
      fun _ u hu => hu
  | markUsed u =>
    have hseen := Outcome.seen_next (o := o) (c := .finished .marked) fun _ => trivial
    exact .commit (fun ho => .marked u _ ho hseen) hseen fun _ v hv => hv
  | release project session =>
    refine .idle _ _ (fun _ _ => ?_) fun u hu => hu
    cases o with
    | ok => exact fun id => Tables.mem_usesOf_iff
    | error e => trivial
    | lost e => trivial
  | selected project session candidates =>
    refine .idle _ _ (fun _ hc => ?_) fun u hu => hu
    cases o with
    | ok =>
      simp only [Outcome.next]
      split_ifs with hempty
      · rw [List.isEmpty_iff] at hempty
        subst hempty
        refine ⟨fun u => Iff.rfl, fun id => ?_⟩
        exact iff_of_false (List.not_mem_nil) fun hsole => List.not_mem_nil ((hc id).mpr hsole.1)
      · exact ⟨hc, fun u => Iff.rfl⟩
    | error e => trivial
    | lost e => trivial
  | unused project session candidates removed =>
    refine .idle _ _ (fun hkept hc => ?_) fun u hu => hu
    cases o with
    | ok => exact ⟨hc.2, fun id => mem_unreferenced_iff hkept hc.1 hc.2⟩
    | error e => trivial
    | lost e => trivial
  | deleted project session removed ids =>
    have hseen : ∀ t : Tables, (o.next (if ids.isEmpty then .finished (.released []) else
        .freeing project ids)).Seen t := by
      refine Outcome.seen_next fun t => ?_
      split_ifs <;> trivial
    refine .commit (fun ho => .released project session removed ids _ ho hseen) hseen fun ho => ?_
    simp [Call.Right, ho]
  | freeing project ids =>
    have hseen := Outcome.seen_next (o := o) (c := .finished (.released ids)) fun _ => trivial
    exact .commit (fun ho => .freed project ids _ ho hseen) hseen fun _ => ⟨rfl, fun _ => rfl⟩
  | finished answer => exact .idle _ _ (fun _ _ => trivial) fun u hu => hu

variable {w w' : World} {i : ℕ} {o : Outcome} {c : Call} {x : Tables × Call}

theorem Acted.kept (h : Acted sha256 w.tables o c x) (hw : w.Kept sha256)
    (hi : w.calls[i]? = some c) (hg : w.heeds sha256 (.act i o) = true) : x.1.Kept sha256 := by
  cases h with
  | idle c c' => exact hw.tables
  | put project bytes filename c' ho =>
    exact hw.tables.of_uses rfl fun u _ hu => hu.putBytes
  | inserted project row c' ho => exact hw.tables.of_uses rfl fun u _ hu => hu.insert
  | compensated key e c' ho =>
    simp only [World.heeds, hi, ho, Bool.not_true, Bool.false_or, decide_eq_true_eq] at hg
    refine hw.tables.of_uses rfl fun u hmem hu => (Tables.complete_congr ?_).mpr hu
    rw [Tables.lookup_delete, if_neg]
    rw [List.mem_singleton]
    exact hg u hmem
  | marked u c' ho =>
    simp only [World.heeds, hi, ho, Bool.not_true, Bool.false_or, decide_eq_true_eq] at hg
    intro v hv
    have hcomplete : w.tables.Complete sha256 v.key := by
      rcases Tables.mem_markUsed.mp hv with hv | rfl
      · exact hw.tables v hv
      · rcases hg with hmem | ⟨hcomplete, -⟩
        · exact hw.tables v hmem
        · exact hcomplete
    refine (Tables.complete_congr ?_).mpr hcomplete
    unfold Tables.markUsed
    split_ifs <;> rfl
  | released project session removed ids c' ho =>
    obtain ⟨hremoved, hids⟩ : Call.Seen w.tables (.deleted project session removed ids) :=
      hw.seen i _ hi
    intro u hu
    obtain ⟨hmem, hkeep⟩ := (mem_release hremoved).mp hu
    refine (Tables.complete_congr ?_).mpr (hw.tables u hmem)
    show (w.tables.delete _).artifacts.lookup u.key = _
    rw [Tables.lookup_delete, if_neg]
    intro hgone
    obtain ⟨id, hid, hkey⟩ := List.mem_map.mp hgone
    exact hkeep ⟨(congrArg BlobKey.project hkey).symm, ((hids id).mp hid).2 u hmem hkey.symm⟩
  | freed project ids c' ho =>
    simp only [World.heeds, hi, ho, Bool.not_true, Bool.false_or, decide_eq_true_eq] at hg
    refine hw.tables.of_uses rfl fun u hmem hu => (Tables.complete_congr ?_).mpr hu
    rw [Tables.lookup_delete]
    split_ifs with hgone
    · obtain ⟨id, hid, hkey⟩ := List.mem_map.mp hgone
      rw [← hkey, hg id hid]
    · rfl

theorem Acted.seen_other (h : Acted sha256 w.tables o c x) (hw : w.Kept sha256)
    (hi : w.calls[i]? = some c) (hg : w.heeds sha256 (.act i o) = true) {j : ℕ} {d : Call}
    (hj : w.calls[j]? = some d) (hne : j ≠ i) : d.Seen x.1 := by
  have hd := hw.seen j d hj
  cases h with
  | idle c c' => exact hd
  | put project bytes filename c' ho => exact hd.of_uses rfl
  | inserted project row c' ho => exact hd.of_uses rfl
  | compensated key e c' ho => exact hd.of_uses rfl
  | marked u c' ho =>
    simp only [World.heeds, hi, ho, Bool.not_true, Bool.false_or, decide_eq_true_eq] at hg
    rcases hg with hmem | ⟨-, hapart⟩
    · refine hd.of_uses ?_
      rw [Tables.markUsed, if_pos hmem]
    · exact hd.markUsed (hapart d (List.mem_of_getElem? hj))
  | released project session removed ids c' ho =>
    simp only [World.heeds, hi, ho, Bool.not_true, Bool.false_or, List.all_eq_true] at hg
    have hseen : Call.Seen w.tables (.deleted project session removed ids) := hw.seen i _ hi
    exact hd.release hseen.1 (hg d (List.mem_eraseIdx_iff_getElem?.mpr ⟨j, hne, hj⟩))
  | freed project ids c' ho => exact hd.of_uses rfl

theorem Acted.seen (h : Acted sha256 w.tables o c x) (hw : w.Kept sha256)
    (hi : w.calls[i]? = some c) : x.2.Seen x.1 := by
  cases h with
  | idle c c' hseen => exact hseen hw.tables (hw.seen i _ hi)
  | put project bytes filename c' ho hseen => exact hseen _
  | inserted project row c' ho hseen => exact hseen _
  | compensated key e c' ho hseen => exact hseen _
  | marked u c' ho hseen => exact hseen _
  | released project session removed ids c' ho hseen => exact hseen _
  | freed project ids c' ho hseen => exact hseen _

/-- A release takes what its session alone uses, and nothing else takes anything that is used. -/
theorem Acted.right (h : Acted sha256 w.tables o c x) (hw : w.Kept sha256)
    (hi : w.calls[i]? = some c) (hg : w.heeds sha256 (.act i o) = true) :
    c.Right o w.tables x.1 := by
  cases h with
  | idle c c' hseen hright => exact hright
  | put project bytes filename c' ho => exact fun u hu => hu
  | inserted project row c' ho => exact fun u hu => hu
  | compensated key e c' ho => exact fun u hu => hu
  | marked u c' ho => exact fun v hv => Tables.mem_markUsed.mpr (.inl hv)
  | released project session removed ids c' ho =>
    obtain ⟨hremoved, hids⟩ : Call.Seen w.tables (.deleted project session removed ids) :=
      hw.seen i _ hi
    simp only [Call.Right, ho, if_true]
    refine ⟨fun u => mem_release hremoved, fun id hsole => ?_, fun key hnot => ?_⟩
    · show (w.tables.delete _).artifacts.lookup _ = _
      rw [Tables.lookup_delete, if_pos]
      exact List.mem_map_of_mem ((hids id).mpr hsole)
    · show (w.tables.delete _).artifacts.lookup _ = _
      rw [Tables.lookup_delete, if_neg]
      intro hgone
      obtain ⟨id, hid, rfl⟩ := List.mem_map.mp hgone
      exact hnot ⟨rfl, (hids id).mp hid⟩
  | freed project ids c' ho =>
    simp only [World.heeds, hi, ho, Bool.not_true, Bool.false_or, decide_eq_true_eq] at hg
    refine ⟨rfl, fun key => ?_⟩
    rw [Tables.lookup_delete]
    split_ifs with hgone
    · obtain ⟨id, hid, rfl⟩ := List.mem_map.mp hgone
      exact (hg id hid).symm
    · rfl

theorem Request.seen_call (r : Request) (t : Tables) : r.call.Seen t := by
  cases r <;> trivial

theorem World.Kept.step {l : Label} (h : w.Kept sha256) (hg : w.heeds sha256 l = true)
    (hw : w.step? sha256 l = some w') : w'.Kept sha256 ∧ w.Right l w' := by
  cases l with
  | call r =>
    cases hw
    refine ⟨⟨h.tables, fun i c hi => ?_⟩, rfl⟩
    rcases getElem?_snoc_cases hi with hi | ⟨-, rfl⟩
    · exact h.seen i c hi
    · exact r.seen_call _
  | act i o =>
    simp only [World.step?] at hw
    split at hw
    · cases hw
    · rename_i c hi
      cases hw
      have hacted : Acted sha256 w.tables o c (act sha256 w.tables c o) := acted_act _ _ _
      refine ⟨⟨hacted.kept h hi hg, fun j d hj => ?_⟩, fun c' hc' => ?_⟩
      · rcases getElem?_set_cases hj with ⟨-, rfl⟩ | ⟨hne, hj⟩
        · exact hacted.seen h hi
        · exact hacted.seen_other h hi hg hj hne
      · cases hi.symm.trans hc'
        exact hacted.right h hi hg

/-- Nothing is under way, and what is used is complete. -/
structure World.Fresh (sha256 : Bytes → String) (w : World) : Prop where
  tables : w.tables.Kept sha256
  calls : w.calls = []

theorem World.Fresh.kept (h : w.Fresh sha256) : w.Kept sha256 where
  tables := h.tables
  seen i c hi := by
    rw [h.calls] at hi
    cases hi

def artifacts (sha256 : Bytes → String) : System World Label where
  Init := World.Fresh sha256
  Step w l w' := w.step? sha256 l = some w'

/-- In a run that heeds what is used, every artifact that a session has marked and not released has
its metadata and the bytes with its hash in every state, and every release takes exactly what no
other session uses. -/
theorem used_kept {tr : List (World × Label × World)} (hw : w.Fresh sha256)
    (h : (artifacts sha256).Exec w tr w') (hg : ∀ x ∈ tr, World.heeds sha256 x.1 x.2.1 = true) :
    ∀ x ∈ tr, x.2.2.tables.Kept sha256 ∧ World.Right x.1 x.2.1 x.2.2 := by
  intro x hx
  have hstep : ∀ s l s', (artifacts sha256).Reachable s → s.Kept sha256 →
      s.heeds sha256 l = true → (artifacts sha256).Step s l s' → s'.Kept sha256 :=
    fun s l s' _ hs hheeds hs' => (hs.step hheeds hs').1
  obtain ⟨hkept, hxstep⟩ := h.guarded_mem hstep (.init hw) hw.kept hg hx
  obtain ⟨hkept', hright⟩ := hkept.step (hg x hx) hxstep
  exact ⟨hkept'.tables, hright⟩

/-! ## Two sessions and one document -/

def pdfBytes : Bytes := [0x25, 0x50, 0x44, 0x46, 0x2D, 0x31, 0x2E, 0x37]

def pdfId : String := "86edbaa24831badfa0a8b04bb410141e2ee4182b6d0014493fe262a7a331c20b"

/-- The hash of the document, as far as it is needed. -/
def pdfSha256 (bytes : Bytes) : String := if bytes = pdfBytes then pdfId else ""

def emptyWorld : World := ⟨⟨∅, []⟩, []⟩

theorem fresh_emptyWorld : emptyWorld.Fresh sha256 := ⟨fun _ hu => (by cases hu), rfl⟩

/-- A document is uploaded and used in two sessions; the first release leaves it, the second takes
it. -/
theorem used_kept_released : ∃ tr w', (artifacts pdfSha256).Exec emptyWorld tr w' ∧
    (∀ x ∈ tr, x.2.2.tables.Kept pdfSha256 ∧ World.Right x.1 x.2.1 x.2.2) ∧
    w'.calls.drop 3 = [.finished (.released []), .finished (.released [pdfId])] := by
  have hrun : ((System.steps?
      (System.guarded? (fun w l => World.heeds pdfSha256 w l = true) (World.step? pdfSha256))
      emptyWorld
      [.call (.put "p" pdfBytes none), .act 0 .ok, .act 0 .ok,
        .call (.markUsed ⟨"p", pdfId, "a"⟩), .act 1 .ok, .call (.markUsed ⟨"p", pdfId, "b"⟩),
        .act 2 .ok, .call (.release "p" "a"), .act 3 .ok, .act 3 .ok, .act 3 .ok, .act 3 .ok,
        .call (.release "p" "b"), .act 4 .ok, .act 4 .ok, .act 4 .ok, .act 4 .ok,
        .act 4 .ok]).map fun w => w.calls.drop 3) =
      some [.finished (.released []), .finished (.released [pdfId])] := by
    decide +kernel
  obtain ⟨w', hw', hproj⟩ := Option.map_eq_some_iff.mp hrun
  obtain ⟨tr, htr, -, hg⟩ := System.exec_of_guarded? (M := artifacts pdfSha256)
    (fun _ _ _ _ hstep => hstep) hw'
  exact ⟨tr, w', htr, used_kept fresh_emptyWorld htr hg, hproj⟩

/-- A session is released, and before the bytes of its document are deleted once more another
session stores the same document and uses it. -/
theorem freed_while_used : ¬∀ (sha256 : Bytes → String) (w w' : World)
    (tr : List (World × Label × World)), w.Fresh sha256 → (artifacts sha256).Exec w tr w' →
      ∀ x ∈ tr, x.2.2.tables.Kept sha256 ∧ World.Right x.1 x.2.1 x.2.2 := by
  intro h
  have hrun : ((System.steps? (World.step? pdfSha256) emptyWorld
      [.call (.put "p" pdfBytes none), .act 0 .ok, .act 0 .ok,
        .call (.markUsed ⟨"p", pdfId, "a"⟩), .act 1 .ok,
        .call (.release "p" "a"), .act 2 .ok, .act 2 .ok, .act 2 .ok, .act 2 .ok,
        .call (.put "p" pdfBytes none), .act 3 .ok, .act 3 .ok,
        .call (.markUsed ⟨"p", pdfId, "b"⟩), .act 4 .ok]).map fun w =>
      (w.tables.uses, w.step? pdfSha256 (.act 2 .ok) |>.map fun w' =>
        (w'.tables.uses, w'.tables.get ⟨"p", pdfId⟩))) =
      some ([⟨"p", pdfId, "b"⟩], some ([⟨"p", pdfId, "b"⟩], none)) := by
    decide +kernel
  obtain ⟨w, hw, hproj⟩ := Option.map_eq_some_iff.mp hrun
  obtain ⟨w', hstep, hgone⟩ := Option.map_eq_some_iff.mp (Prod.mk.inj hproj).2
  obtain ⟨huses, hget⟩ := Prod.mk.inj hgone
  obtain ⟨tr, htr, -⟩ := System.exec_of_steps? (M := artifacts pdfSha256)
    (fun _ _ _ hs => hs) hw
  obtain ⟨hkept, -⟩ := h pdfSha256 _ _ _ fresh_emptyWorld (htr.snoc hstep) _
    (List.mem_append_right _ (List.mem_singleton_self _))
  have hused : (⟨"p", pdfId, "b"⟩ : Use) ∈ w'.tables.uses := by
    rw [huses]
    exact List.mem_singleton_self _
  obtain ⟨-, bytes, hbytes, -⟩ := hkept _ hused
  rw [Use.key, hget] at hbytes
  cases hbytes

end Horsie.Artifacts
