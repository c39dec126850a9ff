import Horsie.Runtime.Deployment

/-!
# What the orphan sweep destroys

The sweep destroys by inventory: what it read and the session list does not name. The list names
sessions and the inventory names runtimes, so the machine of any runtime is condemned
(`condemned_machine`). A sweep therefore spares the recorded runtimes exactly as long as no
inventory it reads holds one of theirs (`sweep_spares_recorded`): what it has read stays an orphan,
since no id is minted twice.
-/

namespace Horsie.Runtime

open Lib

namespace Deployment

/-- A session has a record of the runtime, written or about to be. -/
def Known (d : Deployment) (r : String) : Prop := ∃ s ∈ d.sessions, ∃ rec ∈ s.runtimes, rec.id = r

/-- A session of a registry records the runtime, in whatever provisioning state. -/
def Recorded (d : Deployment) (r : String) : Prop :=
  ∃ s ∈ d.sessions, s.listed = true ∧ ∃ rec ∈ s.runtimes, rec.id = r ∧ rec.written = true

def Holds (d : Deployment) (o : Object) : Prop := ∃ app, o ∈ (d.apps app).objects

/-- Every machine and volume of a recorded runtime is still there. -/
def Keeps (d t : Deployment) : Prop :=
  ∀ app kind o r, o ∈ (d.apps app).of kind → o.madeFor = some r → d.Recorded r →
    o ∈ (t.apps app).of kind

def condemns (d : Deployment) (w : Sweep) : List Object :=
  match w.stage, w.vendors with
  | .vendors, .fly app _ :: _ => (d.apps app).machines.filter (condemned w.live .machine)
  | .swept app, _ => (d.apps app).volumes.filter (condemned w.live .volume)
  | _, _ => []

/-- Nothing a sweep is about to read and condemn is of a runtime a session knows. -/
def Spares (d : Deployment) : Label → Prop
  | .sweep task true =>
    ∀ w ∈ d.sweeps[task]?, ∀ o ∈ d.condemns w, ∀ r ∈ o.madeFor, ¬d.Known r
  | _ => True

instance (d : Deployment) (r : String) : Decidable (d.Known r) :=
  inferInstanceAs (Decidable (∃ s ∈ d.sessions, ∃ rec ∈ s.runtimes, rec.id = r))

instance (d : Deployment) (r : String) : Decidable (d.Recorded r) :=
  inferInstanceAs (Decidable (∃ s ∈ d.sessions, s.listed = true ∧
    ∃ rec ∈ s.runtimes, rec.id = r ∧ rec.written = true))

instance (d : Deployment) : ∀ l, Decidable (d.Spares l)
  | .sweep task true => inferInstanceAs (Decidable
      (∀ w ∈ d.sweeps[task]?, ∀ o ∈ d.condemns w, ∀ r ∈ o.madeFor, ¬d.Known r))
  | .sweep _ false | .configure _ _ | .createSession _ _ _ | .list _ | .deleteSession _
  | .provision _ _ _ _ | .persist _ | .lose _ | .create _ _ | .finishProvisioning _
  | .killCreate _ | .foreign _ _ _ | .vanish _ _ _ | .openProject _ | .killSweep _ =>
    .isTrue trivial

end Deployment

def Sweep.targets (w : Sweep) : List Object :=
  match w.stage with
  | .left _ kind objects => objects.filter (condemned w.live kind)
  | .listing | .listed | .vendors | .swept _ => []

theorem Deployment.Recorded.known {d : Deployment} {r : String} (h : d.Recorded r) : d.Known r := by
  obtain ⟨s, hs, -, rec, hrec, rfl, -⟩ := h
  exact ⟨s, hs, rec, hrec, rfl⟩

/-! ## What one step can do -/

section

variable {d t : Deployment}

/-- A step from `d` to `t`, as far as ids and inventories go. -/
structure Grows (d t : Deployment) : Prop where
  ids : d.nextId ≤ t.nextId
  minted : d.runtimeIds ⊆ t.runtimeIds
  known : ∀ r, t.Known r → d.Known r ∨ r ∉ d.runtimeIds ∧ r ∈ t.runtimeIds
  creates : ∀ c ∈ t.creates, (∃ c' ∈ d.creates, c'.runtime = c.runtime) ∨ d.Known c.runtime ∨
    c.runtime ∈ t.runtimeIds
  held : ∀ o, t.Holds o → d.Holds o ∨ o.id = d.nextId ∧ o.id < t.nextId ∧
    ∀ r, o.madeFor = some r → ∃ c ∈ d.creates, c.runtime = r
  one : ∀ o o', t.Holds o → t.Holds o' → d.Holds o ∨ d.Holds o' ∨ o = o'
  targets : ∀ w ∈ t.sweeps, ∀ x ∈ w.targets, (∃ w' ∈ d.sweeps, x ∈ w'.targets) ∨
    d.Holds x ∧ ∀ r, x.madeFor = some r → ¬d.Known r

theorem Grows.of_sessions (hi : t.nextId = d.nextId) (ha : t.apps = d.apps)
    (hw : ∀ w ∈ t.sweeps, w ∈ d.sweeps ∨ w.targets = []) (hm : d.runtimeIds ⊆ t.runtimeIds)
    (hk : ∀ r, t.Known r → d.Known r ∨ r ∉ d.runtimeIds ∧ r ∈ t.runtimeIds)
    (hc : ∀ c ∈ t.creates, (∃ c' ∈ d.creates, c'.runtime = c.runtime) ∨ d.Known c.runtime ∨
      c.runtime ∈ t.runtimeIds) : Grows d t where
  ids := Nat.le_of_eq hi.symm
  minted := hm
  known := hk
  creates := hc
  held o ho := .inl (by rwa [Deployment.Holds, ha] at ho)
  one o _ ho _ := .inl (by rwa [Deployment.Holds, ha] at ho)
  targets w hwt x hx := by
    rcases hw w hwt with h | h
    · exact .inl ⟨w, h, hx⟩
    · rw [h] at hx
      cases hx

variable {r session : String}

theorem Deployment.known_mapSession {f : Session → Session}
    (hf : ∀ s, ∀ rec ∈ (f s).runtimes, ∃ rec' ∈ s.runtimes, rec'.id = rec.id)
    (h : (d.mapSession session f).Known r) : d.Known r := by
  obtain ⟨s', hs', rec, hrec, rfl⟩ := h
  obtain ⟨s, hs, rfl⟩ := List.mem_map.mp hs'
  split at hrec
  · obtain ⟨rec', hrec', hid⟩ := hf s rec hrec
    exact ⟨s, hs, rec', hrec', hid⟩
  · exact ⟨s, hs, rec, hrec, rfl⟩

theorem Grows.mapSession {f : Session → Session}
    (hf : ∀ s, ∀ rec ∈ (f s).runtimes, ∃ rec' ∈ s.runtimes, rec'.id = rec.id) :
    Grows d (d.mapSession session f) :=
  .of_sessions rfl rfl (fun _ h => .inl h) (List.Subset.refl _)
    (fun _ h => .inl (Deployment.known_mapSession hf h)) fun c hc => .inl ⟨c, hc, rfl⟩

theorem Session.setProvisioning_ids (s : Session) (runtime : String) (p : ProvisioningState) :
    ∀ rec ∈ (s.setProvisioning runtime p).runtimes, ∃ rec' ∈ s.runtimes, rec'.id = rec.id := by
  intro rec hrec
  obtain ⟨rec', hrec', rfl⟩ := List.mem_map.mp hrec
  refine ⟨rec', hrec', ?_⟩
  split <;> rfl

theorem Session.provision_id {s : Session} {owner fresh runtime vendor : String}
    {env : Option String} {requested : Bool}
    (h : s.provision owner env fresh = some (runtime, vendor, requested)) :
    requested = true ∧ runtime = fresh ∨
      requested = false ∧ ∃ rec ∈ s.runtimes, rec.id = runtime := by
  unfold Session.provision at h
  split at h
  · rename_i r rest hr
    split at h
    · cases h
    · obtain ⟨rfl, -, rfl⟩ := by simpa using h
      have hmem : r ∈ s.runtimesOwnedBy owner := by rw [hr]; exact List.mem_cons_self
      exact .inr ⟨rfl, r, List.mem_of_mem_filter hmem, rfl⟩
  · obtain ⟨rfl, -, rfl⟩ := by simpa using h
    exact .inl ⟨rfl, rfl⟩
  · split at h
    · obtain ⟨v, -, h⟩ := Option.map_eq_some_iff.mp h
      obtain ⟨rfl, -, rfl⟩ := by simpa using h
      exact .inl ⟨rfl, rfl⟩
    · cases h

theorem Grows.refl (d : Deployment) : Grows d d :=
  .of_sessions rfl rfl (fun _ h => .inl h) (List.Subset.refl _) (fun _ h => .inl h)
    fun c hc => .inl ⟨c, hc, rfl⟩

theorem Deployment.known_record {rec : RuntimeRecord}
    (h : (d.record session rec).Known r) : d.Known r ∨ r = rec.id := by
  obtain ⟨s', hs', rec', hrec, rfl⟩ := h
  obtain ⟨s, hs, rfl⟩ := List.mem_map.mp hs'
  split at hrec
  · rcases List.mem_append.mp hrec with h | h
    · exact .inl ⟨s, hs, rec', h, rfl⟩
    · exact .inr (by rw [List.mem_singleton.mp h])
  · exact .inl ⟨s, hs, rec', hrec, rfl⟩

theorem grows_provision {s : Session} {owner fresh : String} {env : Option String}
    (hs : s ∈ d.sessions) (hfresh : fresh ∉ d.runtimeIds) :
    Grows d (d.provision s owner env fresh) := by
  unfold Deployment.provision
  split
  · exact .refl d
  · rename_i runtime vendor requested h
    rcases Session.provision_id h with ⟨rfl, rfl⟩ | ⟨rfl, rec, hrec, rfl⟩
    · have hmem : runtime ∈ runtime :: d.runtimeIds := List.mem_cons_self
      refine .of_sessions rfl rfl (fun _ h => .inl h) (List.subset_cons_self _ _)
        (fun r hr => ?_) fun c hc => ?_
      · rcases Deployment.known_record hr with h | rfl
        · exact .inl h
        · exact .inr ⟨hfresh, hmem⟩
      · rcases List.mem_append.mp hc with h | h
        · exact .inl ⟨c, h, rfl⟩
        · exact .inr (.inr (by rw [List.mem_singleton.mp h]; exact hmem))
    · refine .of_sessions rfl rfl (fun _ h => .inl h) (List.Subset.refl _)
        (fun r hr => .inl (Deployment.known_mapSession (d := d.spawn _)
          (fun s => s.setProvisioning_ids _ _) hr)) fun c hc => ?_
      rcases List.mem_append.mp hc with h | h
      · exact .inl ⟨c, h, rfl⟩
      · exact .inr (.inl (by rw [List.mem_singleton.mp h]; exact ⟨s, hs, rec, hrec, rfl⟩))

variable {app : String} {kind : Kind} {o : Object}

theorem Deployment.holds_make {name : String} {r : Option String}
    (h : (d.make app kind name r).Holds o) : d.Holds o ∨ o = ⟨d.nextId, name, r⟩ := by
  obtain ⟨b, hb⟩ := h
  by_cases hba : b = app
  · subst hba
    rw [show (d.make b kind name r).apps b = _ from Function.update_self ..] at hb
    rcases App.mem_add.mp hb with h | h
    · exact .inl ⟨b, h⟩
    · exact .inr h
  · rw [show (d.make app kind name r).apps b = d.apps b from Function.update_of_ne hba ..] at hb
    exact .inl ⟨b, hb⟩

theorem Deployment.holds_destroy {id : ℕ}
    (h : (d.destroy app kind id).Holds o) : d.Holds o := by
  obtain ⟨b, hb⟩ := h
  by_cases hba : b = app
  · subst hba
    rw [Deployment.apps_destroy_self] at hb
    obtain ⟨k, hk⟩ := App.mem_objects.mp hb
    exact ⟨b, App.mem_objects.mpr ⟨k, App.mem_of_mem_destroy hk⟩⟩
  · rw [Deployment.apps_destroy_of_ne hba] at hb
    exact ⟨b, hb⟩

theorem Grows.of_apps (hi : t.nextId = d.nextId) (hs : t.sessions = d.sessions)
    (hm : t.runtimeIds = d.runtimeIds) (hc : ∀ c ∈ t.creates, c ∈ d.creates)
    (hh : ∀ o, t.Holds o → d.Holds o)
    (hw : ∀ w ∈ t.sweeps, ∀ x ∈ w.targets, (∃ w' ∈ d.sweeps, x ∈ w'.targets) ∨
      d.Holds x ∧ ∀ r, x.madeFor = some r → ¬d.Known r) : Grows d t where
  ids := Nat.le_of_eq hi.symm
  minted := by rw [hm]; exact List.Subset.refl _
  known r hr := .inl (by rwa [Deployment.Known, hs] at hr)
  creates c h := .inl ⟨c, hc c h, rfl⟩
  held o ho := .inl (hh o ho)
  one o _ ho _ := .inl (hh o ho)
  targets := hw

theorem Grows.make {name : String} {r : Option String} {creates : List Create}
    (hr : ∀ x, r = some x → ∃ c ∈ d.creates, c.runtime = x)
    (hc : ∀ c ∈ creates, ∃ c' ∈ d.creates, c'.runtime = c.runtime) :
    Grows d { d.make app kind name r with creates } where
  ids := Nat.le_succ _
  minted := List.Subset.refl _
  known _ hk := .inl hk
  creates c h := .inl (hc c h)
  held o ho := by
    rcases Deployment.holds_make (d := d) ho with h | rfl
    · exact .inl h
    · exact .inr ⟨rfl, Nat.lt_succ_self _, hr⟩
  one o o' ho ho' := by
    rcases Deployment.holds_make (d := d) ho with h | rfl
    · exact .inl h
    · exact (Deployment.holds_make (d := d) ho').elim (.inr ∘ .inl) fun h => .inr (.inr h.symm)
  targets w hw x hx := .inl ⟨w, hw, hx⟩

theorem createNext_spec (d : Deployment) (c : Create) (ok : Bool) :
    (d.createNext c ok).1 = d ∨ ∃ app kind name,
      (d.createNext c ok).1 = d.make app kind name (some c.runtime) := by
  unfold Deployment.createNext
  cases c.stage with
  | called =>
    cases ok with
    | false => exact .inl rfl
    | true =>
      cases d.vendor? c.project c.vendor with
      | none => exact .inl rfl
      | some v =>
        match v with
        | .other => exact .inl rfl
        | .fly _ true => exact .inr ⟨_, _, _, rfl⟩
        | .fly _ false => exact .inr ⟨_, _, _, rfl⟩
  | mounted app =>
    cases ok with
    | false => exact .inl rfl
    | true => exact .inr ⟨_, _, _, rfl⟩
  | reported ok => exact .inl rfl

variable {w : Sweep}

theorem Sweep.targets_cons
    {rest : List Object} (h : w.stage = .left app kind (o :: rest)) :
    (∀ x ∈ { w with stage := .left app kind rest }.targets, x ∈ w.targets) ∧
      (condemned w.live kind o = true → o ∈ w.targets) := by
  simp only [Sweep.targets, h, List.mem_filter, List.mem_cons]
  exact ⟨fun x hx => ⟨.inr hx.1, hx.2⟩, fun hc => ⟨.inl trivial, hc⟩⟩

/-- One call of a sweep destroys at most one thing the sweep had read and condemned, and what is
left of the sweep is what it had read or reads now. -/
structure Called (d : Deployment) (w : Sweep) (ok : Bool) (next : Deployment × Option Sweep) :
    Prop where
  destroys : next.1 = d ∨ ∃ app kind, ∃ o ∈ w.targets, next.1 = d.destroy app kind o.id
  left : ∀ w', next.2 = some w' → ∀ x ∈ w'.targets, x ∈ w.targets ∨ ok = true ∧ x ∈ d.condemns w

variable {ok : Bool}

theorem Called.ended : Called d w ok (d, none) :=
  ⟨.inl rfl, fun _ h => by cases h⟩

theorem Called.quiet {v : Sweep}
    (hv : ∀ x ∈ v.targets, x ∈ w.targets ∨ ok = true ∧ x ∈ d.condemns w) :
    Called d w ok (d, some v) :=
  ⟨.inl rfl, fun _ h => Option.some.inj h ▸ hv⟩

theorem called_sweepNext (d : Deployment) (w : Sweep) (ok : Bool) :
    Called d w ok (d.sweepNext w ok) := by
  unfold Deployment.sweepNext
  cases hs : w.stage with
  | listing =>
    cases ok with
    | false => exact .ended
    | true => exact .quiet (by simp [Sweep.targets])
  | listed => exact .quiet (by simp [Sweep.targets])
  | vendors =>
    match hv : w.vendors with
    | [] => exact .ended
    | .other :: rest => exact .quiet (by simp [Sweep.targets, hs])
    | .fly app _ :: rest =>
      cases ok with
      | false => exact .quiet (by simp [Sweep.targets, hs])
      | true => exact .quiet fun x hx => .inr ⟨rfl, by rw [Deployment.condemns, hs, hv]; exact hx⟩
  | swept app =>
    cases ok with
    | false => exact .quiet (by simp [Sweep.targets])
    | true => exact .quiet fun x hx => .inr ⟨rfl, by rw [Deployment.condemns, hs]; exact hx⟩
  | left app kind objects =>
    match kind, objects with
    | .machine, [] => exact .quiet (by simp [Sweep.targets])
    | .volume, [] => exact .quiet (by simp [Sweep.targets])
    | .machine, o :: rest =>
      obtain ⟨hrest, ho⟩ := Sweep.targets_cons hs
      refine ⟨?_, fun w' h x hx => .inl (hrest x (Option.some.inj h ▸ hx))⟩
      by_cases hc : (condemned w.live .machine o && ok) = true
      · exact .inr ⟨app, .machine, o, ho (Bool.and_eq_true_iff.mp hc).1, if_pos hc⟩
      · exact .inl (if_neg hc)
    | .volume, o :: rest =>
      obtain ⟨hrest, ho⟩ := Sweep.targets_cons hs
      dsimp only
      split
      · rename_i hc
        cases ok with
        | false => exact .quiet (by simp [Sweep.targets])
        | true => exact ⟨.inr ⟨app, .volume, o, ho hc, rfl⟩, fun w' h x hx =>
            .inl (hrest x (Option.some.inj h ▸ hx))⟩
      · exact .quiet fun x hx => .inl (hrest x hx)

theorem Deployment.holds_of_condemns (h : o ∈ d.condemns w) :
    d.Holds o := by
  unfold Deployment.condemns at h
  split at h
  · exact ⟨_, App.mem_objects.mpr ⟨.machine, List.mem_of_mem_filter h⟩⟩
  · exact ⟨_, App.mem_objects.mpr ⟨.volume, List.mem_of_mem_filter h⟩⟩
  · cases h

variable {task : ℕ}

theorem grows_sweep (hw : d.sweeps[task]? = some w)
    (hs : d.Spares (.sweep task ok)) :
    Grows d ((d.sweepNext w ok).1.putSweep task (d.sweepNext w ok).2) := by
  obtain ⟨hd, hleft⟩ := called_sweepNext d w ok
  have hmem := List.mem_of_getElem? hw
  generalize d.sweepNext w ok = next at hd hleft ⊢
  obtain ⟨d', w'⟩ := next
  have hsweeps : d'.sweeps = d.sweeps := by rcases hd with rfl | ⟨_, _, _, _, rfl⟩ <;> rfl
  have hput : ∀ v ∈ (d'.putSweep task w').sweeps, v ∈ d.sweeps ∨ w' = some v := by
    intro v hv
    cases w' with
    | none => exact .inl (hsweeps ▸ List.mem_of_mem_eraseIdx hv)
    | some w' =>
      rcases List.mem_or_eq_of_mem_set hv with h | rfl
      · exact .inl (hsweeps ▸ h)
      · exact .inr rfl
  have hframe : (d'.putSweep task w').nextId = d.nextId ∧
      (d'.putSweep task w').sessions = d.sessions ∧
      (d'.putSweep task w').runtimeIds = d.runtimeIds ∧
      (d'.putSweep task w').creates = d.creates ∧
      ∀ o, (d'.putSweep task w').Holds o → d.Holds o := by
    simp only [Deployment.Holds, Deployment.putSweep_apps]
    rcases hd with rfl | ⟨app, kind, o, _, rfl⟩
    · cases w' <;> exact ⟨rfl, rfl, rfl, rfl, fun _ h => h⟩
    · cases w' <;> exact ⟨rfl, rfl, rfl, rfl, fun _ h => Deployment.holds_destroy h⟩
  obtain ⟨hi, hse, hm, hc, hh⟩ := hframe
  refine .of_apps hi hse hm (fun c h => hc ▸ h) hh fun v hv x hx => ?_
  rcases hput v hv with h | rfl
  · exact .inl ⟨v, h, hx⟩
  rcases hleft v rfl x hx with h | ⟨rfl, h⟩
  · exact .inl ⟨w, hmem, h⟩
  · exact .inr ⟨Deployment.holds_of_condemns h, hs w hw x h⟩

theorem grows_step {l : Label} (h : d.step? l = some t) (hs : d.Spares l) : Grows d t := by
  cases l with
  | configure project vendors =>
    exact Option.some.inj h ▸ .of_apps rfl rfl rfl (fun _ h => h) (fun _ h => h)
      fun w hw x hx => .inl ⟨w, hw, hx⟩
  | createSession project id vendor =>
    obtain ⟨-, h⟩ := Option.ite_none_right_eq_some.mp h
    refine Option.some.inj h ▸ .of_sessions rfl rfl (fun _ h => .inl h) (List.Subset.refl _)
      (fun r hr => .inl ?_) fun c hc => .inl ⟨c, hc, rfl⟩
    obtain ⟨s, hs, rec, hrec, rfl⟩ := hr
    rcases List.mem_append.mp hs with h | h
    · exact ⟨s, h, rec, hrec, rfl⟩
    · rw [List.mem_singleton.mp h] at hrec
      cases hrec
  | list session =>
    exact Option.some.inj h ▸ .mapSession fun s rec h => ⟨rec, h, rfl⟩
  | deleteSession session =>
    refine Option.some.inj h ▸ .of_sessions rfl rfl (fun _ h => .inl h) (List.Subset.refl _)
      (fun r hr => .inl ?_) fun c hc => .inl ⟨c, hc, rfl⟩
    obtain ⟨s, hs, rec, hrec, rfl⟩ := hr
    exact ⟨s, List.mem_of_mem_filter hs, rec, hrec, rfl⟩
  | provision session owner env fresh =>
    obtain ⟨s, hs, h⟩ := Option.bind_eq_some_iff.mp h
    obtain ⟨⟨-, -, hfresh, -⟩, h⟩ := Option.ite_none_right_eq_some.mp h
    exact Option.some.inj h ▸ grows_provision (List.mem_of_find?_eq_some hs) hfresh
  | persist session =>
    refine Option.some.inj h ▸ .mapSession fun s rec hrec => ?_
    obtain ⟨rec', hrec', rfl⟩ := List.mem_map.mp hrec
    exact ⟨rec', hrec', rfl⟩
  | lose session =>
    exact Option.some.inj h ▸ .mapSession fun s rec h => ⟨rec, List.mem_of_mem_filter h, rfl⟩
  | create task ok =>
    obtain ⟨c, hc, rfl⟩ := Option.map_eq_some_iff.mp h
    have hmem := List.mem_of_getElem? hc
    have hset : ∀ x ∈ d.creates.set task { c with stage := (d.createNext c ok).2 },
        ∃ c' ∈ d.creates, c'.runtime = x.runtime := by
      intro x hx
      rcases List.mem_or_eq_of_mem_set hx with h | rfl
      · exact ⟨x, h, rfl⟩
      · exact ⟨c, hmem, rfl⟩
    unfold Deployment.call
    rcases createNext_spec d c ok with h | ⟨app, kind, name, h⟩
    · rw [h]
      exact .of_sessions rfl rfl (fun _ h => .inl h) (List.Subset.refl _) (fun _ h => .inl h)
        fun x hx => .inl (hset x hx)
    · rw [h]
      exact .make (fun x hx => ⟨c, hmem, Option.some.inj hx⟩) hset
  | finishProvisioning task =>
    obtain ⟨c, hc, h⟩ := Option.bind_eq_some_iff.mp h
    cases hstage : c.stage with
    | reported ok =>
      rw [hstage] at h
      exact Option.some.inj h ▸ .of_sessions rfl rfl (fun _ h => .inl h) (List.Subset.refl _)
        (fun _ h => .inl (Deployment.known_mapSession (fun s => s.setProvisioning_ids _ _) h))
        fun x hx => .inl ⟨x, List.mem_of_mem_eraseIdx hx, rfl⟩
    | called => simp [hstage] at h
    | mounted app => simp [hstage] at h
  | killCreate task =>
    exact Option.some.inj h ▸ .of_sessions rfl rfl (fun _ h => .inl h) (List.Subset.refl _)
      (fun _ h => .inl h) fun x hx => .inl ⟨x, List.mem_of_mem_eraseIdx hx, rfl⟩
  | foreign app kind name =>
    exact Option.some.inj h ▸ .make (fun _ h => by cases h) fun c hc => ⟨c, hc, rfl⟩
  | vanish app kind id =>
    exact Option.some.inj h ▸ .of_apps rfl rfl rfl (fun _ h => h)
      (fun _ h => Deployment.holds_destroy h) fun w hw x hx => .inl ⟨w, hw, hx⟩
  | openProject project =>
    refine Option.some.inj h ▸ .of_sessions rfl rfl (fun w hw => ?_) (List.Subset.refl _)
      (fun _ h => .inl h) fun c hc => .inl ⟨c, hc, rfl⟩
    rcases List.mem_append.mp hw with h | h
    · exact .inl h
    · exact .inr (by rw [List.mem_singleton.mp h]; rfl)
  | killSweep task =>
    exact Option.some.inj h ▸ .of_sessions rfl rfl
      (fun w hw => .inl (List.mem_of_mem_eraseIdx hw)) (List.Subset.refl _) (fun _ h => .inl h)
      fun c hc => .inl ⟨c, hc, rfl⟩
  | sweep task ok =>
    obtain ⟨w, hw, rfl⟩ := Option.map_eq_some_iff.mp h
    exact grows_sweep hw hs

/-! ## What is read stays an orphan -/

/-- What the sweeps are still to destroy is of no runtime a session knows. -/
structure Orphans (d : Deployment) : Prop where
  minted : ∀ r, d.Known r → r ∈ d.runtimeIds
  creates : ∀ c ∈ d.creates, c.runtime ∈ d.runtimeIds
  held : ∀ o, d.Holds o → o.id < d.nextId ∧ ∀ r, o.madeFor = some r → r ∈ d.runtimeIds
  unique : ∀ o o', d.Holds o → d.Holds o' → o.id = o'.id → o = o'
  targets : ∀ w ∈ d.sweeps, ∀ x ∈ w.targets, x.id < d.nextId ∧
    (∀ r, x.madeFor = some r → r ∈ d.runtimeIds ∧ ¬d.Known r) ∧ ∀ o, d.Holds o → o.id = x.id → o = x

theorem orphans_empty : Orphans .empty where
  minted := by rintro r ⟨s, hs, -⟩; exact absurd hs List.not_mem_nil
  creates c hc := absurd hc List.not_mem_nil
  held o ho := absurd ho.choose_spec List.not_mem_nil
  unique o o' ho := absurd ho.choose_spec List.not_mem_nil
  targets w hw := absurd hw List.not_mem_nil

theorem Orphans.grow (h : Orphans d) (hg : Grows d t) : Orphans t where
  minted r hr := by
    rcases hg.known r hr with hk | ⟨-, hk⟩
    · exact hg.minted (h.minted r hk)
    · exact hk
  creates c hc := by
    rcases hg.creates c hc with ⟨c', hc', heq⟩ | hk | hm
    · exact hg.minted (heq ▸ h.creates c' hc')
    · exact hg.minted (h.minted _ hk)
    · exact hm
  held o ho := by
    rcases hg.held o ho with hh | ⟨-, hlt, hmade⟩
    · obtain ⟨hid, hr⟩ := h.held o hh
      exact ⟨Nat.lt_of_lt_of_le hid hg.ids, fun r hm => hg.minted (hr r hm)⟩
    · refine ⟨hlt, fun r hm => ?_⟩
      obtain ⟨c, hc, rfl⟩ := hmade r hm
      exact hg.minted (h.creates c hc)
  unique o o' ho ho' hid := by
    rcases hg.held o ho with hh | ⟨hn, -, -⟩ <;> rcases hg.held o' ho' with hh' | ⟨hn', -, -⟩
    · exact h.unique o o' hh hh' hid
    · exact absurd (h.held o hh).1 (by omega)
    · exact absurd (h.held o' hh').1 (by omega)
    · rcases hg.one o o' ho ho' with hh | hh | heq
      · exact absurd (h.held o hh).1 (by omega)
      · exact absurd (h.held o' hh).1 (by omega)
      · exact heq
  targets w hw x hx := by
    -- Nothing new has an old id, and no known runtime is an old one but those known before.
    have old (hlt : x.id < d.nextId)
        (hmade : ∀ r, x.madeFor = some r → r ∈ d.runtimeIds ∧ ¬d.Known r)
        (hsame : ∀ o, d.Holds o → o.id = x.id → o = x) : x.id < t.nextId ∧
          (∀ r, x.madeFor = some r → r ∈ t.runtimeIds ∧ ¬t.Known r) ∧
          ∀ o, t.Holds o → o.id = x.id → o = x := by
      refine ⟨Nat.lt_of_lt_of_le hlt hg.ids, fun r hr => ⟨hg.minted (hmade r hr).1, fun hk => ?_⟩,
        fun o ho hid => ?_⟩
      · rcases hg.known r hk with hk | ⟨hnew, -⟩
        · exact (hmade r hr).2 hk
        · exact hnew (hmade r hr).1
      · rcases hg.held o ho with hh | ⟨hn, -, -⟩
        · exact hsame o hh hid
        · omega
    rcases hg.targets w hw x hx with ⟨w', hw', hx'⟩ | ⟨hh, hmade⟩
    · obtain ⟨hlt, hr, hsame⟩ := h.targets w' hw' x hx'
      exact old hlt hr hsame
    · obtain ⟨hlt, hr⟩ := h.held x hh
      exact old hlt (fun r hm => ⟨hr r hm, hmade r hm⟩) fun o ho hid => h.unique o x ho hh hid

theorem orphans_exec {tr : List (Deployment × Label × Deployment)}
    (h : deploymentSystem.Exec .empty tr t) (hs : ∀ x ∈ tr, x.1.Spares x.2.1) : Orphans t :=
  h.guarded (G := Deployment.Spares) (fun _ _ _ _ hi hg hstep => hi.grow (grows_step hstep hg))
    (.init rfl) orphans_empty hs

theorem Deployment.keeps_destroy {x : Object}
    (h : ∀ o, d.Holds o → o.id = x.id → o = x) (hx : ∀ r, x.madeFor = some r → ¬d.Known r) :
    d.Keeps (d.destroy app kind x.id) := by
  intro b k o r ho hr hrec
  have hid : o.id ≠ x.id := by
    intro hid
    obtain rfl := h o ⟨b, App.mem_objects.mpr ⟨k, ho⟩⟩ hid
    exact hx r hr hrec.known
  by_cases hba : b = app
  · subst hba
    rw [Deployment.apps_destroy_self]
    exact App.mem_destroy ho hid
  · rwa [Deployment.apps_destroy_of_ne hba]

/-- A call of a sweep destroys nothing of a recorded runtime while only orphans are left. -/
theorem Orphans.keeps (h : Orphans d)
    (hstep : d.step? (.sweep task ok) = some t) : d.Keeps t := by
  obtain ⟨w, hw, rfl⟩ := Option.map_eq_some_iff.mp hstep
  unfold Deployment.Keeps
  rw [Deployment.putSweep_apps]
  rcases (called_sweepNext d w ok).destroys with heq | ⟨app, kind, o, ho, heq⟩
  · rw [heq]
    exact fun _ _ _ _ ho _ _ => ho
  · rw [heq]
    obtain ⟨-, hmade, hsame⟩ := h.targets w (List.mem_of_getElem? hw) o ho
    exact Deployment.keeps_destroy hsame fun r hr => (hmade r hr).2

/-! ## What is condemned is destroyed -/

theorem sweepNext_left {rest : List Object}
    (h : w.stage = .left app kind (o :: rest)) :
    d.sweepNext w true = (if condemned w.live kind o then d.destroy app kind o.id else d,
      some { w with stage := .left app kind rest }) := by
  cases kind with
  | machine => simp only [Deployment.sweepNext, h, Bool.and_true]
  | volume =>
    simp only [Deployment.sweepNext, h, if_true]
    split <;> rfl

/-- Where its calls succeed, a sweep destroys what it has read and condemned. -/
theorem left_destroys
    {objects : List Object} (hw : d.sweeps[task]? = some w)
    (hs : w.stage = .left app kind objects) (ho : o ∈ objects)
    (hc : condemned w.live kind o = true) (hheld : o ∈ (d.apps app).of kind)
    (hr : o.madeFor = some r) (hrec : d.Recorded r) :
    ∃ ls u v, (∀ l ∈ ls, l = .sweep task true) ∧
      System.steps? Deployment.step? d ls = some u ∧
      u.step? (.sweep task true) = some v ∧ ¬u.Keeps v := by
  induction objects generalizing d w with
  | nil => cases ho
  | cons x rest ih =>
    have hstep : d.step? (.sweep task true) =
        some ((if condemned w.live kind x then d.destroy app kind x.id else d).putSweep task
          (some { w with stage := .left app kind rest })) := by
      simp only [Deployment.step?, hw, Option.map_some, sweepNext_left hs]
    by_cases hgone : condemned w.live kind x = true ∧ o.id = x.id
    · refine ⟨[], d, _, fun _ h => absurd h List.not_mem_nil, rfl, hstep, fun hk => ?_⟩
      have hmem := hk app kind o r hheld hr hrec
      rw [if_pos hgone.1, Deployment.putSweep_apps, Deployment.apps_destroy_self, App.of_destroy]
        at hmem
      exact absurd hgone.2 (of_decide_eq_true (List.mem_filter.mp hmem).2)
    · have hrest : o ∈ rest := by
        rcases List.mem_cons.mp ho with rfl | h
        · exact absurd ⟨hc, rfl⟩ hgone
        · exact h
      have hsessions : (if condemned w.live kind x then d.destroy app kind x.id else d).sessions =
          d.sessions := by split <;> rfl
      have hsweeps : (if condemned w.live kind x then d.destroy app kind x.id else d).sweeps =
          d.sweeps := by split <;> rfl
      have hheld' : o ∈ ((if condemned w.live kind x then d.destroy app kind x.id
          else d).apps app).of kind := by
        split
        · rename_i hx
          rw [Deployment.apps_destroy_self]
          exact App.mem_destroy hheld fun hid => hgone ⟨hx, hid⟩
        · exact hheld
      obtain ⟨ls, u, v, hls, hu, hv, hk⟩ := ih (w := { w with stage := .left app kind rest })
        (Deployment.getElem?_putSweep (hsweeps ▸ hw)) rfl hrest hc
        (by rwa [Deployment.putSweep_apps])
        (by rwa [Deployment.Recorded, Deployment.putSweep_sessions, hsessions])
      refine ⟨.sweep task true :: ls, u, v, List.forall_mem_cons.mpr ⟨rfl, hls⟩, ?_, hv, hk⟩
      rw [System.steps?, hstep]
      exact hu

theorem sweepNext_of_condemns (h : o ∈ d.condemns w) :
    ∃ app kind vendors, d.sweepNext w true =
        (d, some { w with vendors, stage := .left app kind ((d.apps app).of kind) }) ∧
      o ∈ (d.apps app).of kind ∧ condemned w.live kind o = true := by
  unfold Deployment.condemns at h
  split at h
  · rename_i app _ rest hstage hv
    obtain ⟨ho, hc⟩ := List.mem_filter.mp h
    exact ⟨app, .machine, rest, by simp only [Deployment.sweepNext, hstage, hv, if_true]; rfl,
      ho, hc⟩
  · rename_i app hstage
    obtain ⟨ho, hc⟩ := List.mem_filter.mp h
    exact ⟨app, .volume, w.vendors, by simp only [Deployment.sweepNext, hstage, if_true]; rfl,
      ho, hc⟩
  · cases h

/-- Where a sweep is about to read and condemn something of a runtime a session knows, it goes on to
destroy it, once the record is written. -/
theorem sweep_destroys (h : ¬d.Spares (.sweep task true)) :
    ∃ ls u v, (∀ l ∈ ls, l = .sweep task true ∨ ∃ s, l = .persist s ∨ l = .list s) ∧
      System.steps? Deployment.step? d ls = some u ∧
      u.step? (.sweep task true) = some v ∧ ¬u.Keeps v := by
  simp only [Deployment.Spares, not_forall, not_not] at h
  obtain ⟨w, hw, o, ho, r, hr, s, hs, rec, hrec, rfl⟩ := h
  set e : Deployment := (d.mapSession s.id fun s =>
    { s with runtimes := s.runtimes.map ({ · with written := true }) }).mapSession s.id fun s =>
      { s with listed := true } with he
  have hrecorded : e.Recorded rec.id := by
    refine ⟨_, List.mem_map.mpr ⟨_, List.mem_map.mpr ⟨s, hs, rfl⟩, rfl⟩, ?_⟩
    simp only [if_true]
    exact ⟨trivial, _, List.mem_map.mpr ⟨rec, hrec, rfl⟩, rfl, rfl⟩
  have hwritten : System.steps? Deployment.step? d [.persist s.id, .list s.id] = some e := rfl
  have hw : e.sweeps[task]? = some w := hw
  obtain ⟨app, kind, vendors, hread, happ, hc⟩ := sweepNext_of_condemns (d := e) ho
  have hstep : e.step? (.sweep task true) = some (e.putSweep task
      (some { w with vendors, stage := .left app kind ((e.apps app).of kind) })) := by
    simp only [Deployment.step?, hw, Option.map_some, hread]
  obtain ⟨ls, u, v, hls, hu, hv, hk⟩ := left_destroys
    (w := { w with vendors, stage := .left app kind ((e.apps app).of kind) })
    (Deployment.getElem?_putSweep hw) rfl happ hc (by rwa [Deployment.putSweep_apps]) hr
    (by rwa [Deployment.Recorded, Deployment.putSweep_sessions])
  refine ⟨[.persist s.id, .list s.id] ++ .sweep task true :: ls, u, v, ?_, ?_, hv, hk⟩
  · intro l hl
    rcases List.mem_append.mp hl with hl | hl
    · exact .inr ⟨s.id, by simpa using hl⟩
    · exact .inl ((List.mem_cons.mp hl).elim id (hls l))
  · rw [System.steps?_append, hwritten, Option.bind_some, System.steps?, hstep]
    exact hu

end

/-! ## The sweep and the recorded runtimes -/

/-- In a run whose sweeps never read, and condemn, anything of a runtime a session has a record of,
no call of a sweep destroys a machine or a volume of a recorded runtime; and a sweep about to read
such a thing goes on to destroy it while it is recorded. -/
theorem sweep_spares_recorded {tr : List (Deployment × Label × Deployment)} {t : Deployment}
    (h : deploymentSystem.Exec .empty tr t) :
    ((∀ x ∈ tr, x.1.Spares x.2.1) →
      ∀ x ∈ tr, ∀ task ok, x.2.1 = .sweep task ok → x.1.Keeps x.2.2) ∧
    ∀ task, ¬t.Spares (.sweep task true) →
      ∃ ls u v, (∀ l ∈ ls, l = .sweep task true ∨ ∃ s, l = .persist s ∨ l = .list s) ∧
        System.steps? Deployment.step? t ls = some u ∧
        u.step? (.sweep task true) = some v ∧ ¬u.Keeps v := by
  refine ⟨fun hs x hx task ok hl => ?_, fun task hs => sweep_destroys hs⟩
  obtain ⟨pre, hpre, hmem, hstep⟩ := h.before hx
  rw [hl] at hstep
  exact (orphans_exec hpre fun y hy => hs y (hmem y hy)).keeps hstep

/-- Two projects with an app each. A session of the first was deleted while Fly was unreachable; the
sweep destroys its machine and spares the one the session of the second runs on. -/
def sparingRun : List Label :=
  [.configure "p" [("fly", .fly "app" false)], .configure "q" [("fly", .fly "other" true)],
    .createSession "p" "s" (some "fly"), .list "s", .provision "s" "s" none "r", .persist "s",
    .create 0 true, .finishProvisioning 0, .createSession "q" "t" (some "fly"), .list "t",
    .provision "t" "t" none "u", .persist "t", .create 0 true, .create 0 true, .deleteSession "s",
    .openProject "p", .sweep 0 true, .sweep 0 true, .sweep 0 true, .sweep 0 true]

theorem sweep_spares_recorded_orphaned :
    ∃ tr t, deploymentSystem.Exec .empty tr t ∧ tr.map (·.2.1) = sparingRun ∧
      (∀ x ∈ tr, ∀ task ok, x.2.1 = .sweep task ok → x.1.Keeps x.2.2) ∧
      (t.apps "app").machines = [] ∧ (t.apps "other").machines.map (·.madeFor) = [some "u"] := by
  obtain ⟨tr, htr, hls, hs⟩ := exec_deployment (G := Deployment.Spares)
    (show (System.steps? (System.guarded? Deployment.Spares Deployment.step?) .empty
      sparingRun).isSome by decide)
  exact ⟨tr, _, htr, hls, (sweep_spares_recorded htr).1 hs, by decide, by decide⟩

/-- One session of one project, whose runtime is up on Fly when the project is opened again; the
sweep has the session list and has read the machines. -/
def sweptRun : List Label :=
  [.configure "p" [("fly", .fly "app" false)], .createSession "p" "s" (some "fly"), .list "s",
    .provision "s" "s" none "r", .persist "s", .create 0 true, .finishProvisioning 0,
    .openProject "p", .sweep 0 true, .sweep 0 true, .sweep 0 true]

theorem live_workspace_swept :
    ∃ d t, System.steps? Deployment.step? .empty sweptRun = some d ∧ d.Recorded "r" ∧
      d.step? (.sweep 0 true) = some t ∧ ¬d.Keeps t := by
  have hrec : ((System.steps? Deployment.step? .empty sweptRun).get (by decide)).Recorded "r" := by
    decide
  refine ⟨_, _, (Option.some_get (by decide)).symm, hrec, rfl, fun hk => ?_⟩
  have hgone := hk "app" .machine ⟨0, "horsie-r", some "r"⟩ "r" (by decide) rfl hrec
  cases hgone

end Horsie.Runtime
