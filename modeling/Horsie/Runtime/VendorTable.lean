import Horsie.Lib.Map
import Horsie.Lib.Take
import Horsie.Lib.Text
import Horsie.Lib.Transition

/-!
# Vendor names

Sessions select a vendor by name, from one map that two services write: the registry, for the
vendor processes that connect and go, and the configuration, for the vendors stored in settings.
The registry looks at the whole map and writes it in one go. A save looks whether a process holds
its name, then asks the substrate, then writes the row, and then the map; a delete and the
publication at boot read or write the rows first and the map later, too.
-/

namespace Horsie.Runtime.VendorTable

open Horsie.Lib

/-! ## The tables -/

structure VendorRow where
  name : String
  settings : String
  credential : String
deriving DecidableEq

/-- What a name selects: a vendor built from a row, or the link of a process. -/
inductive Entry
  | configured (row : VendorRow)
  | link (id : ℕ)
deriving DecidableEq

structure Tables where
  rows : Map String VendorRow
  vendors : Map String Entry
  published : Map String ℕ

structure Link where
  vendorName : String
  owner : String
  instanceId : String
  connected : Bool
  published : Bool
deriving DecidableEq

inductive RegisterError
  | nameTaken (holder : String)
  | nameConfigured
deriving DecidableEq

namespace Tables

variable (t : Tables)

def gates (links : List Link) (link : Link) : Except RegisterError Unit :=
  if (t.vendors.lookup link.vendorName).isSome ∧ (t.published.lookup link.vendorName).isNone then
    .error .nameConfigured
  else
    match (t.published.lookup link.vendorName).bind (links[·]?) with
    | some existing =>
      if existing.owner ≠ link.owner then .error (.nameTaken existing.owner)
      else if existing.instanceId ≠ link.instanceId ∧ existing.connected then
        .error (.nameTaken existing.owner)
      else .ok ()
    | none => .ok ()

def register (links : List Link) (link : Link) (id : ℕ) : Except RegisterError Tables :=
  (t.gates links link).map fun _ =>
    { t with
      vendors := t.vendors.insert link.vendorName (.link id)
      published := t.published.insert link.vendorName id }

def evict (link : Link) (id : ℕ) : Tables :=
  if t.published.lookup link.vendorName = some id then
    { t with
      vendors := t.vendors.erase link.vendorName
      published := t.published.erase link.vendorName }
  else t

def list : List VendorRow :=
  (t.rows.toPairs.map (·.2)).mergeSort fun r r' => decide (r.name ≤ r'.name)

def insert (row : VendorRow) : Tables :=
  { t with vendors := t.vendors.insert row.name (.configured row) }

end Tables

/-! ## Calls of the configuration service -/

inductive Request
  | save (row : VendorRow)
  | delete (name : String)
  | publishAll
deriving DecidableEq

inductive Call
  /-- `save`, before it looks at the name. -/
  | save (row : VendorRow)
  /-- `save`, before the substrate has answered. -/
  | preflighting (row : VendorRow)
  /-- `save`, before the row is written. -/
  | storing (row : VendorRow)
  /-- `save`, before the map is. -/
  | stored (row : VendorRow)
  /-- `delete`, before the row is gone. -/
  | delete (name : String)
  /-- `delete`, before the map is written. -/
  | deleted (name : String)
  /-- `publish_all`, before the rows are read. -/
  | listing
  | publishing (rows : List VendorRow)
  | finished (answer : Except String Bool)
deriving DecidableEq

def Request.call : Request → Call
  | save row => .save row
  | delete name => .delete name
  | publishAll => .listing

/-- What a call does next to the tables, where what it asks for goes as `r` says. -/
def Call.act (t : Tables) (r : Except String Unit) : Call → Option (Tables × Call)
  | .save row =>
    if isBlank row.name then some (t, .finished (.error "a runtime vendor needs a name"))
    else if (t.published.lookup row.name).isSome then
      some (t, .finished (.error
        ("the name '" ++ row.name ++ "' is in use by a connected vendor process")))
    else
      match r with
      | .ok _ => some (t, .preflighting row)
      | .error e => some (t, .finished (.error e))
  | .preflighting row =>
    match r with
    | .ok _ => some (t, .storing row)
    | .error e => some (t, .finished (.error e))
  | .storing row =>
    match r with
    | .ok _ => some ({ t with rows := t.rows.insert row.name row }, .stored row)
    | .error e => some (t, .finished (.error e))
  | .stored row => some (t.insert row, .finished (.ok true))
  | .delete name =>
    match r with
    | .ok _ =>
      if (t.rows.lookup name).isSome then some ({ t with rows := t.rows.erase name }, .deleted name)
      else some (t, .finished (.ok false))
    | .error e => some (t, .finished (.error e))
  | .deleted name => some ({ t with vendors := t.vendors.erase name }, .finished (.ok true))
  | .listing =>
    match r with
    | .ok _ => some (t, .publishing t.list)
    | .error e => some (t, .finished (.error e))
  | .publishing [] => some (t, .finished (.ok true))
  | .publishing (row :: rows) =>
    match r with
    | .ok _ => some (t.insert row, .publishing rows)
    | .error _ => some (t, .publishing rows)
  | .finished _ => none

/-! ## Runs -/

structure World where
  tables : Tables
  links : List Link
  calls : List Call

inductive Label
  | dial (vendorName owner instanceId : String)
  | register (id : ℕ)
  | close (id : ℕ)
  | evict (id : ℕ)
  | call (r : Request)
  /-- The next step of a call: what it waits for succeeds or fails. -/
  | act (i : ℕ) (r : Except String Unit)
deriving DecidableEq

namespace World

/-- The server has started: the rows are there, and `publish_all` is called. -/
structure Boot (w : World) : Prop where
  named : ∀ n row, w.tables.rows.lookup n = some row → row.name = n
  vendors : w.tables.vendors = ∅
  published : w.tables.published = ∅
  links : w.links = []
  calls : w.calls = [.listing]

def step? (w : World) : Label → Option World
  | .dial vendorName owner instanceId =>
    some { w with links := w.links ++ [⟨vendorName, owner, instanceId, true, false⟩] }
  | .register id =>
    match w.links[id]? with
    | some link =>
      if link.published then none
      else
        match w.tables.register w.links link id with
        | .ok tables =>
          some { w with tables, links := w.links.set id { link with published := true } }
        | .error _ => some w
    | none => none
  | .close id =>
    w.links[id]?.map fun link => { w with links := w.links.set id { link with connected := false } }
  | .evict id =>
    match w.links[id]? with
    | some link =>
      if link.published ∧ link.connected = false then
        some { w with tables := w.tables.evict link id }
      else none
    | none => none
  | .call r => some { w with calls := w.calls ++ [r.call] }
  | .act i r =>
    (w.calls[i]?.bind (Call.act w.tables r)).map fun x =>
      { w with tables := x.1, calls := w.calls.set i x.2 }

end World

def vendorNames : System World Label where
  Init := World.Boot
  Step w l w' := w.step? l = some w'

/-! ## The names and the rows agree -/

def Call.touches (n : String) : Call → Bool
  | save row | preflighting row | storing row | stored row => row.name = n
  | delete name | deleted name => name = n
  | listing => true
  | publishing rows => rows.any (·.name = n)
  | finished _ => false

/-- The names a call may still put a configured vendor under. -/
def Call.inserts (n : String) : Call → Bool
  | delete _ | deleted _ => false
  | c => c.touches n

/-- Whether a call that is under way has nothing to do with the names of a new one. -/
def Call.apart (r : Request) (c : Call) : Bool :=
  match r with
  | .save row => !c.touches row.name
  | .delete name => !c.touches name
  | .publishAll => match c with
    | finished _ | publishing [] => true
    | _ => false

namespace World

/-- Calls that touch one name do not overlap, no process takes a name while a vendor is being
configured under it, and the rows are read and their vendors built at boot. -/
def heeds (w : World) : Label → Bool
  | .call r => w.calls.all (·.apart r)
  | .register id =>
    w.links[id]?.all fun link =>
      !(w.tables.gates w.links link).isOk || w.calls.all fun c => !c.inserts link.vendorName
  | .act i r =>
    match w.calls[i]? with
    | some .listing | some (.publishing (_ :: _)) => r.isOk
    | _ => true
  | _ => true

/-- Once every call has finished, a name is served by the configured vendor of a row exactly if
that row is stored and no process holds the name, and by a process exactly if that holds it. -/
structure Agrees (w : World) : Prop where
  configured : (∀ c ∈ w.calls, ∃ answer, c = .finished answer) → ∀ n row,
    w.tables.vendors.lookup n = some (.configured row) ↔
      w.tables.rows.lookup n = some row ∧ w.tables.published.lookup n = none
  link : (∀ c ∈ w.calls, ∃ answer, c = .finished answer) → ∀ n id,
    w.tables.vendors.lookup n = some (.link id) ↔ w.tables.published.lookup n = some id

/-- A step that evicts no configured vendor and no newer link, and takes no name that a process
holds. -/
structure Right (w : World) (l : Label) (w' : World) : Prop where
  configured : ∀ id, l = .evict id → ∀ n row, w.tables.vendors.lookup n = some (.configured row) →
    w'.tables.vendors.lookup n = some (.configured row)
  newer : ∀ id, l = .evict id → ∀ n id', id' ≠ id → w.tables.vendors.lookup n = some (.link id') →
    w'.tables.vendors.lookup n = some (.link id')
  held : ∀ i r, l = .act i r → ∀ n id, w.tables.published.lookup n = some id →
    w'.tables.vendors.lookup n = some (.link id)

end World

/-! ### One name -/

namespace Tables

variable {t t' : Tables} {n : String}

/-- The tables agree on a name. -/
def Settled (t : Tables) (n : String) : Prop :=
  (∃ row, t.rows.lookup n = some row ∧ t.vendors.lookup n = some (.configured row) ∧
    t.published.lookup n = none) ∨
  t.rows.lookup n = none ∧ t.vendors.lookup n = (t.published.lookup n).map .link

/-- No process holds a name or is selected by it. -/
def Vacant (t : Tables) (n : String) : Prop :=
  t.published.lookup n = none ∧ ∀ id, t.vendors.lookup n ≠ some (.link id)

/-- Two states of the tables say the same about a name. -/
structure Same (t t' : Tables) (n : String) : Prop where
  rows : t'.rows.lookup n = t.rows.lookup n
  vendors : t'.vendors.lookup n = t.vendors.lookup n
  published : t'.published.lookup n = t.published.lookup n

theorem Same.refl (t : Tables) (n : String) : t.Same t n := ⟨rfl, rfl, rfl⟩

theorem Same.settled (h : t.Same t' n) (hs : t.Settled n) : t'.Settled n := by
  unfold Settled
  rwa [h.rows, h.vendors, h.published]

theorem Same.vacant (h : t.Same t' n) (hs : t.Vacant n) : t'.Vacant n := by
  unfold Vacant
  rwa [h.vendors, h.published]

theorem Settled.vacant (h : t.Settled n) (hp : t.published.lookup n = none) : t.Vacant n := by
  refine ⟨hp, fun id => ?_⟩
  rcases h with ⟨row, -, hv, -⟩ | ⟨-, hv⟩
  · simp [hv]
  · simp [hv, hp]

theorem link_iff (h : t.Settled n ∨ t.Vacant n) (id : ℕ) :
    t.vendors.lookup n = some (.link id) ↔ t.published.lookup n = some id := by
  rcases h with (⟨row, -, hv, hp⟩ | ⟨-, hv⟩) | ⟨hp, hv⟩
  · simp [hv, hp]
  · simp [hv]
  · simp [hp, hv id]

theorem Settled.configured_iff (h : t.Settled n) (row : VendorRow) :
    t.vendors.lookup n = some (.configured row) ↔
      t.rows.lookup n = some row ∧ t.published.lookup n = none := by
  rcases h with ⟨row', hr, hv, hp⟩ | ⟨hr, hv⟩
  · simp [hr, hv, hp]
  · simp [hr, hv]

theorem settled_insert {row : VendorRow} (hr : t.rows.lookup row.name = some row)
    (hv : t.Vacant row.name) : (t.insert row).Settled row.name :=
  .inl ⟨row, hr, AList.lookup_insert _, hv.1⟩

theorem same_insert {row : VendorRow} (hn : row.name ≠ n) : t.Same (t.insert row) n where
  rows := rfl
  vendors := AList.lookup_insert_ne (Ne.symm hn)
  published := rfl

end Tables

/-! ### What a call knows -/

def Call.Holds (t : Tables) : Call → Prop
  | save row => t.Settled row.name
  | preflighting row | storing row => t.Settled row.name ∧ t.published.lookup row.name = none
  | stored row => t.rows.lookup row.name = some row ∧ t.Vacant row.name
  | delete name => t.Settled name
  | deleted name => t.rows.lookup name = none ∧ t.published.lookup name = none ∧
      ∃ row, t.vendors.lookup name = some (.configured row)
  | listing => ∀ n, t.Settled n ∨ (t.rows.lookup n).isSome ∧ t.Vacant n
  | publishing rows => (rows.map (·.name)).Nodup ∧
      ∀ row ∈ rows, t.rows.lookup row.name = some row ∧ t.Vacant row.name
  | finished _ => True

variable {t t' : Tables} {c c' : Call} {n : String} {r : Except String Unit}

theorem Call.Holds.same (h : c.Holds t) (hs : ∀ n, c.touches n = true → t.Same t' n) :
    c.Holds t' := by
  cases c with
  | save row => exact (hs _ (decide_eq_true rfl)).settled h
  | preflighting row =>
    have hrow := hs _ (decide_eq_true rfl)
    exact ⟨hrow.settled h.1, hrow.published.trans h.2⟩
  | storing row =>
    have hrow := hs _ (decide_eq_true rfl)
    exact ⟨hrow.settled h.1, hrow.published.trans h.2⟩
  | stored row =>
    have hrow := hs _ (decide_eq_true rfl)
    exact ⟨hrow.rows.trans h.1, hrow.vacant h.2⟩
  | delete name => exact (hs _ (decide_eq_true rfl)).settled h
  | deleted name =>
    have hname := hs _ (decide_eq_true rfl)
    obtain ⟨hr, hp, row, hv⟩ := h
    exact ⟨hname.rows.trans hr, hname.published.trans hp, row, hname.vendors.trans hv⟩
  | listing =>
    intro n
    rcases h n with h | ⟨hr, hv⟩
    · exact .inl ((hs n rfl).settled h)
    · exact .inr ⟨by rwa [(hs n rfl).rows], (hs n rfl).vacant hv⟩
  | publishing rows =>
    refine ⟨h.1, fun row hrow => ?_⟩
    have hsame := hs row.name (List.any_eq_true.mpr ⟨row, hrow, decide_eq_true rfl⟩)
    exact ⟨hsame.rows.trans (h.2 row hrow).1, hsame.vacant (h.2 row hrow).2⟩
  | finished answer => trivial

theorem Call.Holds.name (h : c.Holds t) (ht : c.touches n = true) : t.Settled n ∨ t.Vacant n := by
  cases c with
  | save row => exact .inl (of_decide_eq_true ht ▸ h)
  | preflighting row => exact .inl (of_decide_eq_true ht ▸ h.1)
  | storing row => exact .inl (of_decide_eq_true ht ▸ h.1)
  | stored row => exact .inr (of_decide_eq_true ht ▸ h.2)
  | delete name => exact .inl (of_decide_eq_true ht ▸ h)
  | deleted name =>
    obtain rfl := of_decide_eq_true ht
    obtain ⟨-, hp, row, hv⟩ := h
    exact .inr ⟨hp, fun id => by simp [hv]⟩
  | listing => exact (h n).imp_right And.right
  | publishing rows =>
    obtain ⟨row, hrow, hn⟩ := List.any_eq_true.mp ht
    exact .inr (of_decide_eq_true hn ▸ (h.2 row hrow).2)
  | finished answer => cases ht

theorem Call.Holds.release {id : ℕ} (h : c.Holds t) (ht : c.touches n = true)
    (hp : t.published.lookup n = some id) (hsame : ∀ n', n' ≠ n → t.Same t' n')
    (hsettled : t.Settled n → t'.Settled n) : c.Holds t' := by
  have hheld : t.published.lookup n ≠ none := by simp [hp]
  cases c with
  | save row =>
    obtain rfl := of_decide_eq_true ht
    exact hsettled h
  | preflighting row => exact absurd (of_decide_eq_true ht ▸ h.2) hheld
  | storing row => exact absurd (of_decide_eq_true ht ▸ h.2) hheld
  | stored row => exact absurd (of_decide_eq_true ht ▸ h.2.1) hheld
  | delete name =>
    obtain rfl := of_decide_eq_true ht
    exact hsettled h
  | deleted name => exact absurd (of_decide_eq_true ht ▸ h.2.1) hheld
  | listing =>
    intro n'
    by_cases hne : n' = n
    · subst hne
      rcases h n' with hs | ⟨-, hv⟩
      · exact .inl (hsettled hs)
      · exact absurd hv.1 hheld
    · rcases h n' with hs | ⟨hr, hv⟩
      · exact .inl ((hsame n' hne).settled hs)
      · exact .inr ⟨by rwa [(hsame n' hne).rows], (hsame n' hne).vacant hv⟩
  | publishing rows =>
    obtain ⟨row, hrow, hn⟩ := List.any_eq_true.mp ht
    exact absurd (of_decide_eq_true hn ▸ (h.2 row hrow).2.1) hheld
  | finished answer => cases ht

/-- What a call's step does: it writes only under names the call touches, and leaves what the call
knows next, and the names it is done with settled. -/
structure Call.Acted (t : Tables) (c : Call) (t' : Tables) (c' : Call) : Prop where
  same : ∀ n, c.touches n = false → t.Same t' n
  published : t'.published = t.published
  holds : c'.Holds t'
  touches : ∀ n, c'.touches n = true → c.touches n = true
  settled : ∀ n, c.touches n = true → c'.touches n = false → t'.Settled n
  named : ∀ n row, t'.rows.lookup n = some row → row.name = n

def Tables.Named (t : Tables) : Prop := ∀ n row, t.rows.lookup n = some row → row.name = n

theorem Call.Acted.idle (hn : t.Named) (hh : c'.Holds t)
    (ht : ∀ n, c'.touches n = true → c.touches n = true)
    (hs : ∀ n, c.touches n = true → c'.touches n = false → t.Settled n) :
    Call.Acted t c t c' :=
  ⟨fun _ _ => .refl t _, rfl, hh, ht, hs, hn⟩

theorem Call.Acted.finish (hn : t.Named) {answer : Except String Bool}
    (hs : ∀ n, c.touches n = true → t.Settled n) : Call.Acted t c t (.finished answer) :=
  .idle hn trivial (fun _ h => by cases h) fun n h _ => hs n h

variable {row : VendorRow}

theorem Tables.mem_list (hn : t.Named) :
    row ∈ t.list ↔ t.rows.lookup row.name = some row := by
  rw [Tables.list, List.mem_mergeSort, List.mem_map]
  constructor
  · rintro ⟨⟨n, row⟩, hmem, rfl⟩
    have hlook := Map.mem_toPairs.mp hmem
    rwa [hn n row hlook]
  · exact fun h => ⟨(row.name, row), Map.mem_toPairs.mpr h, rfl⟩

theorem Tables.nodup_list (hn : t.Named) : (t.list.map (·.name)).Nodup := by
  have hperm := ((t.rows.toPairs.map (·.2)).mergeSort_perm
    fun r r' => decide (r.name ≤ r'.name)).map (·.name)
  rw [Tables.list, hperm.nodup_iff, List.map_map]
  have hkeys : t.rows.toPairs.map ((·.name) ∘ (·.2)) = t.rows.toPairs.map (·.1) :=
    List.map_congr_left fun x hx => hn x.1 x.2 (Map.mem_toPairs.mp hx)
  rw [hkeys]
  exact Map.nodup_toPairs

theorem Call.Acted.list (hn : t.Named) (h : Call.listing.Holds t) :
    Call.Acted t .listing t (.publishing t.list) := by
  refine .idle hn ⟨Tables.nodup_list hn, fun row hrow => ?_⟩ (fun _ _ => rfl) fun n _ hno => ?_
  · have hlook := (Tables.mem_list hn).mp hrow
    refine ⟨hlook, ?_⟩
    rcases h row.name with (⟨-, -, -, hp⟩ | ⟨hr, -⟩) | ⟨-, hv⟩
    · exact (h row.name).elim (·.vacant hp) And.right
    · rw [hlook] at hr
      cases hr
    · exact hv
  · rcases h n with hs | ⟨hr, -⟩
    · exact hs
    · obtain ⟨row, hrow⟩ := Option.isSome_iff_exists.mp hr
      obtain rfl := hn n row hrow
      have hmem := (Tables.mem_list hn).mpr hrow
      simp only [Call.touches, List.any_eq_false, decide_eq_true_eq] at hno
      exact absurd rfl (hno row hmem)

theorem Call.Acted.insert (hn : t.Named)
    (hr : t.rows.lookup row.name = some row) (hv : t.Vacant row.name)
    (hc : ∀ n, c.touches n = (decide (row.name = n) || c'.touches n))
    (hno : c'.touches row.name = false) (hh : c'.Holds t) :
    Call.Acted t c (t.insert row) c' := by
  have hne : ∀ n, c'.touches n = true → row.name ≠ n := by
    rintro n htouch rfl
    rw [hno] at htouch
    cases htouch
  refine ⟨fun n h => ?_, rfl, hh.same fun n h => Tables.same_insert (hne n h), fun n h => ?_,
    fun n h hc' => ?_, hn⟩
  · rw [hc, Bool.or_eq_false_iff] at h
    exact Tables.same_insert (of_decide_eq_false h.1)
  · rw [hc, h, Bool.or_true]
  · rw [hc, hc', Bool.or_false] at h
    obtain rfl := of_decide_eq_true h
    exact Tables.settled_insert hr hv

theorem Request.holds {q : Request} (h : ∀ n, q.call.touches n = true → t.Settled n) :
    q.call.Holds t := by
  cases q with
  | save row => exact h _ (decide_eq_true rfl)
  | delete name => exact h _ (decide_eq_true rfl)
  | publishAll => exact fun n => .inl (h n rfl)

theorem Call.disjoint_of_apart {q : Request} (h : c.apart q = true) (n : String)
    (hn : c.touches n = true) : q.call.touches n = false := by
  cases q with
  | save row =>
    refine decide_eq_false ?_
    rintro rfl
    simp [Call.apart, hn] at h
  | delete name =>
    refine decide_eq_false ?_
    rintro rfl
    simp [Call.apart, hn] at h
  | publishAll =>
    simp only [Call.apart] at h
    split at h
    · cases hn
    · cases hn
    · cases h

theorem Call.Acted.of_act (hn : t.Named) (h : c.Holds t)
    (hg : ∀ rows, c = .listing ∨ c = .publishing rows ∧ rows ≠ [] → r.isOk = true)
    (hact : c.act t r = some (t', c')) : Call.Acted t c t' c' := by
  cases c with
  | save row =>
    have hsettled : ∀ n, (save row).touches n = true → t.Settled n :=
      fun n htouch => of_decide_eq_true htouch ▸ h
    simp only [Call.act] at hact
    split_ifs at hact with hblank hheld
    · obtain ⟨rfl, rfl⟩ := by simpa using hact
      exact .finish hn hsettled
    · obtain ⟨rfl, rfl⟩ := by simpa using hact
      exact .finish hn hsettled
    · split at hact
      · obtain ⟨rfl, rfl⟩ := by simpa using hact
        have hp : t.published.lookup row.name = none := by simpa using hheld
        exact .idle hn ⟨h, hp⟩ (fun n htouch => htouch) fun n htouch _ => hsettled n htouch
      · obtain ⟨rfl, rfl⟩ := by simpa using hact
        exact .finish hn hsettled
  | preflighting row =>
    have hsettled : ∀ n, (preflighting row).touches n = true → t.Settled n :=
      fun n htouch => of_decide_eq_true htouch ▸ h.1
    simp only [Call.act] at hact
    split at hact
    · obtain ⟨rfl, rfl⟩ := by simpa using hact
      exact .idle hn h (fun n htouch => htouch) fun n htouch _ => hsettled n htouch
    · obtain ⟨rfl, rfl⟩ := by simpa using hact
      exact .finish hn hsettled
  | storing row =>
    simp only [Call.act] at hact
    split at hact
    · obtain ⟨rfl, rfl⟩ := by simpa using hact
      refine ⟨fun n htouch => ?_, rfl, ⟨AList.lookup_insert _, h.1.vacant h.2⟩, fun n ht => ht,
        fun n ht hno => absurd (ht.symm.trans hno) (by decide), fun n row' hlook => ?_⟩
      · exact ⟨AList.lookup_insert_ne (Ne.symm (of_decide_eq_false htouch)), rfl, rfl⟩
      · rw [Map.lookup_insert_eq] at hlook
        split_ifs at hlook with hname
        · rw [← Option.some.inj hlook, hname]
        · exact hn n row' hlook
    · obtain ⟨rfl, rfl⟩ := by simpa using hact
      exact .finish hn fun n htouch => of_decide_eq_true htouch ▸ h.1
  | stored row =>
    obtain ⟨rfl, rfl⟩ := by simpa [Call.act] using hact
    exact .insert hn h.1 h.2 (fun n => (Bool.or_false _).symm) rfl trivial
  | delete name =>
    have hsettled : ∀ n, (delete name).touches n = true → t.Settled n :=
      fun n htouch => of_decide_eq_true htouch ▸ h
    simp only [Call.act] at hact
    split at hact
    · split_ifs at hact with hrow
      · obtain ⟨rfl, rfl⟩ := by simpa using hact
        obtain ⟨row, -, hv, hp⟩ | ⟨hr, -⟩ := h
        · refine ⟨fun n htouch => ?_, rfl, ⟨AList.lookup_erase _ _, hp, row, hv⟩, fun n ht => ht,
            fun n ht hno => absurd (ht.symm.trans hno) (by decide), fun n row' hlook => ?_⟩
          · exact ⟨AList.lookup_erase_ne (Ne.symm (of_decide_eq_false htouch)), rfl, rfl⟩
          · rw [Map.lookup_erase_eq] at hlook
            split_ifs at hlook
            exact hn n row' hlook
        · rw [hr] at hrow
          cases hrow
      · obtain ⟨rfl, rfl⟩ := by simpa using hact
        exact .finish hn hsettled
    · obtain ⟨rfl, rfl⟩ := by simpa using hact
      exact .finish hn hsettled
  | deleted name =>
    obtain ⟨rfl, rfl⟩ := by simpa [Call.act] using hact
    obtain ⟨hr, hp, -⟩ := h
    refine ⟨fun n htouch => ?_, rfl, trivial, fun n ht => (by cases ht), fun n ht _ => ?_, hn⟩
    · exact ⟨rfl, AList.lookup_erase_ne (Ne.symm (of_decide_eq_false htouch)), rfl⟩
    · obtain rfl := of_decide_eq_true ht
      exact .inr ⟨hr, (AList.lookup_erase _ _).trans (by rw [hp]; rfl)⟩
  | listing =>
    obtain ⟨u, rfl⟩ : ∃ u, r = .ok u := by
      cases r with
      | ok u => exact ⟨u, rfl⟩
      | error e => cases hg [] (.inl rfl)
    obtain ⟨rfl, rfl⟩ := by simpa [Call.act] using hact
    exact .list hn h
  | publishing rows =>
    cases rows with
    | nil =>
      obtain ⟨rfl, rfl⟩ := by simpa [Call.act] using hact
      exact .finish hn fun n htouch => by cases htouch
    | cons row rows =>
      obtain ⟨u, rfl⟩ : ∃ u, r = .ok u := by
        cases r with
        | ok u => exact ⟨u, rfl⟩
        | error e => cases hg (row :: rows) (.inr ⟨rfl, List.cons_ne_nil _ _⟩)
      obtain ⟨rfl, rfl⟩ := by simpa [Call.act] using hact
      obtain ⟨hnd, hrows⟩ := h
      obtain ⟨hnot, hnd⟩ := List.nodup_cons.mp hnd
      obtain ⟨⟨hr, hv⟩, hrest⟩ := List.forall_mem_cons.mp hrows
      refine .insert hn hr hv (fun n => rfl) ?_ ⟨hnd, hrest⟩
      rw [Call.touches, List.any_eq_false]
      exact fun row' hmem hname =>
        hnot (List.mem_map.mpr ⟨row', hmem, of_decide_eq_true hname⟩)
  | finished answer => cases hact

/-! ### The whole of it -/

namespace World

variable {w w' : World}

/-- What holds between the steps of a run in which calls keep apart. -/
structure Kept (w : World) : Prop where
  named : w.tables.Named
  apart : ∀ (i j : ℕ) (c d : Call), j ≠ i → w.calls[i]? = some c → w.calls[j]? = some d →
    ∀ n, c.touches n = true → d.touches n = false
  holds : ∀ c ∈ w.calls, c.Holds w.tables
  settled : ∀ n, (∀ c ∈ w.calls, c.touches n = false) → w.tables.Settled n

theorem Kept.name (h : w.Kept) (n : String) : w.tables.Settled n ∨ w.tables.Vacant n := by
  by_cases hn : ∃ c ∈ w.calls, c.touches n = true
  · obtain ⟨c, hc, ht⟩ := hn
    exact (h.holds c hc).name ht
  · refine .inl (h.settled n fun c hc => ?_)
    cases ht : c.touches n with
    | false => rfl
    | true => exact absurd ⟨c, hc, ht⟩ hn

theorem Kept.agrees (h : w.Kept) : w.Agrees where
  configured hfin n row := by
    refine (h.settled n fun c hc => ?_).configured_iff row
    obtain ⟨answer, rfl⟩ := hfin c hc
    rfl
  link _ n id := Tables.link_iff (h.name n) id

theorem Kept.acted {i : ℕ} (h : w.Kept)
    (hg : w.heeds (.act i r) = true) (hw : w.step? (.act i r) = some w') :
    ∃ c t' c', w.calls[i]? = some c ∧ Call.Acted w.tables c t' c' ∧
      w' = { w with tables := t', calls := w.calls.set i c' } := by
  obtain ⟨⟨t', c'⟩, hact, rfl⟩ := Option.map_eq_some_iff.mp hw
  obtain ⟨c, hi, hact⟩ := Option.bind_eq_some_iff.mp hact
  have hok : ∀ rows, c = .listing ∨ c = .publishing rows ∧ rows ≠ [] → r.isOk = true := by
    simp only [heeds, hi] at hg
    rintro rows (rfl | ⟨rfl, hne⟩)
    · exact hg
    · obtain ⟨row, rest, rfl⟩ := List.exists_cons_of_ne_nil hne
      exact hg
  exact ⟨c, t', c', hi, .of_act h.named (h.holds c (List.mem_of_getElem? hi)) hok hact, rfl⟩

theorem Kept.act {i : ℕ} (h : w.Kept)
    (hg : w.heeds (.act i r) = true) (hw : w.step? (.act i r) = some w') : w'.Kept := by
  obtain ⟨c, t', c', hi, hacted, rfl⟩ := h.acted hg hw
  have hother : ∀ j d, j ≠ i → w.calls[j]? = some d → d.Holds t' := fun j d hji hd =>
    (h.holds d (List.mem_of_getElem? hd)).same fun n hn => hacted.same n <| by
      cases hc : c.touches n with
      | false => rfl
      | true => exact absurd (hn.symm.trans (h.apart i j c d hji hi hd n hc)) (by decide)
  refine ⟨hacted.named, fun j k d e hkj hd he n hn => ?_, fun d hd => ?_, fun n hn => ?_⟩
  · rcases getElem?_set_cases hd with ⟨rfl, rfl⟩ | ⟨-, hd'⟩
    · rcases getElem?_set_cases he with ⟨rfl, -⟩ | ⟨-, he'⟩
      · exact absurd rfl hkj
      · exact h.apart j k c e hkj hi he' n (hacted.touches n hn)
    · rcases getElem?_set_cases he with ⟨rfl, rfl⟩ | ⟨-, he'⟩
      · cases hc' : e.touches n with
        | false => rfl
        | true =>
          have hno := h.apart j k d c hkj hd' hi n hn
          exact absurd ((hacted.touches n hc').symm.trans hno) (by decide)
      · exact h.apart j k d e hkj hd' he' n hn
  · obtain ⟨j, hd⟩ := List.mem_iff_getElem?.mp hd
    rcases getElem?_set_cases hd with ⟨rfl, rfl⟩ | ⟨hji, hd⟩
    · exact hacted.holds
    · exact hother j d hji hd
  · have hc' : c'.touches n = false :=
      hn c' (List.mem_set (List.getElem?_eq_some_iff.mp hi).1 c')
    cases hc : c.touches n with
    | true => exact hacted.settled n hc hc'
    | false =>
      refine (hacted.same n hc).settled (h.settled n fun d hd => ?_)
      obtain ⟨j, hd⟩ := List.mem_iff_getElem?.mp hd
      by_cases hji : j = i
      · cases hi.symm.trans (hji ▸ hd)
        exact hc
      · exact hn d (List.mem_of_getElem? ((List.getElem?_set_ne (Ne.symm hji)).trans hd))

theorem Kept.call {r : Request} (h : w.Kept) (hg : w.heeds (.call r) = true)
    (hw : w.step? (.call r) = some w') : w'.Kept := by
  cases hw
  have hapart : ∀ c ∈ w.calls, ∀ n, c.touches n = true → r.call.touches n = false :=
    fun c hc => Call.disjoint_of_apart (List.all_eq_true.mp hg c hc)
  have hsettled : ∀ n, r.call.touches n = true → w.tables.Settled n := fun n hn =>
    h.settled n fun c hc => by
      cases ht : c.touches n with
      | false => rfl
      | true => exact absurd (hn.symm.trans (hapart c hc n ht)) (by decide)
  refine ⟨h.named, fun i j c d hji hc hd n hn => ?_, fun c hc => ?_, fun n hn => ?_⟩
  · rcases getElem?_snoc_cases hc with hc | ⟨rfl, rfl⟩
    · rcases getElem?_snoc_cases hd with hd | ⟨rfl, rfl⟩
      · exact h.apart i j c d hji hc hd n hn
      · exact hapart c (List.mem_of_getElem? hc) n hn
    · rcases getElem?_snoc_cases hd with hd | ⟨rfl, -⟩
      · cases ht : d.touches n with
        | false => rfl
        | true =>
          exact absurd (hn.symm.trans (hapart d (List.mem_of_getElem? hd) n ht)) (by decide)
      · exact absurd rfl hji
  · rcases List.mem_append.mp hc with hc | hc
    · exact h.holds c hc
    · obtain rfl := List.mem_singleton.mp hc
      exact Request.holds hsettled
  · exact h.settled n fun c hc => hn c (List.mem_append_left _ hc)

/-- The registry writes the tables under one name, where it is settled before and after and no
call that has to do with the name minds. -/
theorem Kept.registry {links : List Link} (h : w.Kept)
    (hrows : t'.rows = w.tables.rows) (hsame : ∀ n', n' ≠ n → w.tables.Same t' n')
    (hsettled : w.tables.Settled n → t'.Settled n)
    (hholds : ∀ c ∈ w.calls, c.touches n = true → c.Holds t') :
    { w with tables := t', links }.Kept := by
  refine ⟨?_, h.apart, fun c hc => ?_, fun n' hn' => ?_⟩
  · rw [Tables.Named, hrows]
    exact h.named
  · cases ht : c.touches n with
    | true => exact hholds c hc ht
    | false =>
      refine (h.holds c hc).same fun n' hn' => hsame n' ?_
      rintro rfl
      rw [ht] at hn'
      cases hn'
  · by_cases hne : n' = n
    · subst hne
      exact hsettled (h.settled n' hn')
    · exact (hsame n' hne).settled (h.settled n' hn')

/-- A link that may be published, under a name nothing is being configured for, finds its name
settled and without a row. -/
theorem Kept.rows_of_gates {link : Link} {links : List Link} (h : w.Kept)
    (hgates : (w.tables.gates links link).isOk = true)
    (hno : ∀ c ∈ w.calls, c.inserts link.vendorName = false) :
    w.tables.rows.lookup link.vendorName = none ∧
      ∀ c ∈ w.calls, c.touches link.vendorName = true → c = .delete link.vendorName := by
  have hconf : ∀ row, w.tables.published.lookup link.vendorName = none →
      w.tables.vendors.lookup link.vendorName ≠ some (.configured row) := by
    intro row hp hv
    simp [Tables.gates, hp, hv, Except.isOk, Except.toBool] at hgates
  have hdelete : ∀ c ∈ w.calls, c.touches link.vendorName = true →
      c = .delete link.vendorName := by
    intro c hc ht
    have hins := hno c hc
    cases c with
    | delete name => rw [of_decide_eq_true ht]
    | deleted name =>
      obtain rfl := of_decide_eq_true ht
      obtain ⟨-, hp, row, hv⟩ := h.holds _ hc
      exact absurd hv (hconf row hp)
    | _ => exact absurd (ht.symm.trans hins) (by decide)
  have hsettled : w.tables.Settled link.vendorName := by
    by_cases hn : ∃ c ∈ w.calls, c.touches link.vendorName = true
    · obtain ⟨c, hc, ht⟩ := hn
      obtain rfl := hdelete c hc ht
      exact h.holds _ hc
    · refine h.settled _ fun c hc => ?_
      cases ht : c.touches link.vendorName with
      | false => rfl
      | true => exact absurd ⟨c, hc, ht⟩ hn
  refine ⟨?_, hdelete⟩
  rcases hsettled with ⟨row, -, hv, hp⟩ | ⟨hr, -⟩
  · exact absurd hv (hconf row hp)
  · exact hr

variable {id : ℕ}

theorem Kept.register (h : w.Kept) (hg : w.heeds (.register id) = true)
    (hw : w.step? (.register id) = some w') : w'.Kept := by
  simp only [World.step?] at hw
  split at hw
  · rename_i link hlink
    split_ifs at hw
    split at hw
    · rename_i t' hreg
      cases hw
      have hok : (w.tables.gates w.links link).isOk = true := by
        cases hgates : w.tables.gates w.links link with
        | ok u => rfl
        | error e => simp [Tables.register, hgates, Except.map] at hreg
      have hno : ∀ c ∈ w.calls, c.inserts link.vendorName = false := by
        simpa [heeds, hlink, hok] using hg
      obtain ⟨hr, hdelete⟩ := h.rows_of_gates hok hno
      obtain rfl : t' = { w.tables with
          vendors := w.tables.vendors.insert link.vendorName (.link id)
          published := w.tables.published.insert link.vendorName id } := by
        cases hgates : w.tables.gates w.links link with
        | ok u => simpa [Tables.register, hgates, Except.map] using hreg.symm
        | error e => simp [Tables.register, hgates, Except.map] at hreg
      have hsettled : ({ w.tables with
          vendors := w.tables.vendors.insert link.vendorName (.link id)
          published := w.tables.published.insert link.vendorName id } : Tables).Settled
            link.vendorName :=
        .inr ⟨hr, by rw [AList.lookup_insert, AList.lookup_insert]; rfl⟩
      refine h.registry rfl (fun n' hne => ?_) (fun _ => hsettled) fun c hc ht => ?_
      · exact ⟨rfl, AList.lookup_insert_ne hne, AList.lookup_insert_ne hne⟩
      · obtain rfl := hdelete c hc ht
        exact hsettled
    · exact Option.some.inj hw ▸ h
  · cases hw

/-- The eviction of a link that holds its name leaves the name settled, and nobody minds. -/
theorem Kept.evict (h : w.Kept) (hw : w.step? (.evict id) = some w') : w'.Kept := by
  simp only [World.step?] at hw
  split at hw
  · rename_i link hlink
    split_ifs at hw
    cases hw
    unfold Tables.evict
    split
    · rename_i hp
      have hsettled : w.tables.Settled link.vendorName →
          ({ w.tables with
            vendors := w.tables.vendors.erase link.vendorName
            published := w.tables.published.erase link.vendorName } : Tables).Settled
              link.vendorName := by
        rintro (⟨row, -, -, hnone⟩ | ⟨hr, -⟩)
        · rw [hp] at hnone
          cases hnone
        · exact .inr ⟨hr, by rw [AList.lookup_erase, AList.lookup_erase]; rfl⟩
      have hsame : ∀ n', n' ≠ link.vendorName → w.tables.Same { w.tables with
          vendors := w.tables.vendors.erase link.vendorName
          published := w.tables.published.erase link.vendorName } n' := fun n' hne =>
        ⟨rfl, AList.lookup_erase_ne hne, AList.lookup_erase_ne hne⟩
      exact h.registry rfl hsame hsettled fun c hc ht => (h.holds c hc).release ht hp hsame hsettled
    · exact h
  · cases hw

theorem Kept.step {l : Label} (h : w.Kept) (hg : w.heeds l = true) (hw : w.step? l = some w') :
    w'.Kept := by
  cases l with
  | dial vendorName owner instanceId =>
    cases hw
    exact ⟨h.named, h.apart, h.holds, h.settled⟩
  | register id => exact h.register hg hw
  | close id =>
    obtain ⟨link, -, rfl⟩ := Option.map_eq_some_iff.mp hw
    exact ⟨h.named, h.apart, h.holds, h.settled⟩
  | evict id => exact h.evict hw
  | call r => exact h.call hg hw
  | act i r => exact h.act hg hw

theorem Boot.kept (h : w.Boot) : w.Kept := by
  have hp : ∀ n, w.tables.published.lookup n = none := fun n => by rw [h.published]; rfl
  have hv : ∀ n, w.tables.vendors.lookup n = none := fun n => by rw [h.vendors]; rfl
  refine ⟨h.named, fun i j c d hji hc hd => ?_, fun c hc => ?_, fun n hn => ?_⟩
  · rw [h.calls, List.getElem?_singleton] at hc hd
    split_ifs at hc hd with hi hj
    exact absurd (hj.trans hi.symm) hji
  · rw [h.calls] at hc
    obtain rfl := List.mem_singleton.mp hc
    intro n
    cases hr : w.tables.rows.lookup n with
    | none => exact .inl (.inr ⟨hr, by rw [hv, hp]; rfl⟩)
    | some row => exact .inr ⟨rfl, hp n, fun id => by simp [hv]⟩
  · have hmem : Call.listing ∈ w.calls := by rw [h.calls]; exact List.mem_singleton_self _
    cases hn _ hmem

theorem lookup_evict {link : Link}
    (h : t.published.lookup n ≠ some id) :
    (t.evict link id).vendors.lookup n = t.vendors.lookup n := by
  unfold Tables.evict
  split
  · rename_i hp
    refine AList.lookup_erase_ne ?_
    rintro rfl
    exact h hp
  · rfl

theorem evict_cases (hw : w.step? (.evict id) = some w') :
    ∃ link, w' = { w with tables := w.tables.evict link id } := by
  simp only [World.step?] at hw
  split at hw
  · split_ifs at hw
    exact ⟨_, (Option.some.inj hw).symm⟩
  · cases hw

theorem Kept.right {l : Label} (h : w.Kept) (hg : w.heeds l = true) (hw : w.step? l = some w') :
    Right w l w' where
  configured := by
    rintro id rfl n row hv
    obtain ⟨link, rfl⟩ := evict_cases hw
    refine (lookup_evict fun hp => ?_).trans hv
    rw [(Tables.link_iff (h.name n) id).mpr hp] at hv
    cases hv
  newer := by
    rintro id rfl n id' hne hv
    obtain ⟨link, rfl⟩ := evict_cases hw
    refine (lookup_evict fun hp => ?_).trans hv
    rw [(Tables.link_iff (h.name n) id').mp hv] at hp
    exact hne (Option.some.inj hp)
  held := by
    rintro i r rfl n id hp
    have hkept := h.act hg hw
    obtain ⟨c, t', c', -, hacted, rfl⟩ := h.acted hg hw
    exact (Tables.link_iff (hkept.name n) id).mpr (by rw [hacted.published]; exact hp)

end World

/-- Where the calls on one name do not overlap, and no process takes a name that is being
configured, the names and the rows agree once all is done, and nobody loses a name. -/
theorem names_agree {w w' : World} {tr : List (World × Label × World)} (hb : w.Boot)
    (h : vendorNames.Exec w tr w') (hg : ∀ x ∈ tr, x.1.heeds x.2.1 = true) :
    (∀ x ∈ tr, World.Right x.1 x.2.1 x.2.2) ∧ w'.Agrees := by
  have hstep : ∀ s l t, vendorNames.Reachable s → s.Kept → s.heeds l = true →
      vendorNames.Step s l t → t.Kept := fun s l t _ hs hheeds ht => hs.step hheeds ht
  refine ⟨fun x hx => ?_, (h.guarded hstep (.init hb) hb.kept hg).agrees⟩
  obtain ⟨pre, hpre, hmem, hx'⟩ := h.before hx
  have hkept := hpre.guarded hstep (.init hb) hb.kept fun y hy => hg y (hmem y hy)
  exact hkept.right (hg x hx) hx'

/-- A row of boot, a process of its own name, a save that meets the process, and a delete. -/
def bootWorld (rows : Map String VendorRow) : World := ⟨⟨rows, ∅, ∅⟩, [], [.listing]⟩

theorem boot_bootWorld :
    (bootWorld ((∅ : Map String VendorRow).insert row.name row)).Boot where
  named n row' h := by
    rw [bootWorld, Map.lookup_insert_eq] at h
    split_ifs at h with hn
    · rw [← Option.some.inj h, hn]
    · cases h
  vendors := rfl
  published := rfl
  links := rfl
  calls := rfl

theorem names_agree_after_boot : ∃ tr w', vendorNames.Exec
    (bootWorld ((∅ : Map String VendorRow).insert "fly" ⟨"fly", "s", "k"⟩)) tr w' ∧ w'.Agrees ∧
    w'.tables.vendors.lookup "fly" = some (.configured ⟨"fly", "t", "k"⟩) ∧
    w'.tables.vendors.lookup "mac" = some (.link 0) := by
  have hrun : ((System.steps? (System.guarded? (fun w l => World.heeds w l = true) World.step?)
      (bootWorld ((∅ : Map String VendorRow).insert "fly" ⟨"fly", "s", "k"⟩))
      [.act 0 (.ok ()), .act 0 (.ok ()), .act 0 (.ok ()), .dial "mac" "o" "i", .register 0,
        .dial "fly" "o" "j", .register 1, .call (.save ⟨"fly", "t", "k"⟩), .act 1 (.ok ()),
        .act 1 (.ok ()), .act 1 (.ok ()), .act 1 (.ok ())]).map fun w =>
      (w.tables.vendors.lookup "fly", w.tables.vendors.lookup "mac")) =
      some (some (.configured ⟨"fly", "t", "k"⟩), some (.link 0)) := by
    decide +kernel
  obtain ⟨w', hw', hproj⟩ := Option.map_eq_some_iff.mp hrun
  obtain ⟨tr, htr, -, hg⟩ := System.exec_of_guarded? (M := vendorNames)
    (fun _ _ _ _ hstep => hstep) hw'
  obtain ⟨hfly, hmac⟩ := Prod.mk.inj hproj
  have hboot := @boot_bootWorld ⟨"fly", "s", "k"⟩
  exact ⟨tr, w', htr, (names_agree hboot htr hg).2, hfly, hmac⟩

/-- A process takes a name while the substrate is asked about the vendor that is saved under it:
the save takes the name over, and when the process goes, its name goes with it, stored as it is. -/
theorem saved_over_process : ¬∀ (w w' : World) (tr : List (World × Label × World)), w.Boot →
    vendorNames.Exec w tr w' → (∀ x ∈ tr, World.Right x.1 x.2.1 x.2.2) ∧ w'.Agrees := by
  intro h
  have hboot : (bootWorld ∅).Boot := ⟨fun n row hr => (by cases hr), rfl, rfl, rfl, rfl⟩
  have hrun : ((System.steps? World.step? (bootWorld ∅)
      [.act 0 (.ok ()), .act 0 (.ok ()), .call (.save ⟨"fly", "s", "k"⟩), .act 1 (.ok ()),
        .dial "fly" "o" "i", .register 0, .act 1 (.ok ()), .act 1 (.ok ()), .act 1 (.ok ()),
        .close 0, .evict 0]).map fun w => (w.calls, w.tables.rows.lookup "fly",
          w.tables.vendors.lookup "fly", w.tables.published.lookup "fly")) =
      some ([.finished (.ok true), .finished (.ok true)], some ⟨"fly", "s", "k"⟩, none, none) := by
    decide +kernel
  obtain ⟨w', hw', hproj⟩ := Option.map_eq_some_iff.mp hrun
  obtain ⟨tr, htr, -⟩ := System.exec_of_steps? (M := vendorNames) (fun _ _ _ hstep => hstep) hw'
  simp only [Prod.mk.injEq] at hproj
  obtain ⟨hcalls, hrows, hvendors, hpublished⟩ := hproj
  have hserved := ((h _ w' tr hboot htr).2.configured (by simp [hcalls]) "fly" _).mpr
    ⟨hrows, hpublished⟩
  rw [hvendors] at hserved
  cases hserved

end Horsie.Runtime.VendorTable
