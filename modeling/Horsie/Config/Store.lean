import Horsie.Config.Registry
import Horsie.Lib.Take
import Horsie.Lib.Transition

/-!
# The live settings

Sessions find their models in a registry that is kept live, and new ones a vendor in a preference
that is. An edit writes its rows in a transaction, builds the registry of what it sees there,
commits, and then swaps in what it built. The swap comes after the commit and outside the lock of
the database, so commits and swaps of several edits may come in different orders.
-/

namespace Horsie.Config

open Lib

/-! ## The tables -/

structure Rows where
  providers : Map String ProviderRow
  models : Map String ModelRow
  providerOauth : Map String String
  defaultVendor : Option String

namespace Rows

variable (r : Rows)

def readProviders : List ProviderRow :=
  (r.providers.toPairs.map (·.2)).insertionSort fun p q => p.name ≤ q.name

def readModels : List ModelRow :=
  (r.models.toPairs.map (·.2)).insertionSort fun m n => m.modelAlias ≤ n.modelAlias

end Rows

/-- What a value is live for: the models, or the vendor of new sessions. -/
inductive Target
  | registry
  | vendor
deriving DecidableEq

inductive Value
  | registry (reg : Registry)
  | vendor (name : String)

def Value.target : Value → Target
  | registry _ => .registry
  | vendor _ => .vendor

/-- The vendor sessions default to when no preference is stored. -/
def fallbackVendor : String := "local"

def Crates.opened (k : Crates) (r : Rows) : Target → Except String Value
  | .registry =>
    (k.buildRegistry r.readProviders r.readModels r.providerOauth).map .registry
  | .vendor => .ok (.vendor (r.defaultVendor.getD fallbackVendor))

/-- A row that a transaction writes or takes out. -/
inductive Write
  | putProvider (row : ProviderRow)
  | dropProvider (name : String)
  | putModel (row : ModelRow)
  | dropModel (modelAlias : String)
  | dropOauth (provider : String)
  | putDefault (vendor : String)
  | dropDefault
deriving DecidableEq

namespace Write

def apply (r : Rows) : Write → Rows
  | putProvider row => { r with providers := r.providers.insert row.name row }
  | dropProvider name => { r with providers := r.providers.erase name }
  | putModel row => { r with models := r.models.insert row.modelAlias row }
  | dropModel modelAlias => { r with models := r.models.erase modelAlias }
  | dropOauth provider => { r with providerOauth := r.providerOauth.erase provider }
  | putDefault vendor => { r with defaultVendor := some vendor }
  | dropDefault => { r with defaultVendor := none }

def target : Write → Target
  | putDefault _ | dropDefault => .vendor
  | _ => .registry

end Write

/-! ## Edits -/

/-- A transaction: what it has written and read, and how many commits there were as it began or
last looked. -/
structure Tx where
  writes : List Write
  storedKey : Option String
  providers : List ProviderRow
  models : List ModelRow
  oauth : Map String String
  since : ℕ

namespace Tx

def begun (now : ℕ) : Tx := ⟨[], none, [], [], ∅, now⟩

/-- What a transaction sees: what is committed, and its own writes. -/
def seen (tx : Tx) (r : Rows) : Rows := tx.writes.foldl Write.apply r

def wrote (tx : Tx) (ws : List Write) : Tx := { tx with writes := tx.writes ++ ws }

/-- A delete: where it finds no row it does nothing, or ends an edit that needed one. -/
def delete (tx : Tx) (w : Write) (found needed : Bool) (why : String) : Except String Tx :=
  if found then .ok (tx.wrote [w]) else if needed then .error why else .ok tx

end Tx

inductive Statement
  | readKey (name : String)
  | deleteProvider (name : String) (needed : Bool)
  | insertProvider (input : ProviderInput) (name : String)
  | deleteOauth (name : String)
  | deleteModelsOf (provider : String)
  | deleteModel (modelAlias : String) (needed : Bool)
  | insertModel (row : ModelRow)
  | upsertDefault (vendor : String)
  | deleteDefault
  | readProviders
  | readModels
  | readOauth
deriving DecidableEq

namespace Statement

/-- A statement on what its transaction sees, as there were `now` commits. -/
def run (r : Rows) (now : ℕ) (tx : Tx) : Statement → Except String Tx
  | readKey name => .ok { tx with storedKey := ((tx.seen r).providers.lookup name).bind (·.apiKey) }
  | deleteProvider name needed =>
    tx.delete (.dropProvider name) ((tx.seen r).providers.lookup name).isSome needed
      ("no such provider '" ++ name ++ "'")
  | insertProvider input name => .ok (tx.wrote [.putProvider (input.row name tx.storedKey)])
  | deleteOauth name => .ok (tx.wrote [.dropOauth name])
  | deleteModelsOf provider =>
    .ok (tx.wrote (((tx.seen r).models.toPairs.filter (·.2.provider = provider)).map fun m =>
      .dropModel m.1))
  | deleteModel modelAlias needed =>
    tx.delete (.dropModel modelAlias) ((tx.seen r).models.lookup modelAlias).isSome needed
      ("no such model '" ++ modelAlias ++ "'")
  | insertModel row => .ok (tx.wrote [.putModel row])
  | upsertDefault vendor => .ok { tx.wrote [.putDefault vendor] with since := now }
  | deleteDefault =>
    .ok { tx.wrote (if (tx.seen r).defaultVendor.isSome then [.dropDefault] else []) with
      since := now }
  | readProviders => .ok { tx with providers := (tx.seen r).readProviders, since := now }
  | readModels => .ok { tx with models := (tx.seen r).readModels }
  | readOauth => .ok { tx with oauth := (tx.seen r).providerOauth }

/-- Whether a statement is one of those that write providers, models and sign-ins. -/
def isEdit : Statement → Bool
  | upsertDefault _ | deleteDefault | readProviders | readModels | readOauth => false
  | _ => true

end Statement

inductive Edit
  | upsertProvider (input : ProviderInput)
  | deleteProvider (name : String)
  | upsertModel (input : ModelInput)
  | deleteModel (modelAlias : String)
  | rebuildRegistry
  | setDefaultRuntimeVendor (vendor : String)
  | clearDefaultRuntimeVendor
deriving DecidableEq

namespace Edit

def target : Edit → Target
  | setDefaultRuntimeVendor _ | clearDefaultRuntimeVendor => .vendor
  | _ => .registry

def reads : List Statement := [.readProviders, .readModels, .readOauth]

def statements (k : Crates) : Edit → Except String (List Statement)
  | upsertProvider input => (k.validateProvider input).map fun name =>
    [.readKey name, .deleteProvider name false, .insertProvider input name] ++
      (if input.kind = "chatgpt" then [] else [.deleteOauth name]) ++ reads
  | deleteProvider name =>
    .ok ([.deleteModelsOf (trim name), .deleteProvider (trim name) true,
      .deleteOauth (trim name)] ++ reads)
  | upsertModel input => (validateModel input).map fun modelAlias =>
    [.deleteModel modelAlias false, .insertModel (input.row modelAlias)] ++ reads
  | deleteModel modelAlias => .ok ([.deleteModel (trim modelAlias) true] ++ reads)
  | rebuildRegistry => .ok reads
  | setDefaultRuntimeVendor vendor =>
    if (trim vendor).isEmpty then .error "default vendor cannot be empty"
    else .ok [.upsertDefault (trim vendor)]
  | clearDefaultRuntimeVendor => .ok [.deleteDefault]

/-- What an edit swaps in, built before its commit. -/
def value (k : Crates) (tx : Tx) : Edit → Except String Value
  | setDefaultRuntimeVendor vendor => .ok (.vendor (trim vendor))
  | clearDefaultRuntimeVendor => .ok (.vendor fallbackVendor)
  | _ => (k.buildRegistry tx.providers tx.models tx.oauth).map .registry

end Edit

/-! ## Runs -/

inductive Dialect
  | sqlite
  | postgres
deriving DecidableEq

inductive Call
  | start (e : Edit)
  | running (e : Edit) (todo : List Statement) (tx : Tx)
  | committed (e : Edit) (v : Value) (number : ℕ)
  | finished (answer : Except String Unit)

namespace Call

def isWriting : Call → Bool
  | running _ _ _ => true
  | _ => false

def isFinished : Call → Bool
  | finished _ => true
  | _ => false

def isOpen : Call → Bool
  | start _ | running _ _ _ => true
  | _ => false

def isUnwritten : Call → Bool
  | start _ | running _ _ _ | finished (.error _) => true
  | committed _ _ _ | finished (.ok _) => false

def isRebuild : Call → Bool
  | start .rebuildRegistry | running .rebuildRegistry _ _ => true
  | _ => false

end Call

structure World where
  rows : Rows
  registry : Registry
  defaultRuntimeVendor : String
  calls : List Call
  commits : Target → ℕ
  shown : Target → ℕ

inductive Event
  | call (e : Edit)
  | signIn (provider tokens : String)
  | begin (i : ℕ)
  | execute (i : ℕ)
  | commit (i : ℕ)
  | swap (i : ℕ)
  | fail (i : ℕ) (why : String)
deriving DecidableEq

/-- Whose step it is. -/
def Event.call? : Event → Option ℕ
  | call _ | signIn _ _ => none
  | begin i | execute i | commit i | swap i | fail i _ => some i

namespace World

variable (x : World)

def live : Target → Value
  | .registry => .registry x.registry
  | .vendor => .vendor x.defaultRuntimeVendor

/-- Whether a transaction is under way. -/
def writing : Bool := x.calls.any Call.isWriting

def moved (i : ℕ) (c : Call) : World := { x with calls := x.calls.set i c }

def called (e : Edit) : World := { x with calls := x.calls ++ [.start e] }

def bumped (t : Target) : Target → ℕ := Function.update x.commits t (x.commits t + 1)

def signedIn (provider tokens : String) : World :=
  { x with
    rows := { x.rows with providerOauth := x.rows.providerOauth.insert provider tokens }
    calls := x.calls ++ [.start .rebuildRegistry]
    commits := x.bumped .registry }

def committed (i : ℕ) (e : Edit) (tx : Tx) (v : Value) : World :=
  { x with
    rows := tx.seen x.rows
    calls := x.calls.set i (.committed e v (x.commits e.target + 1))
    commits := x.bumped e.target }

def put (v : Value) : World :=
  match v with
  | .registry reg => { x with registry := reg }
  | .vendor name => { x with defaultRuntimeVendor := name }

def swapped (i : ℕ) (e : Edit) (v : Value) (number : ℕ) : World :=
  { x.put v with
    calls := x.calls.set i (.finished (.ok ()))
    shown := Function.update x.shown e.target number }

/-- Whether a transaction may begin, or a row be written without one: SQLite has one writer at a
time. -/
def free (d : Dialect) : Prop := d = .sqlite → x.writing = false

end World

section

variable (k : Crates) (d : Dialect)

inductive Step : World → Event → World → Prop
  | call {x : World} {e : Edit} : Step x (.call e) (x.called e)
  | signIn {x : World} {provider tokens : String} (hfree : x.free d) :
      Step x (.signIn provider tokens) (x.signedIn provider tokens)
  | refuse {x : World} {i : ℕ} {e : Edit} {why : String} (hi : x.calls[i]? = some (.start e))
      (h : e.statements k = .error why) : Step x (.begin i) (x.moved i (.finished (.error why)))
  | begin {x : World} {i : ℕ} {e : Edit} {todo : List Statement}
      (hi : x.calls[i]? = some (.start e)) (h : e.statements k = .ok todo) (hfree : x.free d) :
      Step x (.begin i) (x.moved i (.running e todo (.begun (x.commits e.target))))
  | reject {x : World} {i : ℕ} {e : Edit} {s : Statement} {todo : List Statement} {tx : Tx}
      {why : String} (hi : x.calls[i]? = some (.running e (s :: todo) tx))
      (h : s.run x.rows (x.commits e.target) tx = .error why) :
      Step x (.execute i) (x.moved i (.finished (.error why)))
  | execute {x : World} {i : ℕ} {e : Edit} {s : Statement} {todo : List Statement} {tx tx' : Tx}
      (hi : x.calls[i]? = some (.running e (s :: todo) tx))
      (h : s.run x.rows (x.commits e.target) tx = .ok tx') :
      Step x (.execute i) (x.moved i (.running e todo tx'))
  | unbuildable {x : World} {i : ℕ} {e : Edit} {tx : Tx} {why : String}
      (hi : x.calls[i]? = some (.running e [] tx)) (h : e.value k tx = .error why) :
      Step x (.commit i) (x.moved i (.finished (.error why)))
  | commit {x : World} {i : ℕ} {e : Edit} {tx : Tx} {v : Value}
      (hi : x.calls[i]? = some (.running e [] tx)) (h : e.value k tx = .ok v) :
      Step x (.commit i) (x.committed i e tx v)
  | swap {x : World} {i : ℕ} {e : Edit} {v : Value} {number : ℕ}
      (hi : x.calls[i]? = some (.committed e v number)) :
      Step x (.swap i) (x.swapped i e v number)
  | fail {x : World} {i : ℕ} {c : Call} {why : String} (hi : x.calls[i]? = some c)
      (hc : c.isOpen = true) : Step x (.fail i why) (x.moved i (.finished (.error why)))

/-- The server has opened: what is live is what the rows say. -/
structure Opened (x : World) : Prop where
  live : ∀ t, k.opened x.rows t = .ok (x.live t)
  calls : x.calls = []
  commits : ∀ t, x.commits t = 0
  shown : ∀ t, x.shown t = 0

/-- Edits of one project's settings on one server, in any order of their statements. -/
def editing : System World Event where
  Init := Opened k
  Step := Step k d

end

namespace World

/-- A value is swapped in only over one from an earlier commit; nothing that is read to build it is
committed before it is; and a registry that is to be rebuilt is. -/
def careful (d : Dialect) (x : World) : Event → Bool
  | .swap i =>
    x.calls[i]?.all fun c =>
      match c with
      | .committed e _ number => x.shown e.target < number
      | _ => true
  | .commit i =>
    d = .sqlite || x.calls[i]?.all fun c =>
      match c with
      | .running e _ tx => tx.since = x.commits e.target
      | _ => true
  | .fail i _ => x.calls[i]?.all fun c => !c.isRebuild
  | _ => true

/-- Once every call has finished, what is live is what a server would open with. -/
def Agrees (k : Crates) (x : World) : Prop :=
  (∀ c ∈ x.calls, c.isFinished = true) → ∀ t, k.opened x.rows t = .ok (x.live t)

/-- Whether a step left the rows and what is live as they were. -/
def Same (x y : World) : Prop :=
  y.rows = x.rows ∧ y.registry = x.registry ∧ y.defaultRuntimeVendor = x.defaultRuntimeVendor

end World

/-! ## What an edit sees -/

namespace Rows

/-- Two states of the tables say the same of what a value is built from. -/
def Alike (t : Target) (r r' : Rows) : Prop :=
  match t with
  | .registry =>
    r'.providers = r.providers ∧ r'.models = r.models ∧ r'.providerOauth = r.providerOauth
  | .vendor => r'.defaultVendor = r.defaultVendor

variable {t : Target} {r r' r'' : Rows} {w : Write} {ws : List Write}

theorem Alike.refl (t : Target) (r : Rows) : r.Alike t r := by
  cases t with
  | registry => exact ⟨rfl, rfl, rfl⟩
  | vendor => rfl

theorem Alike.trans (h : r.Alike t r') (h' : r'.Alike t r'') : r.Alike t r'' := by
  cases t with
  | registry => exact ⟨h'.1.trans h.1, h'.2.1.trans h.2.1, h'.2.2.trans h.2.2⟩
  | vendor => exact Eq.trans h' h

theorem Alike.opened {k : Crates} (h : r.Alike t r') : k.opened r' t = k.opened r t := by
  cases t with
  | registry =>
    obtain ⟨hp, hm, ho⟩ := h
    unfold Crates.opened Rows.readProviders Rows.readModels
    rw [hp, hm, ho]
  | vendor =>
    unfold Crates.opened
    rw [show r'.defaultVendor = r.defaultVendor from h]

theorem Alike.apply (h : r.Alike t r') : (w.apply r).Alike t (w.apply r') := by
  cases t with
  | registry =>
    obtain ⟨hp, hm, ho⟩ := h
    cases w <;> simp [Alike, Write.apply, hp, hm, ho]
  | vendor =>
    have hv : r'.defaultVendor = r.defaultVendor := h
    cases w <;> simp [Alike, Write.apply, hv]

theorem alike_apply (h : w.target ≠ t) : r.Alike t (w.apply r) := by
  cases t with
  | registry => cases w <;> first | exact ⟨rfl, rfl, rfl⟩ | exact absurd rfl h
  | vendor => cases w <;> first | rfl | exact absurd rfl h

theorem Alike.written (h : r.Alike t r') :
    (ws.foldl Write.apply r).Alike t (ws.foldl Write.apply r') := by
  induction ws generalizing r r' with
  | nil => exact h
  | cons w ws ih => exact ih h.apply

theorem alike_written (h : ∀ w ∈ ws, w.target ≠ t) : r.Alike t (ws.foldl Write.apply r) := by
  induction ws generalizing r with
  | nil => exact .refl t r
  | cons w ws ih =>
    exact (alike_apply (h w List.mem_cons_self)).trans (ih fun x hx =>
      h x (List.mem_cons_of_mem _ hx))

end Rows

section

variable {k : Crates} {r r' : Rows} {now : ℕ} {tx tx' : Tx} {s : Statement} {e : Edit} {v : Value}
  {todo : List Statement} {P Q : Prop}

theorem map_eq_ok {α β : Type} {x : Except String α} {f : α → β} {b : β} :
    x.map f = .ok b ↔ ∃ a, x = .ok a ∧ f a = b := by
  cases x with
  | error why =>
    constructor
    · intro h
      cases h
    · rintro ⟨a, h, -⟩
      cases h
  | ok a =>
    constructor
    · intro h
      exact ⟨a, rfl, Except.ok.inj h⟩
    · rintro ⟨a', h, rfl⟩
      cases h
      rfl

theorem Tx.delete_cases {w : Write} {found needed : Bool} {why : String}
    (h : tx.delete w found needed why = .ok tx') : tx' = tx.wrote [w] ∨ tx' = tx := by
  unfold Tx.delete at h
  split_ifs at h
  · exact .inl (Except.ok.inj h).symm
  · exact .inr (Except.ok.inj h).symm

def Statement.target : Statement → Target
  | upsertDefault _ | deleteDefault => .vendor
  | _ => .registry

theorem Statement.run_writes (h : s.run r now tx = .ok tx') :
    ∀ w ∈ tx'.writes, w ∈ tx.writes ∨ w.target = s.target := by
  have hwrote (ws : List Write) (hws : ∀ w ∈ ws, w.target = s.target) :
      ∀ w ∈ (tx.wrote ws).writes, w ∈ tx.writes ∨ w.target = s.target := fun w hw =>
    (List.mem_append.mp hw).imp_right (hws w)
  have hone (w : Write) (hw : w.target = s.target) : ∀ w' ∈ [w], w'.target = s.target := by
    intro w' hw'
    obtain rfl := List.mem_singleton.mp hw'
    exact hw
  cases s with
  | readKey name | readProviders | readModels | readOauth =>
    cases h
    exact fun w hw => .inl hw
  | deleteProvider name needed | deleteModel name needed =>
    rcases Tx.delete_cases h with rfl | rfl
    · exact hwrote _ (hone _ rfl)
    · exact fun w hw => .inl hw
  | insertProvider input name =>
    cases h
    exact hwrote _ (hone _ rfl)
  | deleteOauth name =>
    cases h
    exact hwrote _ (hone _ rfl)
  | insertModel row =>
    cases h
    exact hwrote _ (hone _ rfl)
  | deleteModelsOf provider =>
    cases h
    refine hwrote _ fun w hw => ?_
    obtain ⟨m, -, rfl⟩ := List.mem_map.mp hw
    rfl
  | upsertDefault vendor =>
    cases h
    exact hwrote _ (hone _ rfl)
  | deleteDefault =>
    cases h
    refine hwrote _ fun w hw => ?_
    split_ifs at hw
    · exact hone _ rfl w hw
    · cases hw

theorem Statement.run_since (h : s.run r now tx = .ok tx') :
    tx'.since = tx.since ∨ tx'.since = now := by
  cases s with
  | readProviders | upsertDefault vendor | deleteDefault =>
    cases h
    exact .inr rfl
  | deleteProvider name needed | deleteModel name needed =>
    rcases Tx.delete_cases h with rfl | rfl <;> exact .inl rfl
  | _ =>
    cases h
    exact .inl rfl

/-- How far an edit is with its statements, and that, as long as `current` holds, it would read
again what it has read. -/
inductive Stage (k : Crates) (r : Rows) (tx : Tx) (current : Prop) : Edit → List Statement → Prop
  | writing {e : Edit} {ws : List Statement} (he : e.target = .registry)
      (hws : ∀ s ∈ ws, s.isEdit = true) : Stage k r tx current e (ws ++ Edit.reads)
  | models {e : Edit} (he : e.target = .registry)
      (hp : current → tx.providers = (tx.seen r).readProviders) :
      Stage k r tx current e [.readModels, .readOauth]
  | oauth {e : Edit} (he : e.target = .registry)
      (hp : current → tx.providers = (tx.seen r).readProviders)
      (hm : current → tx.models = (tx.seen r).readModels) : Stage k r tx current e [.readOauth]
  | built {e : Edit} (he : e.target = .registry)
      (hp : current → tx.providers = (tx.seen r).readProviders)
      (hm : current → tx.models = (tx.seen r).readModels)
      (ho : current → tx.oauth = (tx.seen r).providerOauth) : Stage k r tx current e []
  | setting {vendor : String} :
      Stage k r tx current (.setDefaultRuntimeVendor vendor) [.upsertDefault (trim vendor)]
  | clearing : Stage k r tx current .clearDefaultRuntimeVendor [.deleteDefault]
  | chosen {e : Edit} (he : e.target = .vendor)
      (h : current → e.value k tx = k.opened (tx.seen r) .vendor) : Stage k r tx current e []

theorem stage_of_statements (h : e.statements k = .ok todo) : Stage k r tx P e todo := by
  cases e with
  | upsertProvider input =>
    obtain ⟨name, -, rfl⟩ := map_eq_ok.mp h
    refine .writing rfl fun s hs => ?_
    split_ifs at hs <;> simp at hs <;> rcases hs with rfl | rfl | rfl | rfl <;> rfl
  | deleteProvider name =>
    cases h
    exact .writing rfl fun s hs => by simp at hs; rcases hs with rfl | rfl | rfl <;> rfl
  | upsertModel input =>
    obtain ⟨modelAlias, -, rfl⟩ := map_eq_ok.mp h
    exact .writing rfl fun s hs => by simp at hs; rcases hs with rfl | rfl <;> rfl
  | deleteModel modelAlias =>
    cases h
    exact .writing rfl fun s hs => by simp at hs; rcases hs with rfl; rfl
  | rebuildRegistry =>
    cases h
    exact @Stage.writing k r tx P _ [] rfl fun s hs => absurd hs List.not_mem_nil
  | setDefaultRuntimeVendor vendor =>
    simp only [Edit.statements] at h
    split_ifs at h
    cases h
    exact .setting
  | clearDefaultRuntimeVendor =>
    cases h
    exact .clearing

theorem Stage.target (h : Stage k r tx P e (s :: todo)) : s.target = e.target := by
  generalize hl : s :: todo = l at h
  cases h with
  | @writing _ ws he hws =>
    rw [he]
    cases ws with
    | nil =>
      cases hl
      rfl
    | cons w ws =>
      cases hl
      have hs := hws s List.mem_cons_self
      cases s <;> first | rfl | cases hs
  | models he | oauth he =>
    cases hl
    exact he.symm
  | built | chosen => cases hl
  | setting | clearing =>
    cases hl
    rfl

theorem Stage.execute (h : Stage k r tx (tx.since = now) e (s :: todo))
    (hrun : s.run r now tx = .ok tx') : Stage k r tx' (tx'.since = now) e todo := by
  generalize hl : s :: todo = l at h
  cases h with
  | @writing _ ws he hws =>
    cases ws with
    | nil =>
      cases hl
      cases hrun
      exact .models he fun _ => rfl
    | cons w ws =>
      cases hl
      exact .writing he fun x hx => hws x (List.mem_cons_of_mem _ hx)
  | models he hp =>
    cases hl
    cases hrun
    exact .oauth he hp fun _ => rfl
  | oauth he hp hm =>
    cases hl
    cases hrun
    exact .built he hp hm fun _ => rfl
  | built | chosen => cases hl
  | setting =>
    cases hl
    cases hrun
    refine .chosen rfl fun _ => ?_
    unfold Crates.opened Tx.seen Tx.wrote
    rw [List.foldl_append]
    rfl
  | clearing =>
    cases hl
    cases hrun
    refine .chosen rfl fun _ => ?_
    have hnone : ((tx.wrote (if (tx.seen r).defaultVendor.isSome then [.dropDefault] else [])).seen
        r).defaultVendor = none := by
      unfold Tx.seen Tx.wrote
      rw [List.foldl_append]
      split_ifs with hsome
      · rfl
      · exact Option.not_isSome_iff_eq_none.mp hsome
    show _ = Except.ok (Value.vendor ((((tx.wrote _).seen r).defaultVendor).getD fallbackVendor))
    rw [hnone]
    rfl

/-- An edit stays at its stage while what its value is built from does not change. -/
theorem Stage.alike (h : Stage k r tx P e todo) (hrows : Q → P ∧ r.Alike e.target r') :
    Stage k r' tx Q e todo := by
  have hread (he : e.target = .registry) (hq : Q) :
      (tx.seen r').readProviders = (tx.seen r).readProviders ∧
        (tx.seen r').readModels = (tx.seen r).readModels ∧
          (tx.seen r').providerOauth = (tx.seen r).providerOauth := by
    have hseen : (tx.seen r).Alike .registry (tx.seen r') := (he ▸ (hrows hq).2).written
    unfold Rows.readProviders Rows.readModels
    rw [hseen.1, hseen.2.1, hseen.2.2]
    exact ⟨rfl, rfl, rfl⟩
  cases h with
  | writing he hws => exact .writing he hws
  | models he hp =>
    exact .models he fun hq => (hp (hrows hq).1).trans (hread he hq).1.symm
  | oauth he hp hm =>
    exact .oauth he (fun hq => (hp (hrows hq).1).trans (hread he hq).1.symm)
      fun hq => (hm (hrows hq).1).trans (hread he hq).2.1.symm
  | built he hp hm ho =>
    exact .built he (fun hq => (hp (hrows hq).1).trans (hread he hq).1.symm)
      (fun hq => (hm (hrows hq).1).trans (hread he hq).2.1.symm)
      fun hq => (ho (hrows hq).1).trans (hread he hq).2.2.symm
  | setting => exact .setting
  | clearing => exact .clearing
  | chosen he h =>
    refine .chosen he fun hq => (h (hrows hq).1).trans ?_
    exact (Rows.Alike.opened (he ▸ (hrows hq).2).written).symm

/-- What an edit swaps in is what a server would open with on the rows it commits. -/
theorem Stage.value (h : Stage k r tx P e []) (hp : P) :
    e.value k tx = k.opened (tx.seen r) e.target := by
  generalize hl : ([] : List Statement) = l at h
  cases h with
  | @writing _ ws => exact absurd hl.symm (List.append_ne_nil_of_right_ne_nil _ (by decide))
  | models | oauth | setting | clearing => cases hl
  | built he hprov hm ho =>
    have hvalue : e.value k tx =
        (k.buildRegistry tx.providers tx.models tx.oauth).map .registry := by
      cases e <;> first | rfl | cases he
    rw [hvalue, hprov hp, hm hp, ho hp, he]
    rfl
  | chosen he h => rw [h hp, he]

theorem value_target (h : e.value k tx = .ok v) : v.target = e.target := by
  cases e with
  | setDefaultRuntimeVendor vendor | clearDefaultRuntimeVendor =>
    cases h
    rfl
  | _ =>
    obtain ⟨reg, -, rfl⟩ := map_eq_ok.mp h
    rfl

end

/-! ## What is live, and what is about to be -/

section

variable {k : Crates} {d : Dialect} {x y : World} {i j : ℕ} {t : Target} {e : Edit} {c c' : Call}
  {v : Value} {tx : Tx} {todo : List Statement} {l : Event}

/-- A transaction is about what its edit is about, and has read what it would read again if nothing
was committed since; under SQLite nothing was. -/
structure Sound (k : Crates) (d : Dialect) (x : World) (e : Edit) (todo : List Statement)
    (tx : Tx) : Prop where
  writes : ∀ w ∈ tx.writes, w.target = e.target
  since : tx.since ≤ x.commits e.target
  sqlite : d = .sqlite → tx.since = x.commits e.target
  stage : Stage k x.rows tx (tx.since = x.commits e.target) e todo
  rebuild : e = .rebuildRegistry → tx.writes = [] ∧ ∀ s ∈ todo, s ∈ Edit.reads

/-- The last value that was committed is live, or about to be. -/
structure Coherent (k : Crates) (d : Dialect) (x : World) : Prop where
  sound : ∀ (i : ℕ) (e : Edit) (todo : List Statement) (tx : Tx),
    x.calls[i]? = some (.running e todo tx) → Sound k d x e todo tx
  alone : d = .sqlite → ∀ (i j : ℕ) (c c' : Call), x.calls[i]? = some c → x.calls[j]? = some c' →
    c.isWriting = true → c'.isWriting = true → i = j
  buildable : ∃ v, k.opened x.rows .registry = .ok v
  committed : ∀ (i : ℕ) (e : Edit) (v : Value) (n : ℕ),
    x.calls[i]? = some (.committed e v n) → v.target = e.target ∧ n ≤ x.commits e.target ∧
      (n = x.commits e.target → k.opened x.rows e.target = .ok v)
  shown : ∀ t, x.shown t ≤ x.commits t
  live : ∀ t, x.shown t = x.commits t → k.opened x.rows t = .ok (x.live t)
  pending : ∀ t, x.shown t < x.commits t →
    (∃ (i : ℕ) (e : Edit) (v : Value), e.target = t ∧
      x.calls[i]? = some (.committed e v (x.commits t))) ∨
    t = .registry ∧ ∃ (i : ℕ) (c : Call), x.calls[i]? = some c ∧ c.isRebuild = true

theorem coherent_of_opened (h : Opened k x) : Coherent k d x where
  sound i e todo tx hi := absurd hi (by simp [h.calls])
  alone _ i j c c' hi := absurd hi (by simp [h.calls])
  buildable := ⟨_, h.live .registry⟩
  committed i e v n hi := absurd hi (by simp [h.calls])
  shown t := by rw [h.commits, h.shown]
  live t _ := h.live t
  pending t ht := by
    rw [h.commits, h.shown] at ht
    exact absurd ht (Nat.lt_irrefl 0)

/-- Once every call has finished, the last value that was committed is live. -/
theorem Coherent.agrees (h : Coherent k d x) : x.Agrees k := by
  intro hall t
  have hfinished (i : ℕ) (c : Call) (hi : x.calls[i]? = some c) : c.isFinished = true :=
    hall c (List.mem_of_getElem? hi)
  refine h.live t (Nat.le_antisymm (h.shown t) (Nat.le_of_not_lt fun hlt => ?_))
  rcases h.pending t hlt with ⟨i, e, v, -, hi⟩ | ⟨-, i, c, hi, hc⟩
  · cases hfinished i _ hi
  · have hdone := hfinished i c hi
    cases c with
    | finished => cases hc
    | start | running | committed => cases hdone

/-! ### Calls that go on -/

/-- A call that commits nothing goes on. One that rebuilds the registry is not given up. -/
theorem Coherent.moved (h : Coherent k d x) (hi : x.calls[i]? = some c)
    (hc : ∀ e v n, c ≠ .committed e v n) (hc' : ∀ e v n, c' ≠ .committed e v n)
    (hsound : ∀ e todo tx, c' = .running e todo tx → Sound k d x e todo tx)
    (hfree : c'.isWriting = true → c.isWriting = true ∨ x.free d)
    (hrebuild : c.isRebuild = true → c'.isRebuild = true) : Coherent k d (x.moved i c') := by
  have hlt : i < x.calls.length := (List.getElem?_eq_some_iff.mp hi).1
  refine ⟨fun j e todo tx hj => ?_, fun hd j j' a b hj hj' ha hb => ?_, h.buildable,
    fun j e v n hj => ?_, h.shown, h.live, fun t ht => ?_⟩
  · have hs : Sound k d x e todo tx := by
      rcases getElem?_set_cases hj with ⟨-, heq⟩ | ⟨-, hj⟩
      · exact hsound e todo tx heq.symm
      · exact h.sound j e todo tx hj
    exact ⟨hs.writes, hs.since, hs.sqlite, hs.stage, hs.rebuild⟩
  · -- another transaction is under way only if this call was no new one
    have hother {j : ℕ} {a : Call} (hj : x.calls[j]? = some a) (ha : a.isWriting = true)
        (hnew : c'.isWriting = true) : j = i := by
      rcases hfree hnew with hwas | hfree
      · exact h.alone hd j i a c hj hi ha hwas
      · have hno := List.any_eq_false.mp (hfree hd) a (List.mem_of_getElem? hj)
        exact absurd ha hno
    rcases getElem?_set_cases hj with ⟨hji, rfl⟩ | ⟨-, hold⟩
    · rcases getElem?_set_cases hj' with ⟨hji', -⟩ | ⟨-, hold'⟩
      · exact hji.trans hji'.symm
      · exact hji.trans (hother hold' hb ha).symm
    · rcases getElem?_set_cases hj' with ⟨hji', rfl⟩ | ⟨-, hold'⟩
      · exact (hother hold ha hb).trans hji'.symm
      · exact h.alone hd j j' a b hold hold' ha hb
  · rcases getElem?_set_cases hj with ⟨-, heq⟩ | ⟨-, hj⟩
    · exact absurd heq.symm (hc' e v n)
    · exact h.committed j e v n hj
  · rcases h.pending t ht with ⟨j, e, v, he, hj⟩ | ⟨ht, j, a, hj, ha⟩
    · left
      refine ⟨j, e, v, he, (List.getElem?_set_ne ?_).trans hj⟩
      rintro rfl
      exact hc e v _ (Option.some.inj (hi.symm.trans hj))
    · right
      refine ⟨ht, ?_⟩
      by_cases hij : i = j
      · subst hij
        cases hi.symm.trans hj
        exact ⟨i, c', List.getElem?_set_self hlt, hrebuild ha⟩
      · exact ⟨j, a, (List.getElem?_set_ne hij).trans hj, ha⟩

theorem Coherent.called (h : Coherent k d x) : Coherent k d (x.called e) := by
  refine ⟨fun j e todo tx hj => ?_, fun hd j j' a b hj hj' ha hb => ?_, h.buildable,
    fun j e v n hj => ?_, h.shown, h.live, fun t ht => ?_⟩
  · rcases getElem?_snoc_cases hj with hj | ⟨-, heq⟩
    · have hs := h.sound j e todo tx hj
      exact ⟨hs.writes, hs.since, hs.sqlite, hs.stage, hs.rebuild⟩
    · cases heq
  · rcases getElem?_snoc_cases hj with hj | ⟨-, rfl⟩
    · rcases getElem?_snoc_cases hj' with hj' | ⟨-, rfl⟩
      · exact h.alone hd j j' a b hj hj' ha hb
      · cases hb
    · cases ha
  · rcases getElem?_snoc_cases hj with hj | ⟨-, heq⟩
    · exact h.committed j e v n hj
    · cases heq
  · rcases h.pending t ht with ⟨j, e, v, he, hj⟩ | ⟨ht, j, a, hj, ha⟩
    · exact .inl ⟨j, e, v, he, getElem?_snoc_of_some hj⟩
    · exact .inr ⟨ht, j, a, getElem?_snoc_of_some hj, ha⟩

/-! ### Rows that are written -/

theorem bumped_self : x.bumped t t = x.commits t + 1 := Function.update_self _ _ _

theorem bumped_of_ne {t' : Target} (h : t' ≠ t) : x.bumped t t' = x.commits t' :=
  Function.update_of_ne h _ _

/-- What one value is built from was written. Every transaction on that is behind now, and for the
other value nothing has changed. -/
theorem Coherent.written {T : Target} {new : Call} (h : Coherent k d x)
    (hrows : ∀ t, t ≠ T → x.rows.Alike t y.rows)
    (hbuildable : ∃ v, k.opened y.rows .registry = .ok v)
    (hcommits : y.commits = x.bumped T) (hshown : y.shown = x.shown)
    (hlive : ∀ t, y.live t = x.live t)
    (hquiet : d = .sqlite → ∀ (j : ℕ) (c : Call), y.calls[j]? = some c → c.isWriting = false)
    (hcalls : ∀ (j : ℕ) (c : Call), y.calls[j]? = some c → x.calls[j]? = some c ∨ c = new)
    (hnew : new.isWriting = false)
    (hcommitted : ∀ e v n, new = .committed e v n → e.target = T ∧ v.target = T ∧
      n = x.commits T + 1 ∧ k.opened y.rows T = .ok v)
    (hkept : ∀ (j : ℕ) (c : Call), x.calls[j]? = some c → c.isWriting = false →
      y.calls[j]? = some c)
    (hrebuild : T = .vendor → ∀ (j : ℕ) (c : Call), x.calls[j]? = some c → c.isRebuild = true →
      y.calls[j]? = some c)
    (hpending : (∃ (i : ℕ) (e : Edit) (v : Value), e.target = T ∧
        y.calls[i]? = some (.committed e v (x.commits T + 1))) ∨
      T = .registry ∧ ∃ (i : ℕ) (c : Call), y.calls[i]? = some c ∧ c.isRebuild = true) :
    Coherent k d y := by
  have hle (t : Target) : x.commits t ≤ y.commits t := by
    rw [hcommits]
    by_cases ht : t = T
    · subst ht
      rw [bumped_self]
      omega
    · rw [bumped_of_ne ht]
  have hopened (t : Target) (ht : t ≠ T) : k.opened y.rows t = k.opened x.rows t :=
    (hrows t ht).opened
  refine ⟨fun j e todo tx hj => ?_, fun hd j j' a b hj _ ha _ => ?_, hbuildable,
    fun j e v n hj => ?_, fun t => ?_, fun t ht => ?_, fun t ht => ?_⟩
  · rcases hcalls j _ hj with hj' | rfl
    · have hs := h.sound j e todo tx hj'
      refine ⟨hs.writes, Nat.le_trans hs.since (hle _), fun hd => ?_, hs.stage.alike ?_,
        hs.rebuild⟩
      · cases hquiet hd j _ hj
      · intro hcurrent
        have hsince := hs.since
        by_cases ht : e.target = T
        · rw [hcommits, ht, bumped_self] at hcurrent
          rw [ht] at hsince
          omega
        · rw [hcommits, bumped_of_ne ht] at hcurrent
          exact ⟨hcurrent, hrows _ ht⟩
    · cases hnew
  · rw [hquiet hd j a hj] at ha
    cases ha
  · rcases hcalls j _ hj with hj' | heq
    · obtain ⟨hv, hn, hval⟩ := h.committed j e v n hj'
      refine ⟨hv, Nat.le_trans hn (hle _), fun hlast => ?_⟩
      by_cases ht : e.target = T
      · rw [hcommits, ht, bumped_self] at hlast
        rw [ht] at hn
        omega
      · rw [hcommits, bumped_of_ne ht] at hlast
        rw [hopened _ ht]
        exact hval hlast
    · obtain ⟨he, hv, rfl, hval⟩ := hcommitted e v n heq.symm
      rw [he, hcommits, bumped_self]
      exact ⟨hv, Nat.le_refl _, fun _ => hval⟩
  · rw [hshown]
    exact Nat.le_trans (h.shown t) (hle t)
  · rw [hshown, hcommits] at ht
    have hsh := h.shown t
    by_cases htT : t = T
    · subst htT
      rw [bumped_self] at ht
      omega
    · rw [bumped_of_ne htT] at ht
      rw [hopened t htT, hlive]
      exact h.live t ht
  · by_cases htT : t = T
    · subst htT
      rw [hcommits, bumped_self]
      exact hpending
    · rw [hshown, hcommits, bumped_of_ne htT] at ht
      rw [hcommits, bumped_of_ne htT]
      rcases h.pending t ht with ⟨j, e, v, he, hj⟩ | ⟨rfl, j, a, hj, ha⟩
      · exact .inl ⟨j, e, v, he, hkept j _ hj rfl⟩
      · have hT : T = .vendor := by
          cases T with
          | registry => exact absurd rfl htT
          | vendor => rfl
        exact .inr ⟨rfl, j, a, hrebuild hT j a hj ha, ha⟩

theorem Coherent.signedIn {provider tokens : String} (h : Coherent k d x) (hfree : x.free d) :
    Coherent k d (x.signedIn provider tokens) := by
  refine @Coherent.written k d x _ .registry (.start .rebuildRegistry) h ?_ ?_ rfl rfl
    (fun t => rfl) ?_ ?_ rfl (fun e v n heq => by cases heq)
    (fun j c hj _ => getElem?_snoc_of_some hj) (fun hT => by cases hT) ?_
  · intro t ht
    cases t with
    | registry => exact absurd rfl ht
    | vendor => rfl
  · obtain ⟨v, hv⟩ := h.buildable
    obtain ⟨reg, hreg, -⟩ := map_eq_ok.mp hv
    have hall := Crates.buildRegistry_ok_iff.mp ⟨reg, hreg⟩
    obtain ⟨reg', hreg'⟩ := Crates.buildRegistry_ok_iff.mpr fun m hm => by
      obtain ⟨entry, hentry⟩ := hall m hm
      exact @Crates.buildEntry_signedIn k _ _ provider tokens m entry hentry
    exact ⟨.registry reg', map_eq_ok.mpr ⟨reg', hreg', rfl⟩⟩
  · intro hd j c hj
    rcases getElem?_snoc_cases hj with hj | ⟨-, rfl⟩
    · exact Bool.eq_false_iff.mpr (List.any_eq_false.mp (hfree hd) c (List.mem_of_getElem? hj))
    · rfl
  · intro j c hj
    exact (getElem?_snoc_cases hj).imp_right fun hnew => hnew.2
  · exact .inr ⟨rfl, _, _, List.getElem?_concat_length, rfl⟩

/-- An edit commits what its transaction wrote, and has built its value from just that. -/
theorem Coherent.committed' (h : Coherent k d x) (hi : x.calls[i]? = some (.running e [] tx))
    (hv : e.value k tx = .ok v) (hcurrent : tx.since = x.commits e.target) :
    Coherent k d (x.committed i e tx v) := by
  have hlt : i < x.calls.length := (List.getElem?_eq_some_iff.mp hi).1
  have hs := h.sound i e [] tx hi
  have hopened : k.opened (tx.seen x.rows) e.target = .ok v := by
    rw [← hs.stage.value hcurrent]
    exact hv
  have hrows (t : Target) (ht : t ≠ e.target) : x.rows.Alike t (tx.seen x.rows) :=
    Rows.alike_written fun w hw heq => ht (heq.symm.trans (hs.writes w hw))
  have hself : (x.committed i e tx v).calls[i]? =
      some (.committed e v (x.commits e.target + 1)) := List.getElem?_set_self hlt
  refine @Coherent.written k d x _ e.target (.committed e v (x.commits e.target + 1)) h hrows ?_
    rfl rfl (fun t => rfl) ?_ ?_ rfl ?_ ?_ ?_ (.inl ⟨i, e, v, rfl, hself⟩)
  · by_cases ht : e.target = .registry
    · exact ⟨v, ht ▸ hopened⟩
    · obtain ⟨u, hu⟩ := h.buildable
      exact ⟨u, (hrows _ (Ne.symm ht)).opened.trans hu⟩
  · intro hd j c hj
    rcases getElem?_set_cases hj with ⟨-, rfl⟩ | ⟨hne, hj⟩
    · rfl
    · refine Bool.eq_false_iff.mpr fun hc => hne ?_
      exact h.alone hd j i c _ hj hi hc rfl
  · intro j c hj
    exact (getElem?_set_cases hj).symm.imp And.right And.right
  · intro e' v' n heq
    cases heq
    exact ⟨rfl, value_target hv, rfl, hopened⟩
  · intro j c hj hc
    refine (List.getElem?_set_ne ?_).trans hj
    rintro rfl
    cases hi.symm.trans hj
    cases hc
  · intro hT j c hj hc
    refine (List.getElem?_set_ne ?_).trans hj
    rintro rfl
    cases hi.symm.trans hj
    have he : e = .rebuildRegistry := by
      cases e <;> first | rfl | cases hc
    subst he
    cases hT

/-! ### Values that go live -/

theorem live_swapped {n : ℕ} (hv : v.target = t) (t' : Target) :
    (x.swapped i e v n).live t' = if t' = t then v else x.live t' := by
  subst hv
  cases v <;> cases t' <;> rfl

theorem Coherent.swapped {n : ℕ} (h : Coherent k d x)
    (hi : x.calls[i]? = some (.committed e v n)) (hnewer : x.shown e.target < n) :
    Coherent k d (x.swapped i e v n) := by
  obtain ⟨hv, hn, hval⟩ := h.committed i e v n hi
  have hrows : (x.swapped i e v n).rows = x.rows := by cases v <;> rfl
  have hcommits : (x.swapped i e v n).commits = x.commits := by cases v <;> rfl
  have hshown (t : Target) (ht : t ≠ e.target) : (x.swapped i e v n).shown t = x.shown t :=
    Function.update_of_ne ht _ _
  have hnow : (x.swapped i e v n).shown e.target = n := Function.update_self _ _ _
  have hset {j : ℕ} {a : Call} (hj : (x.swapped i e v n).calls[j]? = some a) :
      a = .finished (.ok ()) ∨ x.calls[j]? = some a :=
    (getElem?_set_cases hj).imp And.right And.right
  have hkept {j : ℕ} {a : Call} (hj : x.calls[j]? = some a) (ha : a ≠ .committed e v n) :
      (x.swapped i e v n).calls[j]? = some a := by
    refine (List.getElem?_set_ne ?_).trans hj
    rintro rfl
    exact ha (Option.some.inj (hj.symm.trans hi))
  refine ⟨fun j e todo tx hj => ?_, fun hd j j' a b hj hj' ha hb => ?_, ?_, fun j e v n hj => ?_,
    fun t => ?_, fun t ht => ?_, fun t ht => ?_⟩
  · rcases hset hj with heq | hj
    · cases heq
    · have hs := h.sound j e todo tx hj
      refine ⟨hs.writes, ?_, ?_, ?_, hs.rebuild⟩
      · rw [hcommits]
        exact hs.since
      · rw [hcommits]
        exact hs.sqlite
      · rw [hcommits, hrows]
        exact hs.stage
  · rcases hset hj with rfl | hj
    · cases ha
    rcases hset hj' with rfl | hj'
    · cases hb
    exact h.alone hd j j' a b hj hj' ha hb
  · rw [hrows]
    exact h.buildable
  · rcases hset hj with heq | hj
    · cases heq
    · rw [hcommits, hrows]
      exact h.committed j e v n hj
  · rw [hcommits]
    by_cases ht : t = e.target
    · rw [ht, hnow]
      exact hn
    · rw [hshown t ht]
      exact h.shown t
  · rw [hcommits] at ht
    rw [hrows, live_swapped hv]
    by_cases htT : t = e.target
    · rw [if_pos htT, htT]
      rw [htT, hnow] at ht
      exact hval ht
    · rw [if_neg htT]
      rw [hshown t htT] at ht
      exact h.live t ht
  · rw [hcommits] at ht ⊢
    -- the last commit is still to go live, or was not the one that did
    have hbefore : x.shown t < x.commits t := by
      by_cases htT : t = e.target
      · subst htT
        rw [hnow] at ht
        omega
      · rwa [hshown t htT] at ht
    rcases h.pending t hbefore with ⟨j, e', v', he', hj⟩ | ⟨rfl, j, a, hj, ha⟩
    · refine .inl ⟨j, e', v', he', hkept hj ?_⟩
      intro heq
      cases heq
      rw [he'] at hnow
      rw [hnow] at ht
      exact absurd ht (Nat.lt_irrefl _)
    · refine .inr ⟨rfl, j, a, hkept hj ?_, ha⟩
      rintro rfl
      cases ha

/-! ### Steps and runs -/

theorem eq_rebuildRegistry (h : (Call.running e todo tx).isRebuild = true) :
    e = .rebuildRegistry := by
  cases e <;> first | rfl | cases h

theorem run_of_reads {s : Statement} {r : Rows} {now : ℕ} (h : s ∈ Edit.reads) :
    ∃ tx', s.run r now tx = .ok tx' ∧ tx'.writes = tx.writes := by
  rcases List.mem_cons.mp h with rfl | h
  · exact ⟨_, rfl, rfl⟩
  rcases List.mem_cons.mp h with rfl | h
  · exact ⟨_, rfl, rfl⟩
  obtain rfl := List.mem_singleton.mp h
  exact ⟨_, rfl, rfl⟩

theorem Sound.current (h : Sound k d x e [] tx) (hi : x.calls[i]? = some (.running e [] tx))
    (hcare : x.careful d (.commit i) = true) : tx.since = x.commits e.target := by
  rcases (Bool.or_eq_true _ _).mp hcare with hd | hnow
  · exact h.sqlite (of_decide_eq_true hd)
  · rw [hi] at hnow
    exact of_decide_eq_true hnow

theorem Coherent.step (h : Coherent k d x) (hcare : x.careful d l = true) (hs : Step k d x l y) :
    Coherent k d y := by
  cases hs with
  | call => exact h.called
  | signIn hfree => exact h.signedIn hfree
  | @refuse i e why hi hwhy =>
    refine h.moved hi (fun _ _ _ h => by cases h) (fun _ _ _ h => by cases h)
      (fun _ _ _ h => by cases h) (fun h => by cases h) fun hreb => ?_
    have he : e = .rebuildRegistry := by
      cases e <;> first | rfl | cases hreb
    subst he
    cases hwhy
  | @begin i e todo hi htodo hfree =>
    refine h.moved hi (fun _ _ _ h => by cases h) (fun _ _ _ h => by cases h) ?_
      (fun _ => .inr hfree) fun hreb => ?_
    · intro e' todo' tx heq
      cases heq
      refine ⟨fun w hw => absurd hw List.not_mem_nil, Nat.le_refl _, fun _ => rfl,
        stage_of_statements htodo, ?_⟩
      rintro rfl
      cases htodo
      exact ⟨rfl, fun s hs => hs⟩
    · cases e <;> first | rfl | cases hreb
  | @reject i e s todo tx why hi hwhy =>
    refine h.moved hi (fun _ _ _ h => by cases h) (fun _ _ _ h => by cases h)
      (fun _ _ _ h => by cases h) (fun h => by cases h) fun hreb => ?_
    have hreads := ((h.sound i e (s :: todo) tx hi).rebuild (eq_rebuildRegistry hreb)).2
    obtain ⟨tx', hok, -⟩ :=
      @run_of_reads tx s x.rows (x.commits e.target) (hreads s List.mem_cons_self)
    rw [hwhy] at hok
    cases hok
  | @execute i e s todo tx tx' hi hrun =>
    have hsound := h.sound i e (s :: todo) tx hi
    refine h.moved hi (fun _ _ _ h => by cases h) (fun _ _ _ h => by cases h) ?_
      (fun _ => .inl rfl) fun hreb => ?_
    · intro e' todo' tx'' heq
      cases heq
      refine ⟨fun w hw => ?_, ?_, fun hd => ?_, hsound.stage.execute hrun, fun he => ?_⟩
      · rcases Statement.run_writes hrun w hw with hw | hw
        · exact hsound.writes w hw
        · exact hw.trans hsound.stage.target
      · rcases Statement.run_since hrun with h | h
        · rw [h]
          exact hsound.since
        · exact Nat.le_of_eq h
      · rcases Statement.run_since hrun with h | h
        · rw [h]
          exact hsound.sqlite hd
        · exact h
      · obtain ⟨hwrites, hreads⟩ := hsound.rebuild he
        obtain ⟨tx', hok, hsame⟩ :=
          @run_of_reads tx s x.rows (x.commits e.target) (hreads s List.mem_cons_self)
        cases hok.symm.trans hrun
        exact ⟨hsame.trans hwrites, fun s' hs' => hreads s' (List.mem_cons_of_mem _ hs')⟩
    · cases e <;> first | rfl | cases hreb
  | @unbuildable i e tx why hi hwhy =>
    refine h.moved hi (fun _ _ _ h => by cases h) (fun _ _ _ h => by cases h)
      (fun _ _ _ h => by cases h) (fun h => by cases h) fun hreb => ?_
    have hsound := h.sound i e [] tx hi
    obtain rfl := eq_rebuildRegistry hreb
    have hvalue := hsound.stage.value (hsound.current hi hcare)
    obtain ⟨v, hv⟩ := h.buildable
    unfold Tx.seen at hvalue
    rw [(hsound.rebuild rfl).1, hwhy] at hvalue
    cases hvalue.trans hv
  | @commit i e tx v hi hv =>
    exact h.committed' hi hv ((h.sound i e [] tx hi).current hi hcare)
  | @swap i e v n hi =>
    refine h.swapped hi ?_
    unfold World.careful at hcare
    dsimp only at hcare
    rw [hi] at hcare
    exact of_decide_eq_true hcare
  | @fail i c why hi hc =>
    refine h.moved hi ?_ (fun _ _ _ h => by cases h) (fun _ _ _ h => by cases h)
      (fun h => by cases h) fun hreb => ?_
    · rintro e v n rfl
      cases hc
    · unfold World.careful at hcare
      dsimp only at hcare
      rw [hi] at hcare
      rw [Option.all_some, hreb] at hcare
      cases hcare

/-- A call that has committed nothing had not before, and its step left everything as it was. -/
theorem unwritten_step (hs : Step k d x l y)
    (hy : ∀ c, y.calls[i]? = some c → c.isUnwritten = true) :
    (∀ c, x.calls[i]? = some c → c.isUnwritten = true) ∧ (l.call? = some i → x.Same y) := by
  have hmoved {j : ℕ} {c c' : Call} (hj : x.calls[j]? = some c) (hc : c.isOpen = true)
      (hy : ∀ a, (x.moved j c').calls[i]? = some a → a.isUnwritten = true) :
      ∀ a, x.calls[i]? = some a → a.isUnwritten = true := by
    intro a ha
    by_cases hji : j = i
    · subst hji
      cases hj.symm.trans ha
      cases c with
      | start | running => rfl
      | committed | finished => cases hc
    · exact hy a ((List.getElem?_set_ne hji).trans ha)
  have hwritten {j : ℕ} {c c' : Call} (hj : x.calls[j]? = some c) (hc : c'.isUnwritten = false)
      (hy : ∀ a, (x.calls.set j c')[i]? = some a → a.isUnwritten = true) :
      (∀ a, x.calls[i]? = some a → a.isUnwritten = true) ∧ j ≠ i := by
    have hji : j ≠ i := by
      rintro rfl
      have hnot := hy c' (List.getElem?_set_self (List.getElem?_eq_some_iff.mp hj).1)
      rw [hc] at hnot
      cases hnot
    exact ⟨fun a ha => hy a ((List.getElem?_set_ne hji).trans ha), hji⟩
  cases hs with
  | call | signIn =>
    exact ⟨fun c hc => hy c (getElem?_snoc_of_some hc), fun h => by cases h⟩
  | refuse hi hwhy => exact ⟨hmoved hi rfl hy, fun _ => ⟨rfl, rfl, rfl⟩⟩
  | begin hi htodo hfree => exact ⟨hmoved hi rfl hy, fun _ => ⟨rfl, rfl, rfl⟩⟩
  | reject hi hwhy => exact ⟨hmoved hi rfl hy, fun _ => ⟨rfl, rfl, rfl⟩⟩
  | execute hi hrun => exact ⟨hmoved hi rfl hy, fun _ => ⟨rfl, rfl, rfl⟩⟩
  | unbuildable hi hwhy => exact ⟨hmoved hi rfl hy, fun _ => ⟨rfl, rfl, rfl⟩⟩
  | fail hi hc => exact ⟨hmoved hi hc hy, fun _ => ⟨rfl, rfl, rfl⟩⟩
  | commit hi hv | swap hi =>
    obtain ⟨hbefore, hne⟩ := hwritten hi rfl hy
    exact ⟨hbefore, fun h => absurd (Option.some.inj h) hne⟩

/-- No step of a call that has committed nothing changed the rows or what is live. -/
theorem same_of_unwritten {tr : List (World × Event × World)} (h : (editing k d).Exec x tr y)
    (hy : ∀ c, y.calls[i]? = some c → c.isUnwritten = true) :
    ∀ w ∈ tr, w.2.1.call? = some i → w.1.Same w.2.2 := by
  induction h with
  | nil => exact fun w hw => absurd hw List.not_mem_nil
  | @snoc tr s t l hexec hs ih =>
    obtain ⟨hbefore, hsame⟩ := unwritten_step hs hy
    intro w hw
    rcases List.mem_append.mp hw with hw | hw
    · exact ih hbefore w hw
    · obtain rfl := List.mem_singleton.mp hw
      exact hsame

end

/-- In every run that keeps the order of commits and swaps, once every call has finished, the live
registry is the one built of the stored rows and the live default vendor the stored one, or the
fallback; and in every run an edit that was refused has changed neither the rows nor what is
live. -/
theorem live_is_stored (k : Crates) (d : Dialect) {x y : World}
    {tr : List (World × Event × World)} (hx : Opened k x) (h : (editing k d).Exec x tr y)
    (hcare : ∀ w ∈ tr, w.1.careful d w.2.1 = true) :
    ((∀ c ∈ y.calls, c.isFinished = true) →
      k.buildRegistry y.rows.readProviders y.rows.readModels y.rows.providerOauth =
          .ok y.registry ∧
        y.defaultRuntimeVendor = y.rows.defaultVendor.getD fallbackVendor) ∧
    ∀ (i : ℕ) (why : String), y.calls[i]? = some (.finished (.error why)) →
      ∀ w ∈ tr, w.2.1.call? = some i → w.1.Same w.2.2 := by
  have hend : Coherent k d y :=
    h.guarded (G := fun x l => x.careful d l = true) (fun _ _ _ _ hi hg hs => hi.step hg hs)
      (.init hx) (coherent_of_opened hx) hcare
  constructor
  · intro hall
    obtain ⟨reg, hreg, heq⟩ := map_eq_ok.mp (hend.agrees hall .registry)
    cases heq
    exact ⟨hreg, (Value.vendor.inj (Except.ok.inj (hend.agrees hall .vendor))).symm⟩
  · intro i why hi
    refine same_of_unwritten h fun c hc => ?_
    cases hi.symm.trans hc
    rfl

/-! ### Runs that can be followed -/

namespace World

def step? (k : Crates) (d : Dialect) (x : World) : Event → Option World
  | .call e => some (x.called e)
  | .signIn provider tokens =>
    if d = .sqlite ∧ x.writing then none else some (x.signedIn provider tokens)
  | .begin i =>
    match x.calls[i]? with
    | some (.start e) =>
      match e.statements k with
      | .error why => some (x.moved i (.finished (.error why)))
      | .ok todo =>
        if d = .sqlite ∧ x.writing then none
        else some (x.moved i (.running e todo (.begun (x.commits e.target))))
    | _ => none
  | .execute i =>
    match x.calls[i]? with
    | some (.running e (s :: todo) tx) =>
      match s.run x.rows (x.commits e.target) tx with
      | .error why => some (x.moved i (.finished (.error why)))
      | .ok tx' => some (x.moved i (.running e todo tx'))
    | _ => none
  | .commit i =>
    match x.calls[i]? with
    | some (.running e [] tx) =>
      match e.value k tx with
      | .error why => some (x.moved i (.finished (.error why)))
      | .ok v => some (x.committed i e tx v)
    | _ => none
  | .swap i =>
    match x.calls[i]? with
    | some (.committed e v number) => some (x.swapped i e v number)
    | _ => none
  | .fail i why =>
    match x.calls[i]? with
    | some c => if c.isOpen then some (x.moved i (.finished (.error why))) else none
    | none => none

theorem free_of_not {d : Dialect} {x : World} (h : ¬ (d = .sqlite ∧ x.writing = true)) :
    x.free d := by
  intro hd
  exact Bool.eq_false_iff.mpr fun hw => h ⟨hd, hw⟩

theorem step_of_step? {k : Crates} {d : Dialect} {x y : World} {l : Event}
    (h : x.step? k d l = some y) : Step k d x l y := by
  unfold step? at h
  split at h
  · cases h
    exact .call
  · obtain ⟨hfree, h⟩ := Option.ite_none_left_eq_some.mp h
    cases h
    exact .signIn (free_of_not hfree)
  · split at h
    · rename_i hi
      split at h
      · rename_i hwhy
        cases h
        exact .refuse hi hwhy
      · rename_i htodo
        obtain ⟨hfree, h⟩ := Option.ite_none_left_eq_some.mp h
        cases h
        exact .begin hi htodo (free_of_not hfree)
    · cases h
  · split at h
    · rename_i hi
      split at h
      · rename_i hwhy
        cases h
        exact .reject hi hwhy
      · rename_i hrun
        cases h
        exact .execute hi hrun
    · cases h
  · split at h
    · rename_i hi
      split at h
      · rename_i hwhy
        cases h
        exact .unbuildable hi hwhy
      · rename_i hv
        cases h
        exact .commit hi hv
    · cases h
  · split at h
    · rename_i hi
      cases h
      exact .swap hi
    · cases h
  · split at h
    · rename_i hi
      split_ifs at h with hc
      cases h
      exact .fail hi hc
    · cases h

end World

namespace World

/-- The libraries take every URL and key. -/
def allowing : Crates := ⟨fun _ => .ok (), fun _ _ => .ok ()⟩

/-- A server that has opened on one provider and no models. -/
def fresh : World where
  rows :=
    { providers :=
        (∅ : Map String ProviderRow).insert "openai" ⟨"openai", "openai", none, some "key", false⟩
      models := ∅
      providerOauth := ∅
      defaultVendor := none }
  registry := ∅
  defaultRuntimeVendor := fallbackVendor
  calls := []
  commits _ := 0
  shown _ := 0

theorem opened_fresh : Opened allowing fresh where
  live t := by cases t <;> rfl
  calls := rfl
  commits _ := rfl
  shown _ := rfl

def addition : Edit := .upsertModel
  ⟨"fast", "openai", "gpt-4o", none, none, none, none, none, none, none, none⟩

/-- The call `i` goes on to its swap, past so many statements. -/
def through (i statements : ℕ) : List Event :=
  Event.begin i :: List.replicate statements (.execute i) ++ [Event.commit i]

theorem live_is_stored_later : ∃ y : World,
    ((∀ c ∈ y.calls, c.isFinished = true) →
      allowing.buildRegistry y.rows.readProviders y.rows.readModels y.rows.providerOauth =
          .ok y.registry ∧
        y.defaultRuntimeVendor = y.rows.defaultVendor.getD fallbackVendor) ∧
      (∀ c ∈ y.calls, c.isFinished = true) ∧ (y.registry.lookup "fast").isSome ∧
        y.defaultRuntimeVendor = "fly" := by
  let ls : List Event := [Event.call addition, .call (.setDefaultRuntimeVendor " fly ")] ++
    through 0 5 ++ through 1 1 ++ [Event.swap 1, .swap 0]
  let y := (System.steps? (System.guarded? (fun x l => x.careful .sqlite l = true)
    (step? allowing .sqlite)) fresh ls).get (by decide +kernel)
  obtain ⟨tr, htr, -, hcare⟩ := System.exec_of_guarded? (M := editing allowing .sqlite)
    (G := fun x l => x.careful .sqlite l = true) (fun _ _ _ _ => step_of_step?) (t := y)
    (Option.some_get _).symm
  exact ⟨y, (live_is_stored allowing .sqlite opened_fresh htr hcare).1, by decide +kernel,
    by decide +kernel, by decide +kernel⟩

/-- A model is stored and then deleted, and the two registries are swapped in the other way round:
sessions go on with a model that is no more. -/
theorem stale_is_live : ¬ ∀ (k : Crates) (d : Dialect) (x y : World)
    (tr : List (World × Event × World)), Opened k x → (editing k d).Exec x tr y →
      (∀ c ∈ y.calls, c.isFinished = true) →
      k.buildRegistry y.rows.readProviders y.rows.readModels y.rows.providerOauth =
        .ok y.registry := by
  let ls : List Event := [Event.call addition, .call (.deleteModel "fast")] ++ through 0 5 ++
    through 1 4 ++ [Event.swap 1, .swap 0]
  let y := (System.steps? (step? allowing .sqlite) fresh ls).get (by decide +kernel)
  obtain ⟨tr, htr, -⟩ := System.exec_of_steps? (M := editing allowing .sqlite)
    (fun _ _ _ => step_of_step?) (t := y) (Option.some_get _).symm
  intro hall
  have hsame := hall allowing .sqlite fresh y tr opened_fresh htr (by decide +kernel)
  have hbuilt : (allowing.buildRegistry y.rows.readProviders y.rows.readModels
      y.rows.providerOauth).toOption.map (fun reg => (reg.lookup "fast").isSome) = some false := by
    decide +kernel
  have hlive : (y.registry.lookup "fast").isSome = true := by decide +kernel
  rw [hsame] at hbuilt
  have hnot : (y.registry.lookup "fast").isSome = false := Option.some.inj hbuilt
  rw [hlive] at hnot
  cases hnot

end World

end Horsie.Config
