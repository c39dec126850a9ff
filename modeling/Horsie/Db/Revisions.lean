import Horsie.Lib.Take
import Horsie.Lib.Text
import Horsie.Lib.Transition

/-!
# Version history and compare-and-set

Presets and memories are rewritten by agents that nobody watches, so every write of one appends a
revision in its own transaction, and a write may name the revision it expects to find. That is
checked against the row a service reads first; the transaction, which comes later, looks at no
revision, and records what the service made of the row it had read. The writers of one preset or
one memory run at once, each on its own transactions.
-/

namespace Horsie.Revisions

open Horsie.Lib

/-! ## Entities -/

/-- A versioned entity: what it says, what its writes are called with, and what they are told. -/
structure Entity where
  Content : Type
  New : Type
  Input : Type
  initial : New → Content
  /-- What an entity says after a write that found it saying something. -/
  compose : Input → Content → Content
  restoring : Content → Input
  /-- What a deleted one is created again with; a memory is not, since its id would be another. -/
  recreate : Content → Option New
  named : Bool
  unknown : String
  taken : String
  noRevision : ℕ → String
  unrestorable : ℕ → String
  decEq : DecidableEq Content

attribute [instance] Entity.decEq

/-- What is in the `agents` table of a preset, its name, revision and times apart. -/
structure AgentContent where
  description : String
  instructions : Option String
  model : String
  plugins : List String
  mcpServers : List (String × Option (List String))
  memorySpaces : List String
  thinkingEffort : Option String
  autoCompact : Option Bool
  allowedTools : Option (List String)
  tunable : Option Bool
deriving DecidableEq

structure AgentPresetInput where
  description : Option String
  instructions : Option String
  model : String
  plugins : Option (List String)
  mcpServers : Option (List (String × Option (List String)))
  memorySpaces : Option (List String)
  thinkingEffort : Option String
  autoCompact : Option Bool
  allowedTools : Option (List String)
  tunable : Option Bool
deriving DecidableEq

def rowFromInput (input : AgentPresetInput) : AgentContent where
  description := input.description.getD ""
  instructions := (input.instructions.map trim).filter (· ≠ "")
  model := input.model
  plugins := input.plugins.getD []
  mcpServers := input.mcpServers.getD []
  memorySpaces := input.memorySpaces.getD []
  thinkingEffort := input.thinkingEffort
  autoCompact := input.autoCompact
  allowedTools := input.allowedTools
  tunable := input.tunable

def restoreInput (view : AgentContent) : AgentPresetInput where
  description := some view.description
  instructions := view.instructions
  model := view.model
  plugins := some view.plugins
  mcpServers := some view.mcpServers
  memorySpaces := some view.memorySpaces
  thinkingEffort := view.thinkingEffort
  autoCompact := view.autoCompact
  allowedTools := view.allowedTools
  tunable := view.tunable

def agentPreset (name : String) : Entity where
  Content := AgentContent
  New := AgentPresetInput
  Input := AgentPresetInput
  initial := rowFromInput
  compose input _ := rowFromInput input
  restoring := restoreInput
  recreate view := some (restoreInput view)
  named := true
  unknown := "unknown agent '" ++ name ++ "'"
  taken := "agent '" ++ name ++ "' already exists"
  noRevision revision := "agent '" ++ name ++ "' has no revision " ++ toString revision
  unrestorable _ := ""
  decEq := inferInstance

structure MemoryContent where
  description : String
  content : String
deriving DecidableEq

structure MemoryUpdateInput where
  description : Option String
  content : Option String
deriving DecidableEq

/-- A memory: a write leaves alone what it does not name. -/
def memory (id : ℕ) : Entity where
  Content := MemoryContent
  New := MemoryContent
  Input := MemoryUpdateInput
  initial input := input
  compose input row := ⟨input.description.getD row.description, input.content.getD row.content⟩
  restoring view := ⟨some view.description, some view.content⟩
  recreate _ := none
  named := false
  unknown := "no memory with id " ++ toString id
  taken := ""
  noRevision revision := "memory " ++ toString id ++ " has no revision " ++ toString revision
  unrestorable revision := "memory " ++ toString id ++ " was deleted; its history is readable " ++
    "but it cannot be restored in place, because a new memory would get a new id. Create one " ++
    "from revision " ++ toString revision ++ "'s payload instead."
  decEq := inferInstance

/-! ## One entity -/

/-- The row of an entity. -/
structure Head (C : Type) where
  content : C
  revision : Option ℕ
deriving DecidableEq

structure Revision (C : Type) where
  revision : ℕ
  payload : C
  deleted : Bool
deriving DecidableEq

/-- Refuse the write unless `head` is what the caller expected. -/
def check (head expected : Option ℕ) : Except String Unit :=
  match expected with
  | none => .ok ()
  | some e =>
    if head = some e then .ok ()
    else
      match head with
      | some actual =>
        .error ("this was changed since you read it: you expected revision " ++ toString e ++
          ", it is now at " ++ toString actual ++
          ". Read it again and decide against what it says now.")
      | none =>
        .error ("you expected revision " ++ toString e ++ ", but this has no revision history — " ++
          "it has not been written since versioning was added. Write without an expected " ++
          "revision, or read it first.")

inductive Call (E : Entity)
  | create (new : E.New)
  | inserting (content : E.Content)
  | update (input : E.Input) (expected : Option ℕ)
  | updating (input : E.Input) (read : Head E.Content) (expected : Option ℕ)
  | delete
  | deleting (read : Head E.Content)
  | restore (revision : ℕ)
  | restoring (revision : ℕ) (past : E.Content)
  | finished (answer : Except String Unit)

/-- What a writer asks for. -/
inductive Request (E : Entity)
  | create (new : E.New)
  | update (input : E.Input) (expected : Option ℕ)
  | delete
  | restore (revision : ℕ)

def Request.call {E : Entity} : Request E → Call E
  | create new => .create new
  | update input expected => .update input expected
  | delete => .delete
  | restore revision => .restore revision

structure World (E : Entity) where
  head : Option (Head E.Content)
  history : List (Revision E.Content)
  calls : List (Call E)

inductive Label (E : Entity)
  | call (r : Request E)
  /-- The next step of a call; validation and the database let it pass, or not. -/
  | act (i : ℕ) (ok : Except String Unit)

namespace World

variable {E : Entity}

/-- There is no entity yet, or one that predates versioning. -/
structure Fresh (w : World E) : Prop where
  head : ∀ row, w.head = some row → row.revision = none
  history : w.history = []
  calls : w.calls = []

def nextRevision (w : World E) : ℕ := ((w.history.map (·.revision)).max?).getD 0 + 1

def append (w : World E) (payload : E.Content) (deleted : Bool) : List (Revision E.Content) :=
  w.history ++ [⟨w.nextRevision, payload, deleted⟩]

/-- A revision appended and the row written, in one transaction. -/
def write (w : World E) (payload : E.Content) (content : E.Content) : World E :=
  { w with head := some ⟨content, some w.nextRevision⟩, history := w.append payload false }

/-- The row deleted and a revision appended. -/
def erase (w : World E) (payload : E.Content) : World E :=
  { w with head := none, history := w.append payload true }

/-- The next step of a call, where nothing refuses it. -/
def act (w : World E) : Call E → World E × Call E
  | .create new =>
    if E.named ∧ w.head.isSome then (w, .finished (.error E.taken))
    else (w, .inserting (E.initial new))
  | .inserting content =>
    -- A memory that was there already is another one: ids are never given twice.
    if w.head.isNone ∧ (E.named ∨ w.history = []) then (w.write content content, .finished (.ok ()))
    else (w, .finished (if E.named then .error E.taken else .ok ()))
  | .update input expected =>
    match w.head with
    | none => (w, .finished (.error E.unknown))
    | some row =>
      match check row.revision expected with
      | .ok _ => (w, .updating input row expected)
      | .error e => (w, .finished (.error e))
  | .updating input read _ =>
    match w.head with
    | none => (w, .finished (.error E.unknown))
    | some row =>
      (w.write (E.compose input read.content) (E.compose input row.content), .finished (.ok ()))
  | .delete =>
    match w.head with
    | none => (w, .finished (.error E.unknown))
    | some row => (w, .deleting row)
  | .deleting read =>
    match w.head with
    | none => (w, .finished (.error E.unknown))
    | some _ => (w.erase read.content, .finished (.ok ()))
  | .restore revision =>
    match w.history.find? (·.revision = revision) with
    | none => (w, .finished (.error (E.noRevision revision)))
    | some past => (w, .restoring revision past.payload)
  | .restoring revision past =>
    match w.head with
    | some _ => (w, .update (E.restoring past) none)
    | none =>
      match E.recreate past with
      | some new => (w, .create new)
      | none => (w, .finished (.error (E.unrestorable revision)))
  | .finished answer => (w, .finished answer)

def step? (w : World E) : Label E → Option (World E)
  | .call r => some { w with calls := w.calls ++ [r.call] }
  | .act i ok =>
    match w.calls[i]?, ok with
    | none, _ => none
    | some _, .error e => some { w with calls := w.calls.set i (.finished (.error e)) }
    | some c, .ok _ => some { (w.act c).1 with calls := w.calls.set i (w.act c).2 }

end World

def writers (E : Entity) : System (World E) (Label E) where
  Init := World.Fresh
  Step w l w' := w.step? l = some w'

/-! ## What is expected is what is there -/

namespace World

variable {E : Entity} {w w' : World E}

def Numbered (w : World E) : Prop :=
  w.history.map (·.revision) = List.range' 1 w.history.length

/-- The row is the one the last revision wrote, or predates versioning. -/
def Headed (w : World E) : Prop :=
  ∀ row, w.head = some row → w.history = [] ∧ row.revision = none ∨
    ∃ last, w.history.getLast? = some last ∧ row.revision = some last.revision

/-- A step after which a write that named a revision found it, what was recorded is what is there,
or what was there before a deletion, and the revisions go up to the row's. -/
structure Right (w : World E) (l : Label E) (w' : World E) : Prop where
  expected : ∀ i ok input read e, l = .act i ok →
    w.calls[i]? = some (.updating input read (some e)) → w'.history ≠ w.history →
      ∃ row, w.head = some row ∧ row.revision = some e
  written : ∀ rev, w'.history = w.history ++ [rev] → rev.deleted = false →
    ∃ row, w'.head = some row ∧ row.content = rev.payload
  deleted : ∀ rev, w'.history = w.history ++ [rev] → rev.deleted = true →
    w'.head = none ∧ ∃ row, w.head = some row ∧ row.content = rev.payload
  increasing : (w'.history.map (·.revision)).Pairwise (· < ·)
  head : w'.Headed

/-- The transaction of a write that names a revision finds the row that was read, and what a write
leaves alone or deletes says what it said then. -/
def heeds (w : World E) : Label E → Bool
  | .act i (.ok _) =>
    match w.calls[i]?, w.head with
    | some (.updating input read expected), some row =>
      (expected.isNone || row.revision = read.revision) &&
        decide (E.compose input row.content = E.compose input read.content)
    | some (.deleting read), some row => decide (row.content = read.content)
    | _, _ => true
  | _ => true

/-- A row that was read for a write that names a revision had it. -/
def Checked (w : World E) : Prop :=
  ∀ input read e, Call.updating input read (some e) ∈ w.calls → read.revision = some e

structure Kept (w : World E) : Prop where
  numbered : w.Numbered
  headed : w.Headed
  checked : w.Checked

theorem max_range' {n : ℕ} : ((List.range' 1 n).max?).getD 0 = n := by
  cases n with
  | zero => rfl
  | succ n =>
    have hmax : (List.range' 1 (n + 1)).max? = some (n + 1) := by
      rw [List.max?_eq_some_iff]
      constructor
      · rw [List.mem_range'_1]
        omega
      · intro b hb
        rw [List.mem_range'_1] at hb
        omega
    rw [hmax]
    rfl

theorem Numbered.next (h : w.Numbered) : w.nextRevision = w.history.length + 1 := by
  rw [nextRevision, h, max_range']

theorem Numbered.append (h : w.Numbered) (payload : E.Content) (deleted : Bool) :
    (w.append payload deleted).map (·.revision) =
      List.range' 1 (w.append payload deleted).length := by
  rw [World.append, List.map_append, h, List.map_singleton, h.next, List.length_append,
    List.length_singleton, List.range'_concat, Nat.one_mul, Nat.add_comm 1]

theorem Numbered.increasing (h : w.Numbered) :
    (w.history.map (·.revision)).Pairwise (· < ·) := by
  rw [h]
  exact List.pairwise_lt_range'

/-- What a step of a call that nothing refuses does: it writes nothing, or its transaction inserts
the row, or updates the row that is there, or deletes it. -/
inductive Acted (w : World E) : Call E → World E × Call E → Prop
  | idle (c c' : Call E)
      (hread : ∀ input read e, c' = .updating input read (some e) → read.revision = some e)
      (hno : ∀ row, w.head = some row →
        (∀ input read expected, c ≠ .updating input read expected) ∧ ∀ read, c ≠ .deleting read) :
      Acted w c (w, c')
  | inserted (content : E.Content) :
      Acted w (.inserting content) (w.write content content, .finished (.ok ()))
  | updated (input : E.Input) (read row : Head E.Content) (expected : Option ℕ)
      (hrow : w.head = some row) :
      Acted w (.updating input read expected)
        (w.write (E.compose input read.content) (E.compose input row.content), .finished (.ok ()))
  | deleted (read row : Head E.Content) (hrow : w.head = some row) :
      Acted w (.deleting read) (w.erase read.content, .finished (.ok ()))

theorem revision_of_check {head expected : Option ℕ} {u : Unit} (h : check head expected = .ok u)
    {e : ℕ} (he : expected = some e) : head = some e := by
  subst he
  unfold check at h
  dsimp only at h
  split_ifs at h with heq
  · exact heq
  · split at h <;> cases h

theorem acted_act (w : World E) (c : Call E) : Acted w c (w.act c) := by
  cases c with
  | create new =>
    simp only [act]
    split_ifs
    · exact .idle _ _ (by simp) (by simp)
    · exact .idle _ _ (by simp) (by simp)
  | inserting content =>
    simp only [act]
    split_ifs
    · exact .inserted content
    · exact .idle _ _ (by simp) (by simp)
    · exact .idle _ _ (by simp) (by simp)
  | update input expected =>
    simp only [act]
    split
    · exact .idle _ _ (by simp) (by simp)
    · split
      · rename_i row _ _ hcheck
        refine .idle _ _ (fun input' read e hread => ?_) (by simp)
        simp only [Call.updating.injEq] at hread
        obtain ⟨-, rfl, he⟩ := hread
        exact revision_of_check hcheck he
      · exact .idle _ _ (by simp) (by simp)
  | updating input read expected =>
    simp only [act]
    split
    · rename_i hnone
      exact .idle _ _ (by simp) (by simp [hnone])
    · rename_i row hrow
      exact .updated input read row expected hrow
  | delete =>
    simp only [act]
    split
    · exact .idle _ _ (by simp) (by simp)
    · exact .idle _ _ (by simp) (by simp)
  | deleting read =>
    simp only [act]
    split
    · rename_i hnone
      exact .idle _ _ (by simp) (by simp [hnone])
    · rename_i row hrow
      exact .deleted read row hrow
  | restore revision =>
    simp only [act]
    split
    · exact .idle _ _ (by simp) (by simp)
    · exact .idle _ _ (by simp) (by simp)
  | restoring revision past =>
    simp only [act]
    split
    · exact .idle _ _ (by simp) (by simp)
    · split
      · exact .idle _ _ (by simp) (by simp)
      · exact .idle _ _ (by simp) (by simp)
  | finished answer => exact .idle _ _ (by simp) (by simp)

/-! ### Steps -/

theorem Kept.write (h : w.Kept) (payload content : E.Content) {calls : List (Call E)} :
    { w.write payload content with calls }.Numbered ∧
      { w.write payload content with calls }.Headed := by
  refine ⟨h.numbered.append payload false, fun row hrow => .inr ⟨_, List.getLast?_concat, ?_⟩⟩
  rw [← Option.some.inj hrow]

theorem Kept.erase (h : w.Kept) (payload : E.Content) {calls : List (Call E)} :
    { w.erase payload with calls }.Numbered ∧ { w.erase payload with calls }.Headed :=
  ⟨h.numbered.append payload true, fun row hrow => by cases hrow⟩

/-- The calls of a later state: what was read for a write that names a revision had it. -/
theorem Checked.set (h : w.Checked) {i : ℕ} {c' : Call E}
    (hcalls : w'.calls = w.calls.set i c')
    (hc' : ∀ input read e, c' = .updating input read (some e) → read.revision = some e) :
    w'.Checked := by
  intro input read e hmem
  rw [hcalls] at hmem
  rcases List.mem_or_eq_of_mem_set hmem with hmem | heq
  · exact h input read e hmem
  · exact hc' input read e heq.symm

variable {l : Label E}

theorem Kept.step (h : w.Kept) (hw : w.step? l = some w') : w'.Kept := by
  cases l with
  | call r =>
    cases hw
    refine ⟨h.numbered, h.headed, fun input read e hmem => ?_⟩
    rcases List.mem_append.mp hmem with hmem | hmem
    · exact h.checked input read e hmem
    · have heq := List.mem_singleton.mp hmem
      cases r <;> cases heq
  | act i ok =>
    simp only [step?] at hw
    split at hw
    · cases hw
    · cases hw
      exact ⟨h.numbered, h.headed, h.checked.set rfl fun _ _ _ he => by cases he⟩
    · rename_i c u hi
      cases hw
      have hacted := acted_act w c
      revert hacted
      generalize w.act c = x
      intro hacted
      cases hacted with
      | idle c c' hread hno => exact ⟨h.numbered, h.headed, h.checked.set rfl hread⟩
      | inserted content =>
        obtain ⟨hnum, hhead⟩ := h.write content content
        exact ⟨hnum, hhead, h.checked.set rfl fun _ _ _ he => by cases he⟩
      | updated input read row expected hrow =>
        obtain ⟨hnum, hhead⟩ := h.write (E.compose input read.content) (E.compose input row.content)
        exact ⟨hnum, hhead, h.checked.set rfl fun _ _ _ he => by cases he⟩
      | deleted read row hrow =>
        obtain ⟨hnum, hhead⟩ := h.erase read.content
        exact ⟨hnum, hhead, h.checked.set rfl fun _ _ _ he => by cases he⟩

theorem Fresh.kept (h : w.Fresh) : w.Kept where
  numbered := by rw [Numbered, h.history]; rfl
  headed row hrow := .inl ⟨h.history, h.head row hrow⟩
  checked input read e hmem := by
    rw [h.calls] at hmem
    cases hmem

theorem kept (h : (writers E).Reachable w) : w.Kept :=
  h.invariant (I := Kept) (fun _ hs => Fresh.kept hs) fun _ _ _ _ hs hw => hs.step hw

theorem right_of_same (h : w'.Kept) (hhist : w'.history = w.history) :
    Right w l w' where
  expected i ok input read e _ _ hne := absurd hhist hne
  written rev hrev := by simp [hhist] at hrev
  deleted rev hrev := by simp [hhist] at hrev
  increasing := h.numbered.increasing
  head := h.headed

/-- A row was written: that is right if the revision it names is the one that was there, and it
says what was recorded. -/
theorem right_write_iff {payload content : E.Content} (h : w'.Kept)
    (hhead : w'.head = some ⟨content, some w.nextRevision⟩)
    (hhist : w'.history = w.append payload false) :
    Right w l w' ↔
      (∀ i ok input read e, l = .act i ok → w.calls[i]? = some (.updating input read (some e)) →
        ∃ row, w.head = some row ∧ row.revision = some e) ∧ content = payload := by
  have hne : w'.history ≠ w.history := by simp [hhist, World.append]
  constructor
  · intro hr
    obtain ⟨row, hrow, hcontent⟩ := hr.written _ hhist rfl
    cases hhead.symm.trans hrow
    exact ⟨fun i ok input read e hl hi => hr.expected i ok input read e hl hi hne, hcontent⟩
  · rintro ⟨hexpected, rfl⟩
    refine ⟨fun i ok input read e hl hi _ => hexpected i ok input read e hl hi,
      fun rev hrev _ => ⟨_, hhead, ?_⟩, fun rev hrev hdel => ?_, h.numbered.increasing, h.headed⟩
    · rw [← List.singleton_inj.mp (List.append_cancel_left (hhist.symm.trans hrev))]
    · rw [← List.singleton_inj.mp (List.append_cancel_left (hhist.symm.trans hrev))] at hdel
      cases hdel

theorem right_iff (h : w.Kept) (hw : w.step? l = some w') :
    Right w l w' ↔ w.heeds l = true := by
  have hkept := h.step hw
  cases l with
  | call r =>
    cases hw
    exact iff_of_true (right_of_same hkept rfl) rfl
  | act i ok =>
    simp only [step?] at hw
    split at hw
    · cases hw
    · cases hw
      exact iff_of_true (right_of_same hkept rfl) rfl
    · rename_i c u hi
      cases hw
      have hacted := acted_act w c
      revert hacted hkept
      generalize w.act c = x
      intro hkept hacted
      cases hacted with
      | idle c c' hread hno =>
        refine iff_of_true (right_of_same hkept rfl) ?_
        simp only [heeds, hi]
        split
        · rename_i input read expected row hc hrow
          exact absurd (Option.some.inj hc) ((hno row hrow).1 input read expected)
        · rename_i read row hc hrow
          exact absurd (Option.some.inj hc) ((hno row hrow).2 read)
        · rfl
      | inserted content =>
        rw [right_write_iff hkept rfl rfl]
        refine iff_of_true ⟨fun j ok input read e hl hj => ?_, rfl⟩ (by simp [heeds, hi])
        cases hl
        rw [hi] at hj
        cases hj
      | updated input read row expected hrow =>
        rw [right_write_iff hkept rfl rfl]
        simp only [heeds, hi, hrow, Bool.and_eq_true, Bool.or_eq_true, decide_eq_true_eq]
        refine and_congr_left fun _ => ?_
        cases expected with
        | none =>
          refine iff_of_true (fun j ok input' read' e hl hj => ?_) (.inl rfl)
          cases hl
          rw [hi] at hj
          cases hj
        | some e =>
          have hread := h.checked input read e (List.mem_of_getElem? hi)
          constructor
          · intro hexpected
            obtain ⟨row', hrow', hrev⟩ := hexpected i _ input read e rfl hi
            cases hrow'
            exact .inr (hrev.trans hread.symm)
          · rintro (hnone | hrev) j ok input' read' e' hl hj
            · cases hnone
            · cases hl
              rw [hi] at hj
              cases hj
              exact ⟨row, rfl, hrev.trans hread⟩
      | deleted read row hrow =>
        simp only [heeds, hi, hrow, decide_eq_true_eq]
        constructor
        · intro hr
          obtain ⟨-, row', hrow', hcontent⟩ := hr.deleted _ rfl rfl
          cases hrow.symm.trans hrow'
          exact hcontent
        · intro hcontent
          refine ⟨fun j ok input read' e hl hj _ => ?_, fun rev hrev hdel => ?_,
            fun rev hrev _ => ⟨rfl, row, hrow, ?_⟩, hkept.numbered.increasing, hkept.headed⟩
          · cases hl
            rw [hi] at hj
            cases hj
          · rw [← List.singleton_inj.mp (List.append_cancel_left hrev)] at hdel
            cases hdel
          · rw [← List.singleton_inj.mp (List.append_cancel_left hrev)]
            exact hcontent

end World

/-- Every write of a run is right exactly if the transactions of writes that name a revision find
the row that was read, and what a write leaves alone or deletes still says what it said then. -/
theorem writes_right_iff (E : Entity) {w w' : World E} {tr : List (World E × Label E × World E)}
    (hw : w.Fresh) (h : (writers E).Exec w tr w') :
    (∀ x ∈ tr, World.Right x.1 x.2.1 x.2.2) ↔ ∀ x ∈ tr, x.1.heeds x.2.1 = true := by
  have hstep : ∀ s l t, (writers E).Reachable s → True → (writers E).Step s l t →
      (World.Right s l t ↔ s.heeds l = true) :=
    fun s l t hs _ hl => World.right_iff (World.kept hs) hl
  exact h.right_iff (P := fun _ => True) (fun _ _ _ _ _ _ _ => trivial) hstep (.init hw) trivial

def World.empty (E : Entity) : World E := ⟨none, [], []⟩

theorem World.fresh_empty (E : Entity) : (World.empty E).Fresh :=
  ⟨fun _ h => (by cases h), rfl, rfl⟩

/-- A memory is created, half of it is rewritten by a writer that knows its revision, it is put
back and deleted. -/
theorem writes_right_restored : ∃ tr w, (writers (memory 7)).Exec (.empty (memory 7)) tr w ∧
    (∀ x ∈ tr, World.Right x.1 x.2.1 x.2.2) ∧
    w.history.map (fun r => (r.payload : MemoryContent).content) =
      ["one", "two", "one", "one"] := by
  have hrun : ((System.steps?
      (System.guarded? (fun w l => World.heeds w l = true) World.step?) (.empty (memory 7))
      [.call (.create ⟨"d", "one"⟩), .act 0 (.ok ()), .act 0 (.ok ()),
        .call (.update ⟨none, some "two"⟩ (some 1)), .act 1 (.ok ()), .act 1 (.ok ()),
        .call (.restore 1), .act 2 (.ok ()), .act 2 (.ok ()), .act 2 (.ok ()), .act 2 (.ok ()),
        .call .delete, .act 3 (.ok ()), .act 3 (.ok ())]).map
      fun w => w.history.map fun r => (r.payload : MemoryContent).content) =
      some ["one", "two", "one", "one"] := by
    decide +kernel
  obtain ⟨w, hw, hproj⟩ := Option.map_eq_some_iff.mp hrun
  obtain ⟨tr, htr, -, hg⟩ := System.exec_of_guarded? (M := writers (memory 7))
    (fun _ _ _ _ hstep => hstep) hw
  exact ⟨tr, w, htr, (writes_right_iff _ (World.fresh_empty _) htr).mpr hg, hproj⟩

def presetInput (model : String) : AgentPresetInput :=
  ⟨none, none, model, none, none, none, none, none, none, none⟩

/-- Two writers read a preset at revision 1 and both replace it, expecting revision 1: the second
undoes what the first wrote. -/
theorem both_writes_pass : ¬∀ (E : Entity) (w w' : World E)
    (tr : List (World E × Label E × World E)), w.Fresh → (writers E).Exec w tr w' →
      ∀ x ∈ tr, World.Right x.1 x.2.1 x.2.2 := by
  intro h
  let E := agentPreset "a"
  let before : List (Label E) :=
    [.call (.create (presetInput "m")), .act 0 (.ok ()), .act 0 (.ok ()),
      .call (.update (presetInput "n") (some 1)), .call (.update (presetInput "o") (some 1)),
      .act 1 (.ok ()), .act 2 (.ok ()), .act 1 (.ok ())]
  let w := (System.steps? World.step? (.empty E) before).get (by decide +kernel)
  have hw : System.steps? World.step? (.empty E) before = some w := (Option.some_get _).symm
  obtain ⟨tr, htr, -⟩ := System.exec_of_steps? (M := writers E) (fun _ _ _ hstep => hstep) hw
  let w' := (w.step? (.act 2 (.ok ()))).get (by decide +kernel)
  have hstep : (writers E).Step w (.act 2 (.ok ())) w' := (Option.some_get _).symm
  have hright := h E _ _ _ (World.fresh_empty E) (htr.snoc hstep) _
    (List.mem_append_right _ (List.mem_singleton_self _))
  have hkept := World.kept (htr.reachable (.init (World.fresh_empty E)))
  have hheeds : w.heeds (.act 2 (.ok ())) = false := by decide +kernel
  exact absurd (((World.right_iff hkept hstep).mp hright).symm.trans hheeds) (by decide)

end Horsie.Revisions
