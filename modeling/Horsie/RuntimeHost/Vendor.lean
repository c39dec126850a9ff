import Horsie.Lib.Transition

/-!
# A vendor's process

`serve` reads the commands of one connection in order and gives each a task of its own. A lifecycle
command fetches the lock of its runtime id, waits for it, and runs the vendor's operation under it;
a relayed message looks for the runtime's connection and is written to it. The tasks go on in any
order. At the other end of a connection a runtime takes the messages in the order they were written.

Commands are named by their place in the order they were sent.
-/

namespace Horsie.RuntimeHost

open Horsie.Lib

inductive RuntimeVendorCommand
  | create (runtime : String)
  | get (runtime : String)
  | hibernate (runtime : String)
  | delete (runtime : String)
  | call (runtime callId : String)
  /-- A relayed `CancelCall`. -/
  | cancel (runtime callId : String)
deriving DecidableEq

namespace RuntimeVendorCommand

def lifecycle : RuntimeVendorCommand → Option String
  | create runtime | get runtime | hibernate runtime | delete runtime => some runtime
  | call _ _ | cancel _ _ => none

def relayed : RuntimeVendorCommand → Option (String × String)
  | call runtime callId | cancel runtime callId => some (runtime, callId)
  | create _ | get _ | hibernate _ | delete _ => none

end RuntimeVendorCommand

/-- What is left to do of a vendor's operation. -/
inductive Action
  | halt
  /-- A process is started, dials back and is entered. -/
  | attach
deriving DecidableEq

/-- A connection that a runtime's process dialled back on. -/
structure Conn where
  runtime : String
  number : ℕ
deriving DecidableEq

/-- Where the task of a command stands. -/
inductive Phase
  | spawned
  | waiting (lock : ℕ)
  | executing (lock : ℕ) (rest : List Action)
  | retired (lock : ℕ)
  | forwarding (conn : Conn)
  | queued (conn : Conn)
  | running (conn : Conn)
  | ended
deriving DecidableEq

/-- The lock a task holds. -/
def Phase.held : Phase → Option ℕ
  | .executing lock _ | .retired lock => some lock
  | .spawned | .waiting _ | .forwarding _ | .queued _ | .running _ | .ended => none

/-- The connection that a relayed message was written to. -/
def Phase.conn : Phase → Option Conn
  | .queued conn | .running conn => some conn
  | .spawned | .waiting _ | .executing _ _ | .retired _ | .forwarding _ | .ended => none

structure Vendor where
  respawnable : Bool
  commands : List RuntimeVendorCommand
  /-- How many of them `serve` has read. -/
  read : ℕ
  phase : ℕ → Phase
  /-- `lifecycle_locks`. -/
  locks : String → Option ℕ
  nextLock : ℕ
  /-- `runtimes`: the connection of each runtime. -/
  runtimes : String → Option Conn
  nextConn : ℕ
  dead : List Conn
  queue : Conn → List ℕ
  /-- The call that the loop at the other end has spawned and not registered. -/
  registering : Conn → Option ℕ
  handles : Conn → String → Option ℕ

namespace Vendor

def init (respawnable : Bool) : Vendor where
  respawnable
  commands := []
  read := 0
  phase _ := .spawned
  locks _ := none
  nextLock := 0
  runtimes _ := none
  nextConn := 0
  dead := []
  queue _ := []
  registering _ := none
  handles _ _ := none

inductive Label
  | send (c : RuntimeVendorCommand)
  | read
  /-- `lifecycle_lock`. -/
  | lookup (i : ℕ)
  | acquire (i : ℕ)
  | act (i : ℕ) (ok : Bool)
  | retire (i : ℕ)
  | release (i : ℕ)
  /-- `transport_for`. -/
  | resolve (i : ℕ)
  | forward (i : ℕ)
  /-- The loop at the other end takes a message, and registers the call it spawned. -/
  | take (conn : Conn)
  | register (conn : Conn)
  | finish (i : ℕ)
  | die (conn : Conn)
deriving DecidableEq

variable (v : Vendor)

def setPhase (i : ℕ) (phase : Phase) : Vendor :=
  { v with phase := Function.update v.phase i phase }

def relayOf (i : ℕ) : Option (String × String) := (v.commands[i]?).bind (·.relayed)

def callIdOf (i : ℕ) : Option String := (v.relayOf i).map Prod.snd

/-- The process at the other end of a connection is gone, with all that was there. -/
def clear (conn : Conn) : Vendor :=
  { v with
    dead := conn :: v.dead
    phase := fun i => if (v.phase i).conn = some conn then .ended else v.phase i
    queue := Function.update v.queue conn []
    registering := Function.update v.registering conn none
    handles := Function.update v.handles conn fun _ => none }

def lifecycleLock (runtime : String) : ℕ × Vendor :=
  match v.locks runtime with
  | some lock => (lock, v)
  | none =>
    (v.nextLock,
      { v with
        locks := Function.update v.locks runtime (some v.nextLock)
        nextLock := v.nextLock + 1 })

def operation (runtime : String) : RuntimeVendorCommand → List Action
  | .create _ => [.halt, .attach]
  | .get _ =>
    if (v.runtimes runtime).isSome then [] else if v.respawnable then [.halt, .attach] else []
  | .hibernate _ | .delete _ => [.halt]
  | .call _ _ | .cancel _ _ => []

def isFree (lock : ℕ) : Bool :=
  (List.range v.read).all fun j => decide ((v.phase j).held ≠ some lock)

def halt (runtime : String) : Vendor :=
  match v.runtimes runtime with
  | some conn => { v.clear conn with runtimes := Function.update v.runtimes runtime none }
  | none => v

def attach (runtime : String) : Vendor :=
  { v with
    runtimes := Function.update v.runtimes runtime (some ⟨runtime, v.nextConn⟩)
    nextConn := v.nextConn + 1 }

/-- The loop at the other end takes a message: a call is spawned, a cancel aborts the call it
finds. -/
def takeCommand (conn : Conn) (i : ℕ) : RuntimeVendorCommand → Vendor
  | .call _ _ =>
    { v.setPhase i (.running conn) with
      registering := Function.update v.registering conn (some i) }
  | .cancel _ callId =>
    { v with
      phase := fun j => if j = i ∨ v.handles conn callId = some j then .ended else v.phase j
      handles := Function.update v.handles conn
        (Function.update (v.handles conn) callId none) }
  | .create _ | .get _ | .hibernate _ | .delete _ => v

def step? : Label → Option Vendor
  | .send c => some { v with commands := v.commands ++ [c] }
  | .read => if v.read < v.commands.length then some { v with read := v.read + 1 } else none
  | .lookup i =>
    match v.commands[i]?, v.phase i with
    | some c, .spawned =>
      if i < v.read then
        c.lifecycle.map fun runtime =>
          -- only a vendor that can rebuild a runtime hibernates it
          if c = .hibernate runtime ∧ v.respawnable = false then v.setPhase i .ended
          else (v.lifecycleLock runtime).2.setPhase i (.waiting (v.lifecycleLock runtime).1)
      else none
    | _, _ => none
  | .acquire i =>
    match v.commands[i]?, v.phase i with
    | some c, .waiting lock =>
      if v.isFree lock then
        c.lifecycle.map fun runtime => v.setPhase i (.executing lock (v.operation runtime c))
      else none
    | _, _ => none
  | .act i ok =>
    match v.commands[i]?, v.phase i with
    | some c, .executing lock (.halt :: rest) =>
      c.lifecycle.map fun runtime => (v.halt runtime).setPhase i (.executing lock rest)
    | some c, .executing lock (.attach :: rest) =>
      c.lifecycle.map fun runtime =>
        (if ok then v.attach runtime else v).setPhase i (.executing lock rest)
    | _, _ => none
  | .retire i =>
    match v.commands[i]?, v.phase i with
    | some (.delete runtime), .executing lock [] =>
      some
        { v.setPhase i (.retired lock) with locks := Function.update v.locks runtime none }
    | _, _ => none
  | .release i =>
    match v.commands[i]?, v.phase i with
    | some (.delete _), .executing _ [] => none
    | some _, .executing _ [] | some _, .retired _ => some (v.setPhase i .ended)
    | _, _ => none
  | .resolve i =>
    match v.relayOf i, v.phase i with
    | some (runtime, _), .spawned =>
      if i < v.read then
        some (v.setPhase i ((v.runtimes runtime).elim .ended .forwarding))
      else none
    | _, _ => none
  | .forward i =>
    match v.phase i with
    | .forwarding conn =>
      if conn ∈ v.dead then some (v.setPhase i .ended)
      else
        some
          { v.setPhase i (.queued conn) with
            queue := Function.update v.queue conn (v.queue conn ++ [i]) }
    | _ => none
  | .take conn =>
    match v.queue conn, v.registering conn with
    | i :: rest, none =>
      (v.commands[i]?).map
        ({ v with queue := Function.update v.queue conn rest }.takeCommand conn i)
    | _, _ => none
  | .register conn =>
    match v.registering conn with
    | some i =>
      (v.callIdOf i).map fun callId =>
        { v with
          registering := Function.update v.registering conn none
          handles := Function.update v.handles conn
            (Function.update (v.handles conn) callId (some i)) }
    | none => none
  | .finish i =>
    match v.phase i with
    | .running conn =>
      (v.callIdOf i).map fun callId =>
        { v.setPhase i .ended with
          handles := Function.update v.handles conn
            (Function.update (v.handles conn) callId none) }
    | _ => none
  | .die conn => some (v.clear conn)

/-! ## Only what is read goes on -/

/-- The tasks, messages and handles are those of commands that `serve` has read. -/
structure Sound : Prop where
  length : v.read ≤ v.commands.length
  unread : ∀ i, v.read ≤ i → v.phase i = .spawned
  queue : ∀ conn, ∀ i ∈ v.queue conn, i < v.read
  registering : ∀ conn i, v.registering conn = some i → i < v.read
  handles : ∀ conn callId i, v.handles conn callId = some i → i < v.read

variable {v} {v' : Vendor}

theorem Sound.init (respawnable : Bool) : (init respawnable).Sound where
  length := Nat.zero_le _
  unread _ _ := rfl
  queue _ _ h := absurd h List.not_mem_nil
  registering _ _ h := by cases h
  handles _ _ _ h := by cases h

theorem Sound.lt_read (h : v.Sound) {i : ℕ} (hp : v.phase i ≠ .spawned) : i < v.read := by
  by_contra hi
  exact hp (h.unread i (by omega))

theorem Sound.setPhase (h : v.Sound) {i : ℕ} (hi : i < v.read) (phase : Phase) :
    (v.setPhase i phase).Sound := by
  refine ⟨h.length, fun j hj => ?_, h.queue, h.registering, h.handles⟩
  have hji : j ≠ i := by
    rintro rfl
    exact absurd hi (Nat.not_lt.mpr hj)
  exact (Function.update_of_ne hji _ _).trans (h.unread j hj)

theorem Sound.clear (h : v.Sound) (conn : Conn) : (v.clear conn).Sound := by
  refine ⟨h.length, fun i hi => ?_, fun c i hi => ?_, fun c i hi => ?_, fun c callId i hi => ?_⟩
  · have hp := h.unread i hi
    simp [Vendor.clear, hp, Phase.conn]
  · simp only [Vendor.clear, Function.update_apply] at hi
    split_ifs at hi
    · cases hi
    · exact h.queue c i hi
  · simp only [Vendor.clear, Function.update_apply] at hi
    split_ifs at hi
    exact h.registering c i hi
  · simp only [Vendor.clear, Function.update_apply] at hi
    split_ifs at hi
    exact h.handles c callId i hi

theorem Sound.halt (h : v.Sound) (runtime : String) : (v.halt runtime).Sound := by
  unfold Vendor.halt
  split
  · rename_i conn _
    have hc := h.clear conn
    exact ⟨hc.length, hc.unread, hc.queue, hc.registering, hc.handles⟩
  · exact h

theorem Sound.lifecycleLock (h : v.Sound) (runtime : String) :
    (v.lifecycleLock runtime).2.Sound ∧ (v.lifecycleLock runtime).2.read = v.read := by
  unfold Vendor.lifecycleLock
  split
  · exact ⟨h, rfl⟩
  · exact ⟨⟨h.length, h.unread, h.queue, h.registering, h.handles⟩, rfl⟩

theorem Sound.setHandle (h : v.Sound) (conn : Conn) (callId : String) (handle : Option ℕ)
    (hi : ∀ i, handle = some i → i < v.read) :
    Sound
      { v with
        handles := Function.update v.handles conn
          (Function.update (v.handles conn) callId handle) } := by
  refine ⟨h.length, h.unread, h.queue, h.registering, fun c callId' i hj => ?_⟩
  simp only [Function.update_apply] at hj
  split_ifs at hj
  · simp only [Function.update_apply] at hj
    split_ifs at hj
    · exact hi i hj
    · exact h.handles _ _ i hj
  · exact h.handles c callId' i hj

theorem Sound.takeCommand (h : v.Sound) {conn : Conn} {i : ℕ} (hi : i < v.read) :
    ∀ c, (v.takeCommand conn i c).Sound
  | .call _ _ => by
    have hp := h.setPhase hi (.running conn)
    refine ⟨hp.length, hp.unread, hp.queue, fun c j hj => ?_, hp.handles⟩
    simp only [Vendor.takeCommand, Function.update_apply] at hj
    split_ifs at hj
    · exact Option.some.inj hj ▸ hi
    · exact h.registering c j hj
  | .cancel _ callId => by
    have hx := h.setHandle conn callId none fun _ hn => by cases hn
    refine ⟨hx.length, fun j hj => ?_, hx.queue, hx.registering, hx.handles⟩
    refine (if_neg ?_).trans (h.unread j hj)
    rintro (rfl | hj')
    · exact absurd hi (Nat.not_lt.mpr hj)
    · exact absurd (h.handles conn callId j hj') (Nat.not_lt.mpr hj)
  | .create _ | .get _ | .hibernate _ | .delete _ => h

theorem Sound.step (h : v.Sound) {l : Label} (hs : v.step? l = some v') : v'.Sound := by
  unfold step? at hs
  cases l with
  | send c =>
    cases hs
    exact ⟨Nat.le_trans h.length (by simp), h.unread, h.queue, h.registering, h.handles⟩
  | read =>
    split_ifs at hs with hlt
    cases hs
    exact ⟨hlt, fun i hi => h.unread i (Nat.le_of_succ_le hi),
      fun c i hi => Nat.lt_succ_of_lt (h.queue c i hi),
      fun c i hi => Nat.lt_succ_of_lt (h.registering c i hi),
      fun c callId i hi => Nat.lt_succ_of_lt (h.handles c callId i hi)⟩
  | lookup i =>
    dsimp only at hs
    split at hs
    · obtain ⟨hi, hs⟩ := Option.ite_none_right_eq_some.mp hs
      obtain ⟨runtime, -, rfl⟩ := Option.map_eq_some_iff.mp hs
      obtain ⟨hlock, hread⟩ := h.lifecycleLock runtime
      split_ifs
      · exact h.setPhase hi _
      · exact hlock.setPhase (hread ▸ hi) _
    · cases hs
  | acquire i =>
    dsimp only at hs
    split at hs
    · rename_i hp
      obtain ⟨-, hs⟩ := Option.ite_none_right_eq_some.mp hs
      obtain ⟨runtime, -, rfl⟩ := Option.map_eq_some_iff.mp hs
      exact h.setPhase (h.lt_read (by rw [hp]; exact Phase.noConfusion)) _
    · cases hs
  | act i ok =>
    dsimp only at hs
    split at hs
    · rename_i hp
      obtain ⟨runtime, -, rfl⟩ := Option.map_eq_some_iff.mp hs
      have hi : i < v.read := h.lt_read (by rw [hp]; exact Phase.noConfusion)
      refine (h.halt runtime).setPhase ?_ _
      unfold Vendor.halt
      split <;> exact hi
    · rename_i c lock rest hc hp
      obtain ⟨runtime, -, rfl⟩ := Option.map_eq_some_iff.mp hs
      have hi : i < v.read := h.lt_read (by rw [hp]; exact Phase.noConfusion)
      have hx := h.setPhase hi (.executing lock rest)
      split_ifs
      · exact ⟨hx.length, hx.unread, hx.queue, hx.registering, hx.handles⟩
      · exact hx
    · cases hs
  | retire i =>
    dsimp only at hs
    split at hs
    · rename_i runtime lock hc hp
      cases hs
      have hi : i < v.read := h.lt_read (by rw [hp]; exact Phase.noConfusion)
      have hx := h.setPhase hi (.retired lock)
      exact ⟨hx.length, hx.unread, hx.queue, hx.registering, hx.handles⟩
    · cases hs
  | release i =>
    dsimp only at hs
    split at hs
    · cases hs
    · rename_i hp
      cases hs
      exact h.setPhase (h.lt_read (by rw [hp]; exact Phase.noConfusion)) _
    · rename_i hp
      cases hs
      exact h.setPhase (h.lt_read (by rw [hp]; exact Phase.noConfusion)) _
    · cases hs
  | resolve i =>
    dsimp only at hs
    split at hs
    · split_ifs at hs with hi
      cases hs
      exact h.setPhase hi _
    · cases hs
  | forward i =>
    dsimp only at hs
    split at hs
    · rename_i conn hp
      have hi : i < v.read := h.lt_read (by rw [hp]; exact Phase.noConfusion)
      split_ifs at hs
      · cases hs
        exact h.setPhase hi _
      · cases hs
        have hx := h.setPhase hi (.queued conn)
        refine ⟨hx.length, hx.unread, fun c j hj => ?_, hx.registering, hx.handles⟩
        simp only [Function.update_apply] at hj
        split_ifs at hj
        · rcases List.mem_append.mp hj with hj | hj
          · exact h.queue conn j hj
          · exact List.mem_singleton.mp hj ▸ hi
        · exact h.queue c j hj
    · cases hs
  | take conn =>
    dsimp only at hs
    split at hs
    · rename_i i rest hq hreg
      obtain ⟨c, -, rfl⟩ := Option.map_eq_some_iff.mp hs
      have hi : i < v.read := h.queue conn i (by rw [hq]; exact List.mem_cons_self)
      have hrest : Sound { v with queue := Function.update v.queue conn rest } := by
        refine ⟨h.length, h.unread, fun c j hj => ?_, h.registering, h.handles⟩
        simp only [Function.update_apply] at hj
        split_ifs at hj
        · exact h.queue conn j (by rw [hq]; exact List.mem_cons_of_mem _ hj)
        · exact h.queue c j hj
      exact hrest.takeCommand hi c
    · cases hs
  | register conn =>
    dsimp only at hs
    split at hs
    · rename_i i hreg
      obtain ⟨callId, -, rfl⟩ := Option.map_eq_some_iff.mp hs
      have hx := h.setHandle conn callId (some i) fun j hj =>
        Option.some.inj hj ▸ h.registering conn i hreg
      refine ⟨hx.length, hx.unread, hx.queue, fun c j hj => ?_, hx.handles⟩
      simp only [Function.update_apply] at hj
      split_ifs at hj
      exact h.registering c j hj
    · cases hs
  | finish i =>
    dsimp only at hs
    split at hs
    · rename_i conn hp
      obtain ⟨callId, -, rfl⟩ := Option.map_eq_some_iff.mp hs
      have hi : i < v.read := h.lt_read (by rw [hp]; exact Phase.noConfusion)
      exact (h.setPhase hi .ended).setHandle conn callId none fun _ hn => by cases hn
    · cases hs
  | die conn =>
    cases hs
    exact h.clear conn

end Vendor

def vendorLink (respawnable : Bool) : System Vendor Vendor.Label :=
  .ofStep? (.init respawnable) Vendor.step?

theorem sound_of_reachable {respawnable : Bool} {v : Vendor}
    (h : (vendorLink respawnable).Reachable v) : v.Sound :=
  h.invariant (by rintro _ rfl; exact .init respawnable) fun _ _ _ _ hv hs => hv.step hs

end Horsie.RuntimeHost
