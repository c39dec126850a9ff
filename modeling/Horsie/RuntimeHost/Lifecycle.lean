import Horsie.RuntimeHost.Vendor

/-!
# One lifecycle command at a time

The lock of a runtime id keeps its lifecycle commands apart, and a delete removes it from the map. A
command that waited for it still has it, and one that comes later makes another. The operations are
exclusive as long as no command makes a lock while another has one (`operations_exclusive`).
-/

namespace Horsie.RuntimeHost

open Horsie.Lib

namespace Vendor

/-! ## The property and the condition -/

def runtimeOf (v : Vendor) (i : ℕ) : Option String := (v.commands[i]?).bind (·.lifecycle)

def Operates (v : Vendor) (runtime : String) (i : ℕ) : Prop :=
  v.runtimeOf i = some runtime ∧ ∃ lock rest, v.phase i = .executing lock rest

/-- At most one command at a time executes an operation on a runtime. -/
def Exclusive (v : Vendor) : Prop :=
  ∀ runtime i j, v.Operates runtime i → v.Operates runtime j → i = j

end Vendor

/-- The lock a task waits for, or executes its operation under. -/
def Phase.lock : Phase → Option ℕ
  | .waiting lock | .executing lock _ => some lock
  | .spawned | .retired _ | .forwarding _ | .queued _ | .running _ | .ended => none

namespace Vendor

/-- Some command of a runtime waits for a lock, or executes its operation. -/
def engaged (v : Vendor) (runtime : String) : Bool :=
  (List.range v.read).any fun j =>
    decide (v.runtimeOf j = some runtime) && ((v.phase j).lock).isSome

/-- No command makes a lock for a runtime while another command of it has one. -/
def looksUpAlone (v : Vendor) : Label → Bool
  | .lookup i => (v.runtimeOf i).all fun runtime =>
      (v.locks runtime).isSome || !v.engaged runtime
  | _ => true

/-! ## The invariant -/

/-- The commands of a runtime have one lock, the one in the map if there is one, and no two tasks
hold the same. -/
structure Locked (v : Vendor) : Prop where
  shared : ∀ runtime i j l l', v.runtimeOf i = some runtime → v.runtimeOf j = some runtime →
    (v.phase i).lock = some l → (v.phase j).lock = some l' → l = l'
  entry : ∀ runtime i l l', v.locks runtime = some l → v.runtimeOf i = some runtime →
    (v.phase i).lock = some l' → l' = l
  mutex : ∀ i j l, (v.phase i).held = some l → (v.phase j).held = some l → i = j
  fresh : ∀ i l, (v.phase i).lock = some l ∨ (v.phase i).held = some l → l < v.nextLock
  made : ∀ runtime l, v.locks runtime = some l → l < v.nextLock

variable {v v' : Vendor}

theorem Locked.exclusive (h : v.Locked) : v.Exclusive := by
  rintro runtime i j ⟨hi, l, rest, hl⟩ ⟨hj, l', rest', hl'⟩
  have hlock := h.shared runtime i j l l' hi hj (by rw [hl]; rfl) (by rw [hl']; rfl)
  exact h.mutex i j l (by rw [hl]; rfl) (by rw [hl', hlock]; rfl)

theorem Locked.init (respawnable : Bool) : (init respawnable).Locked where
  shared _ _ _ _ _ _ _ h := by cases h
  entry _ _ _ _ h := by cases h
  mutex _ _ _ h := by cases h
  fresh _ _ h := by rcases h with h | h <;> cases h
  made _ _ h := by cases h

/-! ## Steps -/

/-- A step in which tasks only give up locks. -/
structure Leaves (v v' : Vendor) : Prop where
  commands : v'.commands = v.commands
  locks : v'.locks = v.locks
  nextLock : v'.nextLock = v.nextLock
  phase : ∀ i, v'.phase i = v.phase i ∨ (v'.phase i).lock = none ∧ (v'.phase i).held = none

theorem Locked.leave (h : v.Locked) (hl : Leaves v v') : v'.Locked := by
  have hlock : ∀ i l, (v'.phase i).lock = some l → (v.phase i).lock = some l := by
    intro i l hi
    rcases hl.phase i with he | ⟨hn, -⟩
    · rwa [he] at hi
    · rw [hn] at hi
      cases hi
  have hheld : ∀ i l, (v'.phase i).held = some l → (v.phase i).held = some l := by
    intro i l hi
    rcases hl.phase i with he | ⟨-, hn⟩
    · rwa [he] at hi
    · rw [hn] at hi
      cases hi
  have hof : ∀ i, v'.runtimeOf i = v.runtimeOf i := fun i => by
    unfold runtimeOf
    rw [hl.commands]
  refine ⟨?_, ?_, ?_, ?_, ?_⟩
  · intro runtime i j l l' hi hj hli hlj
    rw [hof] at hi hj
    exact h.shared runtime i j l l' hi hj (hlock i l hli) (hlock j l' hlj)
  · intro runtime i l l' hm hi hli
    rw [hl.locks] at hm
    rw [hof] at hi
    exact h.entry runtime i l l' hm hi (hlock i l' hli)
  · exact fun i j l hi hj => h.mutex i j l (hheld i l hi) (hheld j l hj)
  · rw [hl.nextLock]
    exact fun i l hi => h.fresh i l (hi.imp (hlock i l) (hheld i l))
  · rw [hl.locks, hl.nextLock]
    exact h.made

variable {i : ℕ} {phase : Phase}

theorem leaves_setPhase (hlock : phase.lock = none)
    (hheld : phase.held = none) : Leaves v (v.setPhase i phase) := by
  refine ⟨rfl, rfl, rfl, fun j => ?_⟩
  by_cases hj : j = i
  · subst hj
    refine .inr ⟨?_, ?_⟩ <;> simpa [setPhase]
  · exact .inl (Function.update_of_ne hj _ _)

theorem leaves_clear (conn : Conn) : Leaves v (v.clear conn) := by
  refine ⟨rfl, rfl, rfl, fun i => ?_⟩
  by_cases hi : (v.phase i).conn = some conn
  · refine .inr ?_
    simp only [Vendor.clear, if_pos hi]
    exact ⟨rfl, rfl⟩
  · exact .inl (if_neg hi)

theorem Locked.halt (h : v.Locked) (runtime : String) : (v.halt runtime).Locked := by
  unfold Vendor.halt
  split
  · rename_i conn _
    have hc := h.leave (leaves_clear conn)
    exact ⟨hc.shared, hc.entry, hc.mutex, hc.fresh, hc.made⟩
  · exact h

theorem Locked.keep (h : v.Locked) {l : ℕ} (hi : (v.phase i).lock = some l)
    (hlock : phase.lock = some l ∨ phase.lock = none)
    (hheld : ∀ l', phase.held = some l' → l' = l ∧ ∀ j, (v.phase j).held = some l → j = i) :
    (v.setPhase i phase).Locked := by
  have hold : ∀ j l', ((v.setPhase i phase).phase j).lock = some l' →
      (v.phase j).lock = some l' := by
    intro j l' hj
    by_cases hji : j = i
    · subst hji
      rcases hlock with hlock | hlock <;> simp_all [setPhase]
    · simpa [setPhase, hji] using hj
  have hheld' : ∀ j l', ((v.setPhase i phase).phase j).held = some l' →
      j = i ∧ l' = l ∨ j ≠ i ∧ (v.phase j).held = some l' := by
    intro j l' hj
    by_cases hji : j = i
    · subst hji
      exact .inl ⟨rfl, (hheld l' (by simpa [setPhase] using hj)).1⟩
    · exact .inr ⟨hji, by simpa [setPhase, hji] using hj⟩
  refine ⟨?_, ?_, ?_, ?_, h.made⟩
  · exact fun runtime j k l₁ l₂ hj hk h₁ h₂ =>
      h.shared runtime j k l₁ l₂ hj hk (hold j l₁ h₁) (hold k l₂ h₂)
  · exact fun runtime j l₁ l₂ hm hj h₁ => h.entry runtime j l₁ l₂ hm hj (hold j l₂ h₁)
  · intro j k l' hj hk
    rcases hheld' j l' hj with ⟨rfl, rfl⟩ | ⟨hne, hj'⟩ <;>
      rcases hheld' k l' hk with ⟨rfl, hll⟩ | ⟨hne', hk'⟩
    · rfl
    · exact absurd ((hheld _ (by simpa [setPhase] using hj)).2 k hk') hne'
    · exact absurd ((hheld _ (by simpa [setPhase] using hk)).2 j (hll ▸ hj')) hne
    · exact h.mutex j k l' hj' hk'
  · rintro j l' (hj | hj)
    · exact h.fresh j l' (.inl (hold j l' hj))
    · rcases hheld' j l' hj with ⟨rfl, rfl⟩ | ⟨-, hj'⟩
      · exact h.fresh j l' (.inl hi)
      · exact h.fresh j l' (.inr hj')

theorem not_held_of_isFree (h : v.Sound) {lock : ℕ} (hfree : v.isFree lock = true) (j : ℕ) :
    (v.phase j).held ≠ some lock := by
  by_cases hj : j < v.read
  · exact of_decide_eq_true (List.all_eq_true.mp hfree j (List.mem_range.mpr hj))
  · rw [h.unread j (by omega)]
    exact (Option.some_ne_none _).symm

variable {runtime : String}

theorem not_engaged (h : v.Sound) (hn : v.engaged runtime = false) {j : ℕ}
    (hj : v.runtimeOf j = some runtime) : (v.phase j).lock = none := by
  by_cases hlt : j < v.read
  · have hall := List.any_eq_false.mp hn j (List.mem_range.mpr hlt)
    rw [decide_eq_true hj, Bool.true_and, Bool.not_eq_true, Option.isSome_eq_false_iff,
      Option.isNone_iff_eq_none] at hall
    exact hall
  · rw [h.unread j (by omega)]
    rfl

theorem Locked.enter (h : v.Locked) {l : ℕ}
    (hof : v.runtimeOf i = some runtime) (hm : v.locks runtime = some l) :
    (v.setPhase i (.waiting l)).Locked := by
  have hphase : ∀ j, (v.setPhase i (.waiting l)).phase j =
      if j = i then .waiting l else v.phase j := fun j => by
    simp [setPhase, Function.update_apply]
  have hlock : ∀ j l', ((v.setPhase i (.waiting l)).phase j).lock = some l' →
      j = i ∧ l' = l ∨ (v.phase j).lock = some l' := by
    intro j l' hj
    rw [hphase] at hj
    split_ifs at hj with hji
    · exact .inl ⟨hji, (Option.some.inj hj).symm⟩
    · exact .inr hj
  have hheld : ∀ j l', ((v.setPhase i (.waiting l)).phase j).held = some l' →
      (v.phase j).held = some l' := by
    intro j l' hj
    rw [hphase] at hj
    split_ifs at hj with hji
    · cases hj
    · exact hj
  -- every command of the runtime has the lock in the map
  have hone : ∀ j l', v.runtimeOf j = some runtime → (v.phase j).lock = some l' → l' = l :=
    fun j l' hj hl' => h.entry runtime j l l' hm hj hl'
  refine ⟨?_, ?_, ?_, ?_, h.made⟩
  · intro r j k l₁ l₂ hj hk h₁ h₂
    rcases hlock j l₁ h₁ with ⟨rfl, rfl⟩ | hold <;> rcases hlock k l₂ h₂ with ⟨rfl, rfl⟩ | hold'
    · rfl
    · obtain rfl : r = runtime := Option.some.inj (hj.symm.trans hof)
      exact (hone k l₂ hk hold').symm
    · obtain rfl : r = runtime := Option.some.inj (hk.symm.trans hof)
      exact hone j l₁ hj hold
    · exact h.shared r j k l₁ l₂ hj hk hold hold'
  · intro r j l₁ l₂ hr hj h₂
    rcases hlock j l₂ h₂ with ⟨rfl, rfl⟩ | hold
    · obtain rfl : r = runtime := Option.some.inj (hj.symm.trans hof)
      exact Option.some.inj (hm.symm.trans hr)
    · exact h.entry r j l₁ l₂ hr hj hold
  · exact fun j k l' hj hk => h.mutex j k l' (hheld j l' hj) (hheld k l' hk)
  · rintro j l' (hj | hj)
    · rcases hlock j l' hj with ⟨-, rfl⟩ | hold
      · exact h.made runtime l' hm
      · exact h.fresh j l' (.inl hold)
    · exact h.fresh j l' (.inr (hheld j l' hj))

theorem Locked.make (h : v.Locked)
    (hnone : ∀ j, v.runtimeOf j = some runtime → (v.phase j).lock = none) :
    Locked
      { v with
        locks := Function.update v.locks runtime (some v.nextLock)
        nextLock := v.nextLock + 1 } := by
  refine ⟨h.shared, fun r i l l' hm hi hl' => ?_, h.mutex,
    fun i l hi => Nat.lt_succ_of_lt (h.fresh i l hi), fun r l hm => ?_⟩
  · by_cases hr : r = runtime
    · subst hr
      have hno := hnone i hi
      rw [show (v.phase i).lock = some l' from hl'] at hno
      cases hno
    · exact h.entry r i l l' (by simpa [hr] using hm) hi hl'
  · by_cases hr : r = runtime
    · subst hr
      simp only [Function.update_self, Option.some.injEq] at hm
      exact hm ▸ Nat.lt_succ_self _
    · exact Nat.lt_succ_of_lt (h.made r l (by simpa [hr] using hm))

/-- A command gets the lock of its runtime, made for it if no other has one. -/
theorem Locked.lookup (h : v.Locked) (hsound : v.Sound)
    (hof : v.runtimeOf i = some runtime)
    (halone : (v.locks runtime).isSome = true ∨ v.engaged runtime = false) :
    ((v.lifecycleLock runtime).2.setPhase i
      (.waiting (v.lifecycleLock runtime).1)).Locked := by
  unfold lifecycleLock
  cases hm : v.locks runtime with
  | some l => exact h.enter hof hm
  | none =>
    have hnone : ∀ j, v.runtimeOf j = some runtime → (v.phase j).lock = none := by
      rcases halone with hsome | hno
      · rw [hm] at hsome
        cases hsome
      · exact fun j hj => not_engaged hsound hno hj
    exact (h.make hnone).enter hof (Function.update_self _ _ _)

theorem Locked.send (h : v.Locked) (hsound : v.Sound) (c : RuntimeVendorCommand) :
    Locked { v with commands := v.commands ++ [c] } := by
  have hof : ∀ i l, (v.phase i).lock = some l →
      runtimeOf { v with commands := v.commands ++ [c] } i = v.runtimeOf i := by
    intro i l hi
    have hread : i < v.read := hsound.lt_read fun hp => by
      rw [hp] at hi
      cases hi
    unfold runtimeOf
    rw [List.getElem?_append_left (Nat.lt_of_lt_of_le hread hsound.length)]
  refine ⟨fun r i j l l' hi hj hl hl' => ?_,
    fun r i l l' hm hi hl' => ?_, h.mutex, h.fresh, h.made⟩
  · rw [hof i l hl] at hi
    rw [hof j l' hl'] at hj
    exact h.shared r i j l l' hi hj hl hl'
  · rw [hof i l' hl'] at hi
    exact h.entry r i l l' hm hi hl'

theorem Locked.unmap (h : v.Locked) (runtime : String) :
    Locked { v with locks := Function.update v.locks runtime none } := by
  have hm : ∀ r l, Function.update v.locks runtime none r = some l → v.locks r = some l := by
    intro r l hr
    by_cases he : r = runtime
    · subst he
      simp at hr
    · simpa [he] using hr
  exact ⟨h.shared, fun r i l l' hr => h.entry r i l l' (hm r l hr), h.mutex,
    h.fresh, fun r l hr => h.made r l (hm r l hr)⟩

theorem Locked.proceed (h : v.Locked) {l : ℕ} {rest : List Action}
    (hp : v.phase i = .executing l rest)
    (hlock : phase.lock = some l ∨ phase.lock = none) (hheld : phase.held = some l) :
    (v.setPhase i phase).Locked := by
  refine h.keep (by rw [hp]; rfl) hlock fun l' hl' => ?_
  obtain rfl : l = l' := Option.some.inj (hheld.symm.trans hl')
  exact ⟨rfl, fun j hj => h.mutex j i l hj (by rw [hp]; rfl)⟩

theorem halt_phase (hp : (v.phase i).conn = none) :
    (v.halt runtime).phase i = v.phase i := by
  unfold Vendor.halt
  split
  · simp [Vendor.clear, hp]
  · rfl

theorem Locked.take (h : v.Locked) (conn : Conn) (i : ℕ) : ∀ c, (v.takeCommand conn i c).Locked
  | .call _ _ => by
    have hx : (v.setPhase i (.running conn)).Locked := h.leave (leaves_setPhase rfl rfl)
    exact ⟨hx.shared, hx.entry, hx.mutex, hx.fresh, hx.made⟩
  | .cancel _ callId => by
    refine h.leave ⟨rfl, rfl, rfl, fun j => ?_⟩
    by_cases hj : j = i ∨ v.handles conn callId = some j
    · refine .inr ?_
      simp only [takeCommand, if_pos hj]
      exact ⟨rfl, rfl⟩
    · exact .inl (if_neg hj)
  | .create _ | .get _ | .hibernate _ | .delete _ => h

theorem Locked.step (h : v.Locked) (hsound : v.Sound) {l : Label} (hl : v.looksUpAlone l = true)
    (hs : v.step? l = some v') : v'.Locked := by
  unfold step? at hs
  cases l with
  | send c =>
    cases hs
    exact h.send hsound c
  | read =>
    split_ifs at hs
    cases hs
    exact ⟨h.shared, h.entry, h.mutex, h.fresh, h.made⟩
  | lookup i =>
    dsimp only at hs
    split at hs
    · rename_i c hc hp
      obtain ⟨-, hs⟩ := Option.ite_none_right_eq_some.mp hs
      obtain ⟨runtime, hr, rfl⟩ := Option.map_eq_some_iff.mp hs
      have hof : v.runtimeOf i = some runtime := by
        unfold runtimeOf
        rw [hc]
        exact hr
      split
      · exact h.leave (leaves_setPhase rfl rfl)
      · refine h.lookup hsound hof ?_
        simpa [looksUpAlone, hof] using hl
    · cases hs
  | acquire i =>
    dsimp only at hs
    split at hs
    · rename_i c lock hc hp
      obtain ⟨hfree, hs⟩ := Option.ite_none_right_eq_some.mp hs
      obtain ⟨runtime, -, rfl⟩ := Option.map_eq_some_iff.mp hs
      refine h.keep (by rw [hp]; rfl) (.inl rfl) fun l' hl' => ?_
      cases hl'
      exact ⟨rfl, fun j hj => absurd hj (not_held_of_isFree hsound hfree j)⟩
    · cases hs
  | act i ok =>
    dsimp only at hs
    split at hs
    · rename_i c lock rest hc hp
      obtain ⟨runtime, -, rfl⟩ := Option.map_eq_some_iff.mp hs
      have hp' : (v.halt runtime).phase i = .executing lock (.halt :: rest) :=
        (halt_phase (by rw [hp]; rfl)).trans hp
      exact (h.halt runtime).proceed hp' (.inl rfl) rfl
    · rename_i c lock rest hc hp
      obtain ⟨runtime, -, rfl⟩ := Option.map_eq_some_iff.mp hs
      have hx : (v.setPhase i (.executing lock rest)).Locked := h.proceed hp (.inl rfl) rfl
      split_ifs
      · exact ⟨hx.shared, hx.entry, hx.mutex, hx.fresh, hx.made⟩
      · exact hx
    · cases hs
  | retire i =>
    dsimp only at hs
    split at hs
    · rename_i runtime lock hc hp
      cases hs
      have hx : (v.setPhase i (.retired lock)).Locked := h.proceed hp (.inr rfl) rfl
      exact hx.unmap runtime
    · cases hs
  | release i =>
    dsimp only at hs
    split at hs
    · cases hs
    · rename_i hc hp
      cases hs
      exact h.leave (leaves_setPhase rfl rfl)
    · rename_i hc hp
      cases hs
      exact h.leave (leaves_setPhase rfl rfl)
    · cases hs
  | resolve i =>
    dsimp only at hs
    split at hs
    · split_ifs at hs
      cases hs
      refine h.leave ?_
      cases v.runtimes _ with
      | none => exact leaves_setPhase rfl rfl
      | some conn => exact leaves_setPhase rfl rfl
    · cases hs
  | forward i =>
    dsimp only at hs
    split at hs
    · rename_i conn hp
      split_ifs at hs
      · cases hs
        exact h.leave (leaves_setPhase rfl rfl)
      · cases hs
        have hx : (v.setPhase i (.queued conn)).Locked := h.leave (leaves_setPhase rfl rfl)
        exact ⟨hx.shared, hx.entry, hx.mutex, hx.fresh, hx.made⟩
    · cases hs
  | take conn =>
    dsimp only at hs
    split at hs
    · rename_i i rest hq hreg
      obtain ⟨c, hc, rfl⟩ := Option.map_eq_some_iff.mp hs
      have hrest : Locked { v with queue := Function.update v.queue conn rest } :=
        ⟨h.shared, h.entry, h.mutex, h.fresh, h.made⟩
      exact hrest.take conn i c
    · cases hs
  | register conn =>
    dsimp only at hs
    split at hs
    · obtain ⟨callId, -, rfl⟩ := Option.map_eq_some_iff.mp hs
      exact ⟨h.shared, h.entry, h.mutex, h.fresh, h.made⟩
    · cases hs
  | finish i =>
    dsimp only at hs
    split at hs
    · rename_i conn hp
      obtain ⟨callId, -, rfl⟩ := Option.map_eq_some_iff.mp hs
      have hx : (v.setPhase i .ended).Locked := h.leave (leaves_setPhase rfl rfl)
      exact ⟨hx.shared, hx.entry, hx.mutex, hx.fresh, hx.made⟩
    · cases hs
  | die conn =>
    cases hs
    exact h.leave (leaves_clear conn)

end Vendor

/-- A create waits while a delete runs, and keeps the lock that the delete then removes; another
create makes a lock of its own, and both run at a time. -/
theorem creates_overlap :
    ¬ ∀ respawnable v, (vendorLink respawnable).Reachable v → v.Exclusive := by
  intro h
  have hrun : ((System.steps? Vendor.step? (.init true)
      [.send (.delete "r"), .send (.create "r"), .read, .read, .lookup 0, .lookup 1, .acquire 0,
        .act 0 true, .retire 0, .release 0, .acquire 1, .send (.create "r"), .read, .lookup 2,
        .acquire 2]).map fun v => (v.commands, v.phase 1, v.phase 2)) =
      some ([.delete "r", .create "r", .create "r"], .executing 0 [.halt, .attach],
        .executing 1 [.halt, .attach]) := by
    decide +kernel
  obtain ⟨v, hv, hx⟩ := Option.map_eq_some_iff.mp hrun
  obtain ⟨tr, htr, -⟩ := System.exec_steps? (Vendor.init true) hv
  simp only [Prod.mk.injEq] at hx
  obtain ⟨hcommands, hone, htwo⟩ := hx
  have heq := h true v (htr.reachable (.init rfl)) "r" 1 2
    ⟨by rw [Vendor.runtimeOf, hcommands]; rfl, _, _, hone⟩
    ⟨by rw [Vendor.runtimeOf, hcommands]; rfl, _, _, htwo⟩
  cases heq

/-- In a run in which no command makes a lock for a runtime while another command of it waits for a
lock or executes its operation, at most one command at a time executes an operation on a runtime. -/
theorem operations_exclusive {respawnable : Bool} {tr : List (Vendor × Vendor.Label × Vendor)}
    {v : Vendor} (h : (vendorLink respawnable).Exec (.init respawnable) tr v)
    (hg : ∀ x ∈ tr, x.1.looksUpAlone x.2.1 = true) : v.Exclusive := by
  have hinv : v.Locked := h.guarded (G := fun v l => v.looksUpAlone l = true) (I := Vendor.Locked)
    (fun _ _ _ hr hv hl hs => hv.step (sound_of_reachable hr) hl hs) (.init rfl)
    (.init respawnable) hg
  exact hinv.exclusive

/-- A create that waits for a delete, and a get after both. -/
theorem operations_exclusive_waiting : ∃ tr v,
    (vendorLink true).Exec (.init true) tr v ∧
      v.phase 1 = .ended ∧ v.phase 2 = .executing 1 [] ∧ v.Exclusive := by
  have hrun : ((System.steps?
      (System.guarded? (fun v l => Vendor.looksUpAlone v l = true) Vendor.step?) (.init true)
      [.send (.delete "r"), .send (.create "r"), .read, .read, .lookup 0, .lookup 1, .acquire 0,
        .act 0 true, .retire 0, .release 0, .acquire 1, .act 1 true, .act 1 true, .release 1,
        .send (.get "r"), .read, .lookup 2, .acquire 2]).map fun v => (v.phase 1, v.phase 2)) =
      some (.ended, .executing 1 []) := by
    decide +kernel
  obtain ⟨v, hv, hx⟩ := Option.map_eq_some_iff.mp hrun
  obtain ⟨tr, htr, -, hall⟩ := System.exec_guarded? (Vendor.init true) hv
  obtain ⟨hone, htwo⟩ := Prod.mk.inj hx
  exact ⟨tr, v, htr, hone, htwo, operations_exclusive htr hall⟩

end Horsie.RuntimeHost
