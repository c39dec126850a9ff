import Mathlib.Data.List.Basic
import Mathlib.Data.List.Induction

/-!
# Labelled transition systems

Reachability, executions that record every step, the induction rule for invariants, and the
guard rule `Exec.forall_iff`: when a good state steps to a good state exactly if the step meets a
guard, an execution stays good exactly if all its steps meet the guard. A step function gives a
system (`ofStep?`) whose executions can be computed.
-/

namespace Horsie.Lib

universe u v

structure System (S : Type u) (L : Type v) where
  Init : S → Prop
  /-- `Step s l t`: the step `l` leads from `s` to `t`. -/
  Step : S → L → S → Prop

namespace System

variable {S : Type u} {L : Type v} (M : System S L)

/-- The states some execution from an initial state reaches. -/
inductive Reachable : S → Prop
  | init {s : S} (h : M.Init s) : Reachable s
  | step {s : S} {l : L} {t : S} (hs : Reachable s) (h : M.Step s l t) : Reachable t

/-- `M.Exec s tr t`: the steps `tr`, each with the states before and after it, lead from `s`
to `t`. -/
inductive Exec (s : S) : List (S × L × S) → S → Prop
  | nil : Exec s [] s
  | snoc {tr : List (S × L × S)} {t : S} {l : L} {u : S} (h : Exec s tr t) (hs : M.Step t l u) :
      Exec s (tr ++ [(t, l, u)]) u

variable {M}

variable {I : S → Prop} {s : S}

theorem Reachable.invariant (h0 : ∀ s, M.Init s → I s)
    (hstep : ∀ s l t, M.Reachable s → I s → M.Step s l t → I t) (hs : M.Reachable s) :
    I s := by
  induction hs with
  | init h => exact h0 _ h
  | step hs h ih => exact hstep _ _ _ hs ih h

variable {t : S} {tr : List (S × L × S)}

theorem Exec.reachable (h : M.Exec s tr t)
    (hs : M.Reachable s) : M.Reachable t := by
  induction h with
  | nil => exact hs
  | snoc _ hstep ih => exact .step ih hstep

theorem Exec.single {l : L} (h : M.Step s l t) : M.Exec s [(s, l, t)] t :=
  .snoc .nil h

theorem Exec.trans {u : S} {tr' : List (S × L × S)} (h : M.Exec s tr t)
    (h' : M.Exec t tr' u) : M.Exec s (tr ++ tr') u := by
  induction h' with
  | nil => rwa [List.append_nil]
  | snoc _ hs ih =>
    rw [← List.append_assoc]
    exact .snoc ih hs

/-- A state an execution leaves: every step of an execution is taken from a state the part of the
execution before it reaches. -/
theorem Exec.step_mem (h : M.Exec s tr t) (hs : M.Reachable s) :
    ∀ x ∈ tr, M.Reachable x.1 ∧ M.Step x.1 x.2.1 x.2.2 := by
  induction h with
  | nil => simp
  | snoc h hstep ih =>
    intro x hx
    rcases List.mem_append.mp hx with hx | hx
    · exact ih x hx
    · obtain rfl := List.mem_singleton.mp hx
      exact ⟨h.reachable hs, hstep⟩

variable {x : S × L × S}

theorem Exec.before (h : M.Exec s tr t)
    (hx : x ∈ tr) : ∃ pre, M.Exec s pre x.1 ∧ (∀ y ∈ pre, y ∈ tr) ∧ M.Step x.1 x.2.1 x.2.2 := by
  induction h with
  | nil => cases hx
  | @snoc tr t l u h hstep ih =>
    rcases List.mem_append.mp hx with hx | hx
    · obtain ⟨pre, hpre, hmem, hs⟩ := ih hx
      exact ⟨pre, hpre, fun y hy => List.mem_append_left _ (hmem y hy), hs⟩
    · obtain rfl := List.mem_singleton.mp hx
      exact ⟨tr, h, fun y hy => List.mem_append_left _ hy, hstep⟩

theorem Exec.snoc_inv
    (h : M.Exec s (tr ++ [x]) t) : M.Exec s tr x.1 ∧ M.Step x.1 x.2.1 x.2.2 ∧ x.2.2 = t := by
  generalize htr : tr ++ [x] = tr' at h
  cases h with
  | nil => simp at htr
  | snoc h hs =>
    obtain ⟨rfl, hx⟩ := List.append_inj' htr rfl
    obtain rfl := List.singleton_inj.mp hx
    exact ⟨h, hs, rfl⟩

theorem Exec.split {pre post : List (S × L × S)}
    (h : M.Exec s (pre ++ x :: post) t) :
    M.Exec s pre x.1 ∧ M.Step x.1 x.2.1 x.2.2 ∧ M.Exec x.2.2 post t := by
  induction post using List.reverseRecOn generalizing t with
  | nil =>
    obtain ⟨hpre, hstep, rfl⟩ := h.snoc_inv
    exact ⟨hpre, hstep, .nil⟩
  | append_singleton post y ih =>
    rw [← List.cons_append, ← List.append_assoc] at h
    obtain ⟨hinit, hstep, rfl⟩ := h.snoc_inv
    obtain ⟨hpre, hx, hpost⟩ := ih hinit
    exact ⟨hpre, hx, .snoc hpost hstep⟩

variable {P : S → Prop}

/-- What holds of the first state and after every step holds of the last state. -/
theorem Exec.last (h : M.Exec s tr t)
    (h0 : P s) (hP : ∀ x ∈ tr, P x.2.2) : P t := by
  cases h with
  | nil => exact h0
  | snoc => exact hP _ (List.mem_append_right _ (List.mem_singleton_self _))

variable {G : S → L → Prop}

/-- An invariant that every guarded step preserves holds after every execution whose steps all
meet the guard. -/
theorem Exec.guarded
    (hstep : ∀ s l t, M.Reachable s → I s → G s l → M.Step s l t → I t) (h : M.Exec s tr t)
    (hs : M.Reachable s) (h0 : I s)
    (hg : ∀ x ∈ tr, G x.1 x.2.1) : I t := by
  induction h with
  | nil => exact h0
  | snoc h hs' ih =>
    simp only [List.forall_mem_append, List.forall_mem_singleton] at hg
    exact hstep _ _ _ (h.reachable hs) (ih hg.1) hg.2 hs'

/-- Every step of such an execution is taken where the invariant holds. -/
theorem Exec.guarded_mem
    (hstep : ∀ s l t, M.Reachable s → I s → G s l → M.Step s l t → I t) (h : M.Exec s tr t)
    (hs : M.Reachable s) (h0 : I s)
    (hg : ∀ x ∈ tr, G x.1 x.2.1) (hx : x ∈ tr) :
    I x.1 ∧ M.Step x.1 x.2.1 x.2.2 := by
  obtain ⟨pre, hpre, hmem, hxstep⟩ := h.before hx
  exact ⟨hpre.guarded hstep hs h0 fun y hy => hg y (hmem y hy), hxstep⟩

/-- The guard rule for steps: if a step from a good state is right exactly when it meets `G`, and
a right step from a good state leads to a good state, then all steps of an execution are right
exactly when all meet `G`. -/
theorem Exec.right_iff {Q : S → L → S → Prop}
    (hgood : ∀ s l t, M.Reachable s → P s → M.Step s l t → Q s l t → P t)
    (hstep : ∀ s l t, M.Reachable s → P s → M.Step s l t → (Q s l t ↔ G s l)) (h : M.Exec s tr t)
    (hs : M.Reachable s) (h0 : P s) :
    (∀ x ∈ tr, Q x.1 x.2.1 x.2.2) ↔ ∀ x ∈ tr, G x.1 x.2.1 := by
  have hboth : ((∀ x ∈ tr, Q x.1 x.2.1 x.2.2) ↔ ∀ x ∈ tr, G x.1 x.2.1) ∧
      ((∀ x ∈ tr, Q x.1 x.2.1 x.2.2) → P t) := by
    induction h with
    | nil => exact ⟨by simp, fun _ => h0⟩
    | @snoc tr t l u h hs' ih =>
      obtain ⟨hiff, hlast⟩ := ih
      simp only [List.forall_mem_append, List.forall_mem_singleton]
      have hreach := h.reachable hs
      refine ⟨⟨?_, ?_⟩, ?_⟩
      · rintro ⟨hQ, hu⟩
        exact ⟨hiff.mp hQ, (hstep _ _ _ hreach (hlast hQ) hs').mp hu⟩
      · rintro ⟨hG, hg⟩
        have hQ := hiff.mpr hG
        exact ⟨hQ, (hstep _ _ _ hreach (hlast hQ) hs').mpr hg⟩
      · rintro ⟨hQ, hu⟩
        exact hgood _ _ _ hreach (hlast hQ) hs' hu
  exact hboth.1

/-- The guard rule for steps that are right only if they lead to a good state. -/
theorem Exec.steps_iff {Q : S → L → S → Prop}
    (hgood : ∀ s l t, Q s l t → P t)
    (hstep : ∀ s l t, M.Reachable s → P s → M.Step s l t → (Q s l t ↔ G s l)) (h : M.Exec s tr t)
    (hs : M.Reachable s) (h0 : P s) :
    (∀ x ∈ tr, Q x.1 x.2.1 x.2.2) ↔ ∀ x ∈ tr, G x.1 x.2.1 :=
  h.right_iff (fun s l t _ _ _ hq => hgood s l t hq) hstep hs h0

/-- The guard rule: if a step from a good state leads to a good state exactly when it meets `G`,
then all states of an execution are good exactly when all its steps meet `G`. -/
theorem Exec.forall_iff
    (hstep : ∀ s l t, M.Reachable s → P s → M.Step s l t → (P t ↔ G s l)) (h : M.Exec s tr t)
    (hs : M.Reachable s) (h0 : P s) :
    (∀ x ∈ tr, P x.2.2) ↔ ∀ x ∈ tr, G x.1 x.2.1 :=
  h.steps_iff (Q := fun _ _ u => P u) (fun _ _ _ hP => hP) hstep hs h0

/-! ## Fewer steps -/

section

variable {G : S → L → Prop}

variable (M) in
/-- The system with only the steps that meet `G`. -/
def restrict (G : S → L → Prop) : System S L where
  Init := M.Init
  Step s l t := M.Step s l t ∧ G s l

theorem Reachable.unrestrict {s : S} (h : (M.restrict G).Reachable s) : M.Reachable s := by
  induction h with
  | init h => exact .init h
  | step _ h ih => exact ih.step h.1

end

/-! ## History variables -/

section

variable {H : Type*} (record : S → L → S → H → H) (h0 : H)

variable (M) in
/-- The system with a variable that records what it did and changes nothing. -/
def withHistory : System (S × H) L where
  Init x := M.Init x.1 ∧ x.2 = h0
  Step x l y := M.Step x.1 l y.1 ∧ y.2 = record x.1 l y.1 x.2

variable {record h0}

theorem Reachable.fst {x : S × H} (h : (M.withHistory record h0).Reachable x) :
    M.Reachable x.1 := by
  induction h with
  | init h => exact .init h.1
  | step _ h ih => exact ih.step h.1

def recordStep? (record : S → L → S → H → H) (step? : S → L → Option S) (x : S × H) (l : L) :
    Option (S × H) := (step? x.1 l).map fun t => (t, record x.1 l t x.2)

end

/-! ## Step functions -/

def ofStep? (init : S) (step? : S → L → Option S) : System S L where
  Init s := s = init
  Step s l t := step? s l = some t

def steps? (step? : S → L → Option S) : S → List L → Option S
  | s, [] => some s
  | s, l :: ls => (step? s l).bind (steps? step? · ls)

variable {ls : List L} {step? : S → L → Option S}

theorem steps?_append {ls' : List L} :
    steps? step? s (ls ++ ls') = (steps? step? s ls).bind (steps? step? · ls') := by
  induction ls generalizing s with
  | nil => rfl
  | cons l ls ih =>
    simp only [List.cons_append, steps?]
    cases step? s l with
    | none => rfl
    | some t => exact ih

theorem exec_of_steps?
    (hsound : ∀ s l t, step? s l = some t → M.Step s l t)
    (h : steps? step? s ls = some t) : ∃ tr, M.Exec s tr t ∧ tr.map (·.2.1) = ls := by
  induction ls generalizing s with
  | nil => exact Option.some.inj h ▸ ⟨[], .nil, rfl⟩
  | cons l ls ih =>
    obtain ⟨u, hu, h⟩ := Option.bind_eq_some_iff.mp h
    obtain ⟨tr, htr, hls⟩ := ih h
    exact ⟨_, (Exec.single (hsound _ _ _ hu)).trans htr, by simp [hls]⟩

theorem exec_steps? (init : S)
    (h : steps? step? s ls = some t) :
    ∃ tr, (ofStep? init step?).Exec s tr t ∧ tr.map (·.2.1) = ls :=
  exec_of_steps? (fun _ _ _ h => h) h

theorem recordStep?_sound {H : Type*} {record : S → L → S → H → H} (h0 : H)
    (hsound : ∀ s l t, step? s l = some t → M.Step s l t) (x : S × H)
    (l : L) (y : S × H) (h : recordStep? record step? x l = some y) :
    (M.withHistory record h0).Step x l y := by
  obtain ⟨t, ht, rfl⟩ := Option.map_eq_some_iff.mp h
  exact ⟨hsound _ _ _ ht, rfl⟩

/-- A step function that takes only the steps that meet `G`. -/
def guarded? (G : S → L → Prop) [∀ s l, Decidable (G s l)] (step? : S → L → Option S) (s : S)
    (l : L) : Option S := if G s l then step? s l else none

/-- Guarded steps that can be taken, of labels that meet `P`, make an execution whose steps all
meet the guard. -/
theorem exec_of_guarded?_of_labels {P : L → Prop} [∀ s l, Decidable (G s l)]
    (hsound : ∀ s l t, P l → G s l → step? s l = some t → M.Step s l t) (hP : ∀ l ∈ ls, P l)
    (h : steps? (guarded? G step?) s ls = some t) :
    ∃ tr, M.Exec s tr t ∧ tr.map (·.2.1) = ls ∧ ∀ x ∈ tr, G x.1 x.2.1 := by
  induction ls generalizing s with
  | nil => exact Option.some.inj h ▸ ⟨[], .nil, rfl, fun x hx => absurd hx List.not_mem_nil⟩
  | cons l ls ih =>
    obtain ⟨hl, hP⟩ := List.forall_mem_cons.mp hP
    obtain ⟨u, hu, h⟩ := Option.bind_eq_some_iff.mp h
    obtain ⟨hg, hu⟩ := Option.ite_none_right_eq_some.mp hu
    obtain ⟨tr, htr, hls, hall⟩ := ih hP h
    exact ⟨_, (Exec.single (hsound _ _ _ hl hg hu)).trans htr, by simp [hls],
      List.forall_mem_cons.mpr ⟨hg, hall⟩⟩

theorem exec_of_guarded? [∀ s l, Decidable (G s l)]
    (hsound : ∀ s l t, G s l → step? s l = some t → M.Step s l t)
    (h : steps? (guarded? G step?) s ls = some t) :
    ∃ tr, M.Exec s tr t ∧ tr.map (·.2.1) = ls ∧ ∀ x ∈ tr, G x.1 x.2.1 :=
  exec_of_guarded?_of_labels (P := fun _ => True) (fun s l t _ => hsound s l t)
    (fun _ _ => trivial) h

theorem exec_guarded? [∀ s l, Decidable (G s l)] (init : S)
    (h : steps? (guarded? G step?) s ls = some t) :
    ∃ tr, (ofStep? init step?).Exec s tr t ∧ tr.map (·.2.1) = ls ∧ ∀ x ∈ tr, G x.1 x.2.1 :=
  exec_of_guarded? (fun _ _ _ _ h => h) h

end System

end Horsie.Lib
