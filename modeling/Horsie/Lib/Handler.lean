import Mathlib.Data.List.Basic

/-!
# Handlers that may fail

A handler runs on a state and ends with a result or with an error; an error undoes nothing. What
holds at both ends is composed here as the handler is.
-/

namespace Horsie.Lib

universe u

variable {ε σ α β : Type u}

/-- Run where `P` holds, `m` ends with `Q` of its result or with `E` of its error. -/
def Meets (P : σ → Prop) (m : EStateM ε σ α) (Q : α → σ → Prop) (E : ε → σ → Prop) : Prop :=
  ∀ s, P s → (∀ a s', m s = .ok a s' → Q a s') ∧ ∀ e s', m s = .error e s' → E e s'

section

variable {m : EStateM ε σ α} {f : α → EStateM ε σ β} {s s' : σ}

theorem bind_ok {a : α} (h : m s = .ok a s') : (m >>= f) s = f a s' := by
  show EStateM.bind m f s = _
  unfold EStateM.bind
  rw [h]

theorem bind_error {e : ε} (h : m s = .error e s') : (m >>= f) s = .error e s' := by
  show EStateM.bind m f s = _
  unfold EStateM.bind
  rw [h]

end

namespace Meets

variable {P P' : σ → Prop} {Q Q' : α → σ → Prop} {R : β → σ → Prop} {E E' : ε → σ → Prop}
  {m : EStateM ε σ α}

protected theorem pure {a : α} (h : ∀ s, P s → Q a s) :
    Meets P (Pure.pure a : EStateM ε σ α) Q E := by
  intro s hs
  refine ⟨fun b s' hb => ?_, fun e s' he => (by cases he)⟩
  cases hb
  exact h _ hs

protected theorem throw {e : ε} (h : ∀ s, P s → E e s) :
    Meets P (throw e : EStateM ε σ α) Q E := by
  intro s hs
  refine ⟨fun b s' hb => (by cases hb), fun e' s' he => ?_⟩
  cases he
  exact h _ hs

protected theorem bind {f : α → EStateM ε σ β} (hm : Meets P m Q E)
    (hf : ∀ a, Meets (Q a) (f a) R E) : Meets P (m >>= f) R E := by
  intro s hs
  obtain ⟨hok, herror⟩ := hm s hs
  show (∀ b s', EStateM.bind m f s = .ok b s' → _) ∧ ∀ e s', EStateM.bind m f s = .error e s' → _
  unfold EStateM.bind
  cases hr : m s with
  | ok a t => exact hf a t (hok a t hr)
  | error e t =>
    refine ⟨fun b s' hb => (by cases hb), fun e' s' he => ?_⟩
    cases he
    exact herror _ _ hr

theorem mono (h : Meets P m Q E) (hP : ∀ s, P' s → P s) (hQ : ∀ a s, Q a s → Q' a s)
    (hE : ∀ e s, E e s → E' e s) : Meets P' m Q' E' := fun s hs =>
  ⟨fun a s' ha => hQ a s' ((h s (hP s hs)).1 a s' ha),
    fun e s' he => hE e s' ((h s (hP s hs)).2 e s' he)⟩

/-- A loop, by what holds once a part of the list has been gone through. -/
theorem forM {ι : Type u} {f : ι → EStateM ε σ PUnit} (I : List ι → σ → Prop) {l : List ι}
    (h : ∀ pre i post, l = pre ++ i :: post → Meets (I pre) (f i) (fun _ => I (pre ++ [i])) E) :
    Meets (I []) (l.forM f) (fun _ => I l) E := by
  suffices hgo : ∀ post pre, l = pre ++ post → Meets (I pre) (post.forM f) (fun _ => I l) E from
    hgo l [] rfl
  intro post
  induction post with
  | nil =>
    intro pre hl
    rw [List.append_nil] at hl
    subst hl
    exact .pure fun _ hs => hs
  | cons i post ih =>
    intro pre hl
    exact (h pre i post hl).bind fun _ => ih (pre ++ [i]) (by rw [hl, List.append_assoc]; rfl)

end Meets

end Horsie.Lib
