import Mathlib.Data.List.Basic

/-!
# Walking over pages

A reader reads a page, goes on from where the page says, and stops at a page that says nothing. It
comes to an end if there is ever less to read, and has read what there was if every page and what is
left after it are what was left before.
-/

namespace Horsie.Lib

universe u v

variable {σ : Type u} {α : Type v} {read : σ → List α} {next : List α → Option σ}

inductive Walk (read : σ → List α) (next : List α → Option σ) : σ → List (List α) → Prop
  | stop {s : σ} (h : next (read s) = none) : Walk read next s []
  | more {s t : σ} {pages : List (List α)} (h : next (read s) = some t)
      (rest : Walk read next t pages) : Walk read next s (read s :: pages)

namespace Walk

variable {P : σ → Prop} {s : σ} {pages : List (List α)}

/-- A walk on which there is ever less to read comes to an end. -/
theorem exists_of_lt (left : σ → ℕ)
    (h : ∀ s t, P s → next (read s) = some t → P t ∧ left t < left s) (hs : P s) :
    ∃ pages, Walk read next s pages := by
  induction hn : left s using Nat.strongRecOn generalizing s with
  | _ n ih =>
    cases hnext : next (read s) with
    | none => exact ⟨[], .stop hnext⟩
    | some t =>
      obtain ⟨ht, hlt⟩ := h s t hs hnext
      obtain ⟨pages, hpages⟩ := ih (left t) (hn ▸ hlt) ht rfl
      exact ⟨_, .more hnext hpages⟩

/-- What is read in order. -/
theorem flatten_eq {r : σ → List α}
    (hstop : ∀ s, P s → next (read s) = none → r s = [])
    (hmore : ∀ s t, P s → next (read s) = some t → P t ∧ r s = read s ++ r t)
    (h : Walk read next s pages) (hs : P s) : pages.flatten = r s := by
  induction h with
  | stop hnext => exact (hstop _ hs hnext).symm
  | more hnext _ ih =>
    obtain ⟨ht, heq⟩ := hmore _ _ hs hnext
    rw [List.flatten_cons, ih ht, heq]

/-- What is read backwards, each page in order. -/
theorem reverse_flatten_eq {r : σ → List α}
    (hstop : ∀ s, P s → next (read s) = none → r s = [])
    (hmore : ∀ s t, P s → next (read s) = some t → P t ∧ r s = r t ++ read s)
    (h : Walk read next s pages) (hs : P s) : pages.reverse.flatten = r s := by
  induction h with
  | stop hnext => exact (hstop _ hs hnext).symm
  | more hnext _ ih =>
    obtain ⟨ht, heq⟩ := hmore _ _ hs hnext
    rw [List.reverse_cons, List.flatten_append, ih ht, heq, List.flatten_cons, List.flatten_nil,
      List.append_nil]

end Walk

/-! ## Cutting a sorted list at one of its entries -/

variable {key : α → ℕ} {p q : List α} {a : α}

theorem filter_lt_of_sorted (h : (p ++ a :: q).Pairwise (key · < key ·)) :
    (p ++ a :: q).filter (fun x => decide (key x < key a)) = p := by
  obtain ⟨-, hq, hpq⟩ := List.pairwise_append.mp h
  have hp : p.filter (fun x => decide (key x < key a)) = p :=
    List.filter_eq_self.mpr fun x hx => decide_eq_true (hpq x hx a List.mem_cons_self)
  have hnone : (a :: q).filter (fun x => decide (key x < key a)) = [] := by
    refine List.filter_eq_nil_iff.mpr fun x hx hlt => ?_
    have hlt := of_decide_eq_true hlt
    rcases List.mem_cons.mp hx with rfl | hx
    · exact absurd hlt (Nat.lt_irrefl _)
    · exact absurd hlt (Nat.lt_asymm ((List.pairwise_cons.mp hq).1 x hx))
  rw [List.filter_append, hp, hnone, List.append_nil]

theorem filter_gt_of_sorted (h : (p ++ a :: q).Pairwise (key · < key ·)) :
    (p ++ a :: q).filter (fun x => decide (key a < key x)) = q := by
  obtain ⟨-, hq, hpq⟩ := List.pairwise_append.mp h
  have hnone : p.filter (fun x => decide (key a < key x)) = [] := by
    refine List.filter_eq_nil_iff.mpr fun x hx hlt => ?_
    exact absurd (of_decide_eq_true hlt) (Nat.lt_asymm (hpq x hx a List.mem_cons_self))
  have hall : q.filter (fun x => decide (key a < key x)) = q :=
    List.filter_eq_self.mpr fun x hx => decide_eq_true ((List.pairwise_cons.mp hq).1 x hx)
  rw [List.filter_append, hnone, List.nil_append,
    List.filter_cons_of_neg (by simp), hall]

end Horsie.Lib
