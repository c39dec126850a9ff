import Mathlib.Data.List.Perm.Subperm

/-!
# Climbing links

Nodes with at most one link each, to the node above. Where every climb ends, the nodes passed on a
climb are told apart by what decides their links, so a climb is no longer than there are such keys
(`Climbs.length_le`): a walk that is given that many hops is never cut short. New nodes nobody links
to, and links that go, keep it so that every climb ends.
-/

namespace Horsie.Lib

variable {α κ : Type*} {up up' : α → Option α} {a b c : α} {m n : ℕ}

/-- `Climbs up n a b`: `n` links lead from `a` up to `b`. -/
inductive Climbs (up : α → Option α) : ℕ → α → α → Prop
  | refl (a : α) : Climbs up 0 a a
  | step {n : ℕ} {a b c : α} (h : up a = some b) (hc : Climbs up n b c) : Climbs up (n + 1) a c

def Ends (up : α → Option α) : Prop := ∀ a, Acc (fun b a => up a = some b) a

namespace Climbs

theorem single (h : up a = some b) : Climbs up 1 a b := .step h (.refl b)

theorem trans (h : Climbs up m a b) (h' : Climbs up n b c) : Climbs up (m + n) a c := by
  induction h with
  | refl => rwa [Nat.zero_add]
  | @step m a _ _ hlink _ ih =>
    rw [Nat.add_right_comm]
    exact .step hlink (ih h')

theorem snoc (h : Climbs up n a b) (hlink : up b = some c) : Climbs up (n + 1) a c :=
  h.trans (.single hlink)

theorem eq_of_zero (h : Climbs up 0 a b) : a = b := by
  cases h
  rfl

theorem head (h : Climbs up (n + 1) a c) : ∃ b, up a = some b ∧ Climbs up n b c := by
  cases h with
  | step hlink hc => exact ⟨_, hlink, hc⟩

theorem last (h : Climbs up (n + 1) a c) : ∃ b, Climbs up n a b ∧ up b = some c := by
  induction n generalizing a with
  | zero =>
    obtain ⟨b, hlink, hrest⟩ := h.head
    exact ⟨a, .refl a, hrest.eq_of_zero ▸ hlink⟩
  | succ n ih =>
    obtain ⟨d, hlink, hrest⟩ := h.head
    obtain ⟨b, hb, hlast⟩ := ih hrest
    exact ⟨b, .step hlink hb, hlast⟩

/-- A climb from a node without a link stays there. -/
theorem of_top (h : Climbs up n a b) (ha : up a = none) : n = 0 ∧ b = a := by
  cases h with
  | refl => exact ⟨rfl, rfl⟩
  | step hlink =>
    rw [ha] at hlink
    cases hlink

theorem mono (h : Climbs up n a b) (hup : ∀ x y, up x = some y → up' x = some y) :
    Climbs up' n a b := by
  induction h with
  | refl => exact .refl _
  | step hlink _ ih => exact .step (hup _ _ hlink) ih

/-- Climbs of any length are the reflexive and transitive closure of the links. -/
theorem exists_iff :
    (∃ n, Climbs up n a b) ↔ Relation.ReflTransGen (fun x y => up x = some y) a b := by
  constructor
  · rintro ⟨n, h⟩
    induction h with
    | refl => exact .refl
    | step hlink _ ih => exact .head hlink ih
  · intro h
    induction h with
    | refl => exact ⟨0, .refl a⟩
    | tail _ hlink ih =>
      obtain ⟨n, hn⟩ := ih
      exact ⟨n + 1, hn.snoc hlink⟩

end Climbs

namespace Ends

theorem not_circle (h : Ends up) : ¬ Climbs up (n + 1) a a := by
  induction h a generalizing n with
  | intro a _ ih =>
    intro hc
    obtain ⟨b, hlink, hrest⟩ := hc.head
    exact ih b hlink (hrest.snoc hlink)

theorem exists_top (h : Ends up) (a : α) : ∃ n t, Climbs up n a t ∧ up t = none := by
  induction h a with
  | intro a _ ih =>
    cases hlink : up a with
    | none => exact ⟨0, a, .refl a, hlink⟩
    | some b =>
      obtain ⟨n, t, hc, ht⟩ := ih b hlink
      exact ⟨n + 1, t, .step hlink hc, ht⟩

/-- Links that go leave every climb to end. -/
theorem mono (h : Ends up) (hup : ∀ x y, up' x = some y → up x = some y) : Ends up' :=
  fun a => Subrelation.accessible (fun {y x} hyx => hup x y hyx) (h a)

/-- A new node that nobody links to leaves every climb to end. -/
theorem inserted {x : α} (h : Ends up) (hx : ∀ a, up' a ≠ some x)
    (hup : ∀ a b, a ≠ x → up' a = some b → up a = some b) : Ends up' := by
  have hother : ∀ a, a ≠ x → Acc (fun b a => up' a = some b) a := by
    intro a hne
    induction h a with
    | intro a _ ih =>
      refine ⟨a, fun b hb => ih b (hup a b hne hb) ?_⟩
      rintro rfl
      exact hx a hb
  intro a
  refine ⟨a, fun b hb => hother b ?_⟩
  rintro rfl
  exact hx a hb

end Ends

/-! ## How long a climb is -/

/-- A node passed on a climb is told by its key from all nodes before it. -/
theorem Climbs.keys {key : α → κ} {keys : List κ} (hends : Ends up)
    (hkey : ∀ x y, key x = key y → up x = up y) (hmem : ∀ x y, up x = some y → key x ∈ keys)
    (h : Climbs up n a b) : ∃ passed : List κ, passed.length = n ∧ passed.Nodup ∧
      ∀ k ∈ passed, k ∈ keys ∧ ∃ x m, Climbs up m a x ∧ m < n ∧ key x = k := by
  induction h with
  | refl => exact ⟨[], rfl, List.nodup_nil, fun k hk => absurd hk List.not_mem_nil⟩
  | @step n a b c hlink hrest ih =>
    obtain ⟨passed, hlength, hnodup, hpassed⟩ := ih
    refine ⟨key a :: passed, congrArg (· + 1) hlength, List.nodup_cons.mpr ⟨?_, hnodup⟩, ?_⟩
    · -- a node further up with the same key would have the same node above it, again
      intro hk
      obtain ⟨-, x, m, hx, -, heq⟩ := hpassed _ hk
      exact hends.not_circle (hx.snoc ((hkey x a heq).trans hlink))
    · intro k hk
      rcases List.mem_cons.mp hk with rfl | hk
      · exact ⟨hmem a b hlink, a, 0, .refl a, Nat.succ_pos n, rfl⟩
      · obtain ⟨hin, x, m, hx, hlt, heq⟩ := hpassed k hk
        exact ⟨hin, x, m + 1, .step hlink hx, Nat.succ_lt_succ hlt, heq⟩

theorem Climbs.length_le (key : α → κ) {keys : List κ} (hends : Ends up)
    (hkey : ∀ x y, key x = key y → up x = up y) (hmem : ∀ x y, up x = some y → key x ∈ keys)
    (h : Climbs up n a b) : n ≤ keys.length := by
  obtain ⟨passed, rfl, hnodup, hpassed⟩ := h.keys hends hkey hmem
  exact (hnodup.subperm fun k hk => (hpassed k hk).1).length_le

end Horsie.Lib
