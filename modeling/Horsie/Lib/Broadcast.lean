import Mathlib.Data.List.Basic

/-!
# Bounded broadcast channels

Every receiver of a channel has its own position in what was sent. The channel holds the last
frames only: a receiver whose next frame is gone is told that it has lagged, and goes on from the
oldest frame there is.
-/

namespace Horsie.Lib

/-- What a channel still holds after `n` frames were sent: those from `oldest n` on, which are
`capacity` at least. -/
structure Broadcast (capacity : ℕ) where
  oldest : ℕ → ℕ
  oldest_le : ∀ n, oldest n ≤ n - capacity

namespace Broadcast

inductive RecvError
  | closed
  | lagged
deriving DecidableEq

/-- The channel that holds no more than its capacity. -/
def tight (capacity : ℕ) : Broadcast capacity where
  oldest n := n - capacity
  oldest_le _ := Nat.le_refl _

variable {α : Type*} {capacity : ℕ} (c : Broadcast capacity)

/-- What a receiver gets and where it is then; nothing while it has to wait. -/
def recv (sent : List α) (isOpen : Bool) (next : ℕ) : Option (Except RecvError α × ℕ) :=
  match sent[next]? with
  | some frame =>
    if c.oldest sent.length ≤ next then some (.ok frame, next + 1)
    else some (.error .lagged, c.oldest sent.length)
  | none => if isOpen then none else some (.error .closed, next)

variable {c}

variable {isOpen : Bool} {next next' : ℕ} {sent : List α}

theorem recv_ok {frame : α}
    (h : c.recv sent isOpen next = some (.ok frame, next')) :
    sent[next]? = some frame ∧ c.oldest sent.length ≤ next ∧ next' = next + 1 := by
  unfold recv at h
  split at h
  · rename_i hget
    split_ifs at h with hle
    · obtain ⟨hframe, rfl⟩ := Prod.mk.inj (Option.some.inj h)
      exact ⟨Except.ok.inj hframe ▸ hget, hle, rfl⟩
    · cases h
  · split_ifs at h
    cases h

/-- A receiver of an open channel gets an error only if it has lagged. -/
theorem recv_error {e : RecvError}
    (h : c.recv sent true next = some (.error e, next')) :
    ¬ c.oldest sent.length ≤ next := by
  unfold recv at h
  split at h
  · split_ifs at h with hle
    · cases h
    · exact hle
  · cases h

/-- A receiver goes forward, and not beyond what was sent. -/
theorem recv_next {r : Except RecvError α}
    (h : c.recv sent isOpen next = some (r, next')) (hle : next ≤ sent.length) :
    next ≤ next' ∧ next' ≤ sent.length := by
  unfold recv at h
  split at h
  · rename_i hget
    obtain ⟨hlt, -⟩ := List.getElem?_eq_some_iff.mp hget
    have hold := c.oldest_le sent.length
    split_ifs at h with hheld <;> obtain ⟨-, rfl⟩ := Prod.mk.inj (Option.some.inj h) <;> omega
  · split_ifs at h
    cases h
    exact ⟨Nat.le_refl _, hle⟩

/-- What a receiver has got is part of what was sent between its start and its position, in that
order. -/
theorem recv_sublist {received : List α} {start : ℕ}
    {r : Except RecvError α} (hs : received.Sublist ((sent.take next).drop start))
    (hstart : start ≤ next) (hle : next ≤ sent.length)
    (h : c.recv sent isOpen next = some (r, next')) :
    (received ++ r.toOption.toList).Sublist ((sent.take next').drop start) := by
  cases r with
  | ok frame =>
    obtain ⟨hget, -, rfl⟩ := recv_ok h
    rw [List.take_add_one, hget, List.drop_append_of_le_length (by simp [hle, hstart])]
    exact hs.append (List.Sublist.refl _)
  | error e =>
    show (received ++ []).Sublist _
    rw [List.append_nil]
    exact hs.trans ((List.take_sublist_take_left (recv_next h hle).1).drop start)

end Broadcast

end Horsie.Lib
