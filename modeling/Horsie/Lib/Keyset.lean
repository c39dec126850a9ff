import Mathlib.Data.List.Sort

/-!
# Keyset pagination

`WHERE key > cursor ORDER BY key LIMIT n` over a table: the rows above a cursor in the order of
their keys, and the first of them. A row a page leaves out lies at or past everything on the page,
and a page that is not full leaves nothing out.
-/

namespace Horsie.Lib

universe u

variable {α : Type u} (key : α → ℕ) (rows : List α)

def above (cursor : ℕ) : List α :=
  (rows.filter (cursor < key ·)).mergeSort (key · ≤ key ·)

/-- The first `limit` rows above a cursor. -/
def page (cursor limit : ℕ) : List α := (above key rows cursor).take limit

variable {key rows} {cursor limit : ℕ} {x y : α}

@[simp] theorem mem_above : x ∈ above key rows cursor ↔ x ∈ rows ∧ cursor < key x := by
  rw [above, List.mem_mergeSort, List.mem_filter, decide_eq_true_eq]

theorem above_sorted : (above key rows cursor).Pairwise (key · ≤ key ·) := by
  have h := @List.pairwise_mergeSort α (fun a b => decide (key a ≤ key b))
    (fun a b c hab hbc => decide_eq_true ((of_decide_eq_true hab).trans (of_decide_eq_true hbc)))
    (fun a b => by
      rcases Nat.le_total (key a) (key b) with h | h
      · simp [h]
      · simp [h]) (rows.filter (cursor < key ·))
  exact h.imp of_decide_eq_true

/-- Rows already in the order of their keys are read in the order they are in. -/
theorem above_of_sorted (h : rows.Pairwise (key · ≤ key ·)) :
    above key rows cursor = rows.filter (cursor < key ·) :=
  List.mergeSort_of_pairwise ((h.sublist List.filter_sublist).imp decide_eq_true)

theorem mem_of_mem_page (h : x ∈ page key rows cursor limit) : x ∈ rows ∧ cursor < key x :=
  mem_above.mp (List.mem_of_mem_take h)

theorem above_eq_page (h : (page key rows cursor limit).length < limit) :
    above key rows cursor = page key rows cursor limit := by
  rw [page, List.length_take] at h
  rw [page, List.take_of_length_le (by omega)]

theorem mem_page_of_length_lt (h : (page key rows cursor limit).length < limit) (hx : x ∈ rows)
    (hc : cursor < key x) : x ∈ page key rows cursor limit := by
  rw [← above_eq_page h]
  exact mem_above.mpr ⟨hx, hc⟩

theorem le_of_notMem_page (hx : x ∈ rows) (hc : cursor < key x)
    (hout : x ∉ page key rows cursor limit) (hy : y ∈ page key rows cursor limit) :
    key y ≤ key x := by
  have hmem : x ∈ (above key rows cursor).take limit ++ (above key rows cursor).drop limit := by
    rw [List.take_append_drop]
    exact mem_above.mpr ⟨hx, hc⟩
  have hdrop := (List.mem_append.mp hmem).resolve_left hout
  have hsorted : ((above key rows cursor).take limit ++
      (above key rows cursor).drop limit).Pairwise (key · ≤ key ·) := by
    rw [List.take_append_drop]
    exact above_sorted
  exact (List.pairwise_append.mp hsorted).2.2 y hy x hdrop

/-! ## Page after page -/

variable (key) in
/-- The cursor after a page: the largest key on it, or where it was. -/
def advance (cursor : ℕ) (rows : List α) : ℕ := rows.foldl (fun c x => max c (key x)) cursor

theorem le_advance : cursor ≤ advance key cursor rows := by
  unfold advance
  induction rows generalizing cursor with
  | nil => exact le_rfl
  | cons y rows ih => exact (le_max_left _ _).trans ih

theorem key_le_advance (hx : x ∈ rows) : key x ≤ advance key cursor rows := by
  induction rows generalizing cursor with
  | nil => cases hx
  | cons y rows ih =>
    rcases List.mem_cons.mp hx with rfl | hx
    · exact (le_max_right cursor _).trans (le_advance)
    · exact ih hx

theorem advance_mem : advance key cursor rows = cursor ∨
    ∃ y ∈ rows, key y = advance key cursor rows := by
  induction rows generalizing cursor with
  | nil => exact .inl rfl
  | cons y rows ih =>
    show advance key (max cursor (key y)) rows = cursor ∨
      ∃ z ∈ y :: rows, key z = advance key (max cursor (key y)) rows
    rcases ih with h | ⟨z, hz, h⟩
    · rcases Nat.le_total cursor (key y) with hle | hle
      · exact .inr ⟨y, List.mem_cons_self, by rw [h, max_eq_right hle]⟩
      · exact .inl (by rw [h, max_eq_left hle])
    · exact .inr ⟨z, List.mem_cons_of_mem _ hz, h⟩

theorem above_eq_page_append (h : rows.Pairwise (key · < key ·)) :
    above key rows cursor = page key rows cursor limit ++
      above key rows (advance key cursor (page key rows cursor limit)) := by
  have hle : rows.Pairwise (key · ≤ key ·) := h.imp Nat.le_of_lt
  have habove : above key rows cursor = rows.filter (cursor < key ·) := above_of_sorted hle
  rw [@above_of_sorted _ key rows (advance key cursor (page key rows cursor limit)) hle]
  have hsplit : rows.filter (cursor < key ·) = page key rows cursor limit ++
      (above key rows cursor).drop limit := by
    rw [← habove, page, List.take_append_drop]
  have hlt : (page key rows cursor limit ++
      (above key rows cursor).drop limit).Pairwise (key · < key ·) := by
    rw [← hsplit]
    exact h.sublist List.filter_sublist
  -- what the advanced cursor admits was above the cursor already
  have hrest : rows.filter (advance key cursor (page key rows cursor limit) < key ·) =
      (rows.filter (cursor < key ·)).filter
        (advance key cursor (page key rows cursor limit) < key ·) := by
    rw [List.filter_filter]
    refine List.filter_congr fun x _ => ?_
    have hc : cursor ≤ advance key cursor (page key rows cursor limit) := le_advance
    rw [← Bool.decide_and]
    exact decide_eq_decide.mpr ⟨fun h => ⟨h, hc.trans_lt h⟩, And.left⟩
  have hfirst : (page key rows cursor limit).filter
      (advance key cursor (page key rows cursor limit) < key ·) = [] := by
    rw [List.filter_eq_nil_iff]
    intro x hx hdec
    exact absurd (of_decide_eq_true hdec) (Nat.not_lt.mpr (key_le_advance hx))
  have hlast : ((above key rows cursor).drop limit).filter
      (advance key cursor (page key rows cursor limit) < key ·) =
        (above key rows cursor).drop limit := by
    rw [List.filter_eq_self]
    intro x hx
    refine decide_eq_true ?_
    rcases advance_mem
      with hc | ⟨y, hy, hc⟩
    · rw [hc]
      exact (mem_above.mp (List.mem_of_mem_drop hx)).2
    · rw [← hc]
      exact (List.pairwise_append.mp hlt).2.2 y hy x hx
  calc above key rows cursor
      _ = page key rows cursor limit ++ (above key rows cursor).drop limit := by
        rw [page, List.take_append_drop]
      _ = _ := by rw [hrest, hsplit, List.filter_append, hfirst, hlast, List.nil_append]

theorem eq_of_key_eq (h : rows.Pairwise (key · < key ·)) (hx : x ∈ rows) (hy : y ∈ rows)
    (hxy : key x = key y) : x = y := by
  have hnodup : (rows.map key).Nodup := (List.pairwise_map.mpr h).imp Nat.ne_of_lt
  exact List.inj_on_of_nodup_map hnodup hx hy hxy

theorem page_strictlySorted (h : rows.Pairwise (key · < key ·)) :
    (page key rows cursor limit).Pairwise (key · < key ·) := by
  rw [page, above_of_sorted (h.imp Nat.le_of_lt)]
  exact (h.sublist List.filter_sublist).sublist (List.take_sublist _ _)

/-- With keys that are not repeated, the cursor after a page stays below what the page left out. -/
theorem advance_lt_of_notMem_page (h : rows.Pairwise (key · < key ·)) (hx : x ∈ rows)
    (hc : cursor < key x) (hout : x ∉ page key rows cursor limit) :
    advance key cursor (page key rows cursor limit) < key x := by
  rcases advance_mem
    with heq | ⟨y, hy, heq⟩
  · rw [heq]
    exact hc
  · rw [← heq]
    refine lt_of_le_of_ne (le_of_notMem_page hx hc hout hy) fun hxy => hout ?_
    rw [eq_of_key_eq h hx (mem_of_mem_page hy).1 hxy.symm]
    exact hy

end Horsie.Lib
