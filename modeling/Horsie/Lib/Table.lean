import Mathlib.Data.List.Nodup

/-!
# Tables with unique columns

The rows of a table, no two with the same value in a unique column: `INSERT` fails where a value is
taken, `UPDATE … WHERE` and `DELETE … WHERE` keep what is unique. An update leaves the unique
columns alone.
-/

namespace Horsie.Lib

universe u v

/-- Rows without a repeated value in any of the columns `keys`. -/
structure Table (R : Type u) (K : Type v) (keys : List (R → K)) where
  rows : List R
  unique : ∀ key ∈ keys, (rows.map key).Nodup

namespace Table

variable {R : Type u} {K : Type v} {keys : List (R → K)}

def empty : Table R K keys where
  rows := []
  unique _ _ := List.nodup_nil

/-- A row changed where `p` holds of it. -/
def change (p : R → Bool) (f : R → R) (row : R) : R := if p row then f row else row

theorem key_change {p : R → Bool} {f : R → R} {key : R → K} (hf : ∀ r, key (f r) = key r)
    (row : R) : key (change p f row) = key row := by
  unfold change
  split
  · exact hf row
  · rfl

variable (t : Table R K keys)

/-- `UPDATE … SET f WHERE p`. -/
def update (p : R → Bool) (f : R → R) (hf : ∀ key ∈ keys, ∀ r, key (f r) = key r) :
    Table R K keys where
  rows := t.rows.map (change p f)
  unique key hkey := by
    have hcomp : key ∘ change p f = key := funext (key_change (hf key hkey))
    rw [List.map_map, hcomp]
    exact t.unique key hkey

/-- `DELETE … WHERE p`. -/
def delete (p : R → Bool) : Table R K keys where
  rows := t.rows.filter (!p ·)
  unique key hkey := (List.filter_sublist.map key).nodup (t.unique key hkey)

/-- Whether a statement's condition holds of any row: `rows_affected() > 0`. -/
def affects (p : R → Bool) : Bool := t.rows.any p

variable {t} {t' : Table R K keys} {row row' : R} {key : R → K} {k : K}

@[simp] theorem mem_delete {p : R → Bool} :
    row ∈ (t.delete p).rows ↔ row ∈ t.rows ∧ p row = false := by
  simp [delete]

theorem eq_of_key (hkey : key ∈ keys) (hr : row ∈ t.rows) (hr' : row' ∈ t.rows)
    (h : key row = key row') : row = row' :=
  List.inj_on_of_nodup_map (t.unique key hkey) hr hr' h

section

variable [DecidableEq K]

/-- `INSERT`: nothing where a value of a unique column is there already. -/
def insert? (t : Table R K keys) (row : R) : Option (Table R K keys) :=
  if h : ∀ key ∈ keys, key row ∉ t.rows.map key then
    some
      { rows := t.rows ++ [row]
        unique := fun key hkey => by
          rw [List.map_append, List.map_singleton]
          exact List.Nodup.append (t.unique key hkey) (List.nodup_singleton _)
            (List.disjoint_singleton.mpr (h key hkey)) }
  else none

/-- `SELECT … WHERE key = k`, of a unique column. -/
def find (t : Table R K keys) (key : R → K) (k : K) : Option R :=
  t.rows.find? fun row => decide (key row = k)

theorem mem_insert? (h : t.insert? row = some t') :
    row' ∈ t'.rows ↔ row' ∈ t.rows ∨ row' = row := by
  unfold insert? at h
  split at h
  · rw [← Option.some.inj h]
    simp
  · cases h

theorem mem_of_find (h : t.find key k = some row) : row ∈ t.rows ∧ key row = k :=
  ⟨List.mem_of_find?_eq_some h, of_decide_eq_true (List.find?_eq_some_iff_append.mp h).1⟩

theorem find_of_mem (hkey : key ∈ keys) (hr : row ∈ t.rows) :
    t.find key (key row) = some row := by
  cases hfind : t.find key (key row) with
  | none =>
    have hno := List.find?_eq_none.mp hfind row hr
    exact absurd (decide_eq_true rfl) hno
  | some row' =>
    obtain ⟨hr', hk⟩ := mem_of_find hfind
    rw [eq_of_key hkey hr' hr hk]

end

end Table

end Horsie.Lib
