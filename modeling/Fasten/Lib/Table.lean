import Mathlib.Data.List.Nodup

set_option autoImplicit false

/-! # Tables with two unique indexes

The rows of a table in the order of their insertion. No two share an `id` or a `key`: an insert
that would is ignored, and deleting keeps both indexes. -/

structure Table (R I K : Type) (id : R → I) (key : R → K) where
  rows : List R
  nodup_id : (rows.map id).Nodup
  nodup_key : (rows.map key).Nodup

namespace Table

variable {R I K : Type} {id : R → I} {key : R → K}

def empty : Table R I K id key := ⟨[], List.nodup_nil, List.nodup_nil⟩

/-- A column that the new row shares with none stays unique. -/
theorem nodup_map_concat {C : Type} {col : R → C} {rows : List R} {row : R}
    (hrows : (rows.map col).Nodup) (hnew : col row ∉ rows.map col) :
    ((rows ++ [row]).map col).Nodup := by
  rw [List.map_append, List.map_singleton]
  refine List.nodup_append.2 ⟨hrows, List.nodup_singleton _, fun a ha b hb hab => ?_⟩
  rw [List.mem_singleton.1 hb] at hab
  exact hnew (hab ▸ ha)

/-- Looking up a row by a column that is unique. -/
theorem find?_eq_some_iff {C : Type} [DecidableEq C] {col : R → C} {rows : List R}
    (hrows : (rows.map col).Nodup) {r : R} {c : C} :
    rows.find? (fun x => decide (col x = c)) = some r ↔ r ∈ rows ∧ col r = c := by
  refine ⟨fun h => ⟨List.mem_of_find?_eq_some h, by simpa using List.find?_some h⟩, fun ⟨hr, hc⟩ => ?_⟩
  cases hfind : rows.find? (fun x => decide (col x = c)) with
  | none => exact absurd hc (by simpa using List.find?_eq_none.1 hfind r hr)
  | some x =>
    have hx : col x = c := by simpa using List.find?_some hfind
    rw [List.inj_on_of_nodup_map hrows (List.mem_of_find?_eq_some hfind) hr (hx.trans hc.symm)]

/-- A row of the table has the id or the key of the new one. -/
def Clashes (t : Table R I K id key) (row : R) : Prop :=
  id row ∈ t.rows.map id ∨ key row ∈ t.rows.map key

instance [DecidableEq I] [DecidableEq K] (t : Table R I K id key) (row : R) :
    Decidable (t.Clashes row) :=
  inferInstanceAs (Decidable (_ ∨ _))

/-- `INSERT OR IGNORE`: the table after it and the number of rows inserted. -/
def insertOrIgnore [DecidableEq I] [DecidableEq K] (t : Table R I K id key) (row : R) :
    Table R I K id key × Nat :=
  if h : t.Clashes row then (t, 0)
  else
    (⟨t.rows ++ [row], nodup_map_concat t.nodup_id (fun hid => h (Or.inl hid)),
      nodup_map_concat t.nodup_key (fun hkey => h (Or.inr hkey))⟩, 1)

/-- `DELETE`. -/
def delete (t : Table R I K id key) (p : R → Bool) : Table R I K id key where
  rows := t.rows.filter (fun r => !p r)
  nodup_id := t.nodup_id.sublist (List.filter_sublist.map _)
  nodup_key := t.nodup_key.sublist (List.filter_sublist.map _)

/-- `UPDATE` of columns that are in neither index. -/
def update (t : Table R I K id key) (f : R → R) (hid : ∀ r, id (f r) = id r)
    (hkey : ∀ r, key (f r) = key r) : Table R I K id key where
  rows := t.rows.map f
  nodup_id := by simpa [Function.comp_def, hid] using t.nodup_id
  nodup_key := by simpa [Function.comp_def, hkey] using t.nodup_key

section

variable [DecidableEq I] [DecidableEq K] (t : Table R I K id key) (row : R)

theorem insertOrIgnore_of_clashes (h : t.Clashes row) : t.insertOrIgnore row = (t, 0) :=
  dif_pos h

theorem insertOrIgnore_rows : (t.insertOrIgnore row).1.rows
    = if t.Clashes row then t.rows else t.rows ++ [row] := by
  unfold insertOrIgnore
  split_ifs <;> rfl

theorem insertOrIgnore_snd : (t.insertOrIgnore row).2 = if t.Clashes row then 0 else 1 := by
  unfold insertOrIgnore
  split_ifs <;> rfl

theorem mem_insertOrIgnore {x : R} :
    x ∈ (t.insertOrIgnore row).1.rows ↔ x ∈ t.rows ∨ ¬t.Clashes row ∧ x = row := by
  rw [insertOrIgnore_rows]
  split_ifs with h <;> simp [h]

end

variable (t : Table R I K id key)

theorem mem_delete {p : R → Bool} {x : R} : x ∈ (t.delete p).rows ↔ x ∈ t.rows ∧ p x = false := by
  simp [delete]

theorem eq_of_id_eq {a b : R} (ha : a ∈ t.rows) (hb : b ∈ t.rows) (h : id a = id b) : a = b :=
  List.inj_on_of_nodup_map t.nodup_id ha hb h

theorem eq_of_key_eq {a b : R} (ha : a ∈ t.rows) (hb : b ∈ t.rows) (h : key a = key b) : a = b :=
  List.inj_on_of_nodup_map t.nodup_key ha hb h

end Table
