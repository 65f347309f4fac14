import Fasten.RowHash

set_option autoImplicit false

/-! # The SQLite store

The operations of `SQLiteStore` (`python/fasten/store/sqlite.py`) that write rows or read them back
for the chain. A stored row is kept as `_row` reads it: `json.loads` gives a `detail` with string
keys back. Where SQL leaves the order of rows open,
rows come in the order of their insertion. The clock and `secrets.token_hex` are parameters;
`monotonic_seq` is unbounded. -/

namespace Fasten

/-! ## Rows and columns -/

/-- A column written as `value or ""` and read as `value or None`. -/
def orNone : Option String → Option String
  | none => none
  | some s => if s = "" then none else some s

/-- The row `_row` reads from the columns `_insert_row_core` writes. There is no column for
    `wire_version`, so it reads as the default. -/
def AuditRow.stored (row : AuditRow) : AuditRow :=
  { row with
    wireVersion := "1"
    canonicalFormId := row.formId
    detailSalt := orNone row.detailSalt
    detailCommitment := orNone row.detailCommitment }

/-- The rows of the table. `id` is the primary key. -/
structure Store where
  rows : List AuditRow
  primaryKey : (rows.map (·.id)).Nodup
  columns : ∀ r ∈ rows, r.stored = r

def Store.empty : Store := ⟨[], List.nodup_nil, by simp⟩

def Store.nodeRows (store : Store) (node : String) : List AuditRow :=
  store.rows.filter (·.sourceNodeId == node)

@[simp] theorem orNone_orNone (o : Option String) : orNone (orNone o) = orNone o := by
  cases o with
  | none => rfl
  | some s => by_cases h : s = "" <;> simp [orNone, h]

@[simp] theorem AuditRow.formId_stored (row : AuditRow) : row.stored.formId = row.formId := by
  simp only [AuditRow.stored, AuditRow.formId]
  split_ifs with h h' <;> simp_all

@[simp] theorem AuditRow.stored_stored (row : AuditRow) : row.stored.stored = row.stored := by
  have hform := row.formId_stored
  simp only [AuditRow.stored] at hform ⊢
  simp [hform]

/-! ## Changing rows in place -/

/-- `UPDATE`: the assignment keeps the key and writes what a column can hold. -/
def Store.update (store : Store) (f : AuditRow → AuditRow) (hid : ∀ r, (f r).id = r.id)
    (hcol : ∀ r, r.stored = r → (f r).stored = f r) : Store where
  rows := store.rows.map f
  primaryKey := by
    rw [List.map_map]
    exact (List.map_congr_left (fun r _ => hid r)) ▸ store.primaryKey
  columns := by
    intro r hr
    obtain ⟨r', hr', rfl⟩ := List.mem_map.1 hr
    exact hcol r' (store.columns r' hr')

/-- `DELETE`. -/
def Store.delete (store : Store) (p : AuditRow → Bool) : Store where
  rows := store.rows.filter (fun r => !p r)
  primaryKey := store.primaryKey.sublist (List.filter_sublist.map _)
  columns r hr := store.columns r (List.mem_filter.1 hr).1

/-! ## Inserting -/

/-- `INSERT OR IGNORE` of one row: the table after it and the number of rows inserted. -/
def Store.insertRowCore (store : Store) (row : AuditRow) : Store × Nat :=
  if h : row.id ∈ store.rows.map (·.id) then (store, 0)
  else
    (⟨store.rows ++ [row.stored], by
        rw [List.map_append, List.map_singleton]
        exact List.nodup_append.2 ⟨store.primaryKey, List.nodup_singleton _, by
          intro a ha b hb hab
          rw [List.mem_singleton.1 hb] at hab
          exact h (hab ▸ ha)⟩, by
        intro r hr
        rcases List.mem_append.1 hr with hr | hr
        · exact store.columns r hr
        · rw [List.mem_singleton.1 hr, AuditRow.stored_stored]⟩, 1)

/-- `SELECT COALESCE(MAX(monotonic_seq), 0) .. + 1`. -/
def Store.nextSeq (store : Store) (node : String) : Int :=
  (((store.nodeRows node).map (·.monotonicSeq)).max?).getD 0 + 1

/-- One step of `ORDER BY monotonic_seq DESC LIMIT 1` over sealed rows. -/
def higherSealed (best : Option AuditRow) (row : AuditRow) : Option AuditRow :=
  if row.isSealed = false then best
  else
    match best with
    | none => some row
    | some b => if b.monotonicSeq ≤ row.monotonicSeq then some row else some b

/-- The sealed row with the highest seq. -/
def tipOf (rows : List AuditRow) : Option AuditRow := rows.foldl higherSealed none

def Store.tip (store : Store) (node : String) : Option AuditRow := tipOf (store.nodeRows node)

/-- `prev_hash` of the next row. -/
def Store.nextPrevHash (store : Store) (node : String) : String :=
  match store.tip node with
  | some tip => tip.hash
  | none => "genesis"

/-- The row `allocate_and_insert_originated` seals and returns. -/
def Store.allocated (H : Sha256) (store : Store) (token : Token) (row : AuditRow) : AuditRow :=
  sealRow H token (store.nextPrevHash row.sourceNodeId)
    { row with monotonicSeq := store.nextSeq row.sourceNodeId }

/-- Allocate `monotonic_seq` and `prev_hash`, seal, and insert; `none` is the `ValueError` for a
    row with another `origin_id`. The sealed row is returned even when the insert was ignored. -/
def Store.allocateAndInsertOriginated (H : Sha256) (store : Store) (token : Token)
    (row : AuditRow) : Option (AuditRow × Store) :=
  if row.originId ≠ row.id then none
  else
    let allocated := store.allocated H token row
    some (allocated, (store.insertRowCore allocated).1)

/-! ## Shipping -/

/-- The rows `list_unshipped` selects: all of them, or those one identity originated. -/
def unshipped (scope : Option (String × String)) (row : AuditRow) : Bool :=
  row.shippedAt.isNone &&
    match scope with
    | none => true
    | some (serviceId, node) =>
      decide (row.serviceId = serviceId) && decide (row.sourceNodeId = node)
        && decide (row.originId = row.id)

/-- Unshipped rows, oldest first. A negative `LIMIT` is none. -/
def Store.listUnshipped (store : Store) (limit : Int) (scope : Option (String × String)) :
    List AuditRow :=
  let rows := (store.rows.filter (unshipped scope)).insertionSort
    (fun a b => a.monotonicSeq ≤ b.monotonicSeq)
  if limit < 0 then rows else rows.take limit.toNat

def shippedRow (ids : List String) (now : Datetime) (r : AuditRow) : AuditRow :=
  if r.id ∈ ids then { r with shippedAt := some now } else r

def Store.markShipped (store : Store) (ids : List String) (now : Datetime) : Store :=
  store.update (shippedRow ids now)
    (fun r => by unfold shippedRow; split_ifs <;> rfl)
    (fun r hr => by
      unfold shippedRow
      split_ifs
      · exact congrArg (fun q : AuditRow => { q with shippedAt := some now }) hr
      · exact hr)

/-! ## Redaction and retention -/

/-- What the redaction `UPDATE` does to a row: `'null'` reads as no detail, `''` as no salt. -/
def redactedRow (ids : List String) (r : AuditRow) : AuditRow :=
  if r.id ∈ ids ∧ (r.canonicalFormId = "2" ∨ r.hash = "") then
    { r with detail := none, detailSalt := none }
  else r

def Store.redactRows (store : Store) (ids : List String) : Store :=
  if ids = [] then store
  else
    store.update (redactedRow ids)
      (fun r => by unfold redactedRow; split_ifs <;> rfl)
      (fun r hr => by
        unfold redactedRow
        split_ifs
        · exact congrArg (fun q : AuditRow => { q with detail := none, detailSalt := none }) hr
        · exact hr)

/-- `_MAX_SEQ`. -/
def maxSeq : Int := 9223372036854775807

/-- `timestamp < ?`, over the stored texts. -/
def isBefore (row : AuditRow) (before : Datetime) : Bool :=
  decide (canonicalTs row.timestamp < canonicalTs before)

/-- A row the purge keeps for its age or, if asked to, because it was not shipped. -/
def purgeKeeps (before : Datetime) (respectUnshipped : Bool) (row : AuditRow) : Bool :=
  !isBefore row before || (respectUnshipped && row.shippedAt.isNone)

/-- `keep_from`: the lowest seq above 0 of a row to keep. -/
def Store.keepFrom (store : Store) (before : Datetime) (respectUnshipped : Bool)
    (node : String) : Int :=
  ((((store.nodeRows node).filter (fun r =>
    decide (0 < r.monotonicSeq) && purgeKeeps before respectUnshipped r)).map
      (·.monotonicSeq)).min?).getD maxSeq

/-- Per node, the rows below the lowest seq it keeps; rows at seq 0 go by age alone. -/
def Store.purges (store : Store) (before : Datetime) (respectUnshipped : Bool)
    (row : AuditRow) : Bool :=
  decide (row.monotonicSeq < store.keepFrom before respectUnshipped row.sourceNodeId)
    && isBefore row before && (!respectUnshipped || row.shippedAt.isSome)

def Store.purge (store : Store) (before : Datetime) (respectUnshipped : Bool) : Store :=
  store.delete (store.purges before respectUnshipped)

end Fasten
