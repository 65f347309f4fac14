import Fasten.Checkpoints
import Fasten.GoTime
import Fasten.GoVerify
import Fasten.Lib.Table

set_option autoImplicit false

/-! # The Go store

The operations of the Go `SQLiteStore` (`go/store.go`) that checkpoints (`go/checkpoints.go`) depend
on. Unlike Python's table the Go one also has a unique index on node and seq. A Go `Row` is taken as
an `AuditRow`. The check of a row as it is read back and the hash it is sealed with are parameters:
nothing here depends on how they are computed. -/

namespace Fasten.Go

/-- The node and seq of a row, which `uq_<table>_node_seq` keeps unique. -/
def nodeSeq (row : AuditRow) : String × Int := (row.sourceNodeId, row.monotonicSeq)

abbrev Store := Table AuditRow String (String × Int) AuditRow.id nodeSeq

/-- The store with one row. -/
def Store.singleton (row : AuditRow) : Store :=
  ⟨[row], List.nodup_singleton _, List.nodup_singleton _⟩

def Store.nodeRows (store : Store) (node : String) : List AuditRow :=
  store.rows.filter (·.sourceNodeId == node)

/-! ## Inserting -/

/-- The columns of a row: two of them have a default. -/
def columns (row : AuditRow) : AuditRow :=
  { row with
    wireVersion := if row.wireVersion = "" then "1" else row.wireVersion
    canonicalFormId := row.formId }

def Store.insertRowExec (store : Store) (row : AuditRow) : Store × Nat :=
  store.insertOrIgnore (columns row)

/-- What the chain needs of `Seal`: it leaves a row its place. The token is the salt it draws. -/
structure Sealer where
  run : Token → String → AuditRow → AuditRow
  sourceNodeId : ∀ token prevHash row, (run token prevHash row).sourceNodeId = row.sourceNodeId
  monotonicSeq : ∀ token prevHash row, (run token prevHash row).monotonicSeq = row.monotonicSeq

/-- `COALESCE(MAX(monotonic_seq), 0)`, and one more. -/
def Store.nextSeq (store : Store) (node : String) : Int :=
  wrap ((((store.nodeRows node).map (·.monotonicSeq)).max?).getD 0 + 1)

/-- The hash of the node's last sealed row. -/
def Store.nextPrevHash (store : Store) (node : String) : String :=
  match tipOf (store.nodeRows node) with
  | some tip => tip.hash
  | none => "genesis"

/-- The row `AllocateAndInsertOriginated` seals. -/
def Store.allocated (sealer : Sealer) (store : Store) (token : Token) (row : AuditRow) : AuditRow :=
  sealer.run token (store.nextPrevHash row.sourceNodeId)
    { row with monotonicSeq := store.nextSeq row.sourceNodeId }

/-- `none` is the error for a row with another `origin_id`. -/
def Store.allocateAndInsertOriginated (sealer : Sealer) (store : Store) (token : Token)
    (row : AuditRow) : Option (AuditRow × Store) :=
  if row.originId ≠ row.id then none
  else
    let sealed := store.allocated sealer token row
    some (sealed, (store.insertRowExec sealed).1)

/-! ## Purging -/

/-- `timestamp >= ?`, or `shipped_at IS NULL` if unshipped rows are kept. -/
def keeps (before : Time) (respectUnshipped : Bool) (row : AuditRow) : Bool :=
  decide (canonicalTS before ≤ canonicalTs row.timestamp)
    || (respectUnshipped && row.shippedAt.isNone)

/-- `keep_from`: the lowest seq above 0 of a row to keep. -/
def Store.keepFrom (store : Store) (before : Time) (respectUnshipped : Bool) (node : String) :
    Int :=
  ((((store.nodeRows node).filter (fun r =>
    decide (0 < r.monotonicSeq) && keeps before respectUnshipped r)).map
      (·.monotonicSeq)).min?).getD maxSeq

/-- The rows `purgeSQL` selects. -/
def Store.purges (store : Store) (before : Time) (respectUnshipped : Bool) (row : AuditRow) :
    Bool :=
  decide (row.monotonicSeq < store.keepFrom before respectUnshipped row.sourceNodeId)
    && decide (canonicalTs row.timestamp < canonicalTS before)
    && (!respectUnshipped || row.shippedAt.isSome)

def Store.purge (store : Store) (before : Time) (respectUnshipped : Bool) : Store :=
  store.delete (store.purges before respectUnshipped)

/-! ## Checkpoints -/

/-- The rest of `TakeCheckpoints`, once `ChainTips` has returned the tips and the clock is read. The
    query and the loop are those of Python's `take_checkpoints`. -/
def takeCheckpoints (now : Time) (tips : List AuditRow) : List Checkpoint :=
  checkpointTips now.micros tips

/-- `none` is the error for an `AnchoredAt` that is not in the canonical form. -/
def checkpointsSince : List Checkpoint → Time → Option (List Checkpoint)
  | [], _ => some []
  | cp :: rest, cutoff => do
      let t ← parseCanonicalTS cp.anchoredAt
      let kept ← checkpointsSince rest cutoff
      return if t < cutoff then kept else cp :: kept

/-- **What `CheckpointsSince` keeps**, of checkpoints that were dated with `canonicalTS`: each is
    dated at the cutoff or later. -/
theorem exists_checkpointsSince {checkpoints : List Checkpoint} (cutoff : Time)
    (h : ∀ cp ∈ checkpoints, ∃ t, cp.anchoredAt = canonicalTS t) :
    ∃ kept, checkpointsSince checkpoints cutoff = some kept ∧
      ∀ cp ∈ kept, cp ∈ checkpoints ∧ ∀ t, cp.anchoredAt = canonicalTS t → ¬t < cutoff := by
  induction checkpoints with
  | nil => exact ⟨[], rfl, fun _ h => absurd h List.not_mem_nil⟩
  | cons cp rest ih =>
    obtain ⟨t, hat⟩ := h cp (by simp)
    obtain ⟨kept, hkept, hmem⟩ := ih (fun x hx => h x (List.mem_cons_of_mem _ hx))
    have hrest : ∀ x ∈ kept, x ∈ cp :: rest ∧ ∀ t, x.anchoredAt = canonicalTS t → ¬t < cutoff :=
      fun x hx => ⟨List.mem_cons_of_mem _ (hmem x hx).1, (hmem x hx).2⟩
    refine ⟨if t.truncate < cutoff then kept else cp :: kept, ?_, fun x hx => ?_⟩
    · simp [checkpointsSince, hat, parseCanonicalTS_canonicalTS, hkept]
    · split_ifs at hx with hlt
      · exact hrest x hx
      · rcases List.mem_cons.1 hx with rfl | hx
        · refine ⟨by simp, fun t' hat' hlt' => hlt ?_⟩
          -- the text fixes the microsecond
          have hmicros : t.micros = t'.micros := canonicalTs_inj (hat.symm.trans hat')
          rw [Time.truncate, hmicros]
          exact Time.truncate_lt hlt'
        · exact hrest x hx

end Fasten.Go
