import Fasten.Store
import Fasten.Verify

set_option autoImplicit false

/-! # Ingesting replicated rows

`ingest_replicated` of the SQLite store and the helpers it shares with the other stores
(`python/fasten/store/repo.py`, spec §4): the batch is verified on its own, the verified prefix is
compared with the stored rows, and what is left is inserted. -/

namespace Fasten

/-- Why rows were rejected: the chain of the batch is broken, or a row is in conflict with a stored
    one. -/
inductive RejectReason where
  | broken (why : Reason)
  /-- `row {id}: no hash after the node's chain started` -/
  | noHash (id : String)
  /-- `row {id}: also in this batch at seq {seq} on node {node!r}` -/
  | alsoInBatch (id : String) (seq : Int) (node : String)
  /-- `row {id}: differs from the stored row with that id` -/
  | differs (id : String)
  /-- `row {id}: seq {seq} on node {node!r} is stored as row {other}` -/
  | seqTaken (id : String) (seq : Int) (node other : String)
  /-- `row {id}: prev_hash does not match stored row {before}` -/
  | notLinkedToStored (id before : String)
  /-- `row {id}: stored row {after} does not link to it` -/
  | storedNotLinked (id after : String)
  /-- `row {id}: source_node_id {node!r} is this node` -/
  | localNode (id node : String)
  deriving DecidableEq

structure IngestResult where
  inserted : Nat
  rejectedFromSeq : Option Int
  reason : Option RejectReason
  deriving DecidableEq

/-! ## The verified prefix -/

/-- The loop that drops unsealed rows and identical copies; `seen` holds `(id, node, hash)`. -/
def distinctSealed : List (String × String × String) → List AuditRow → List AuditRow
  | _, [] => []
  | seen, r :: rest =>
    if r.isSealed ∧ (r.id, r.sourceNodeId, r.hash) ∉ seen then
      r :: distinctSealed ((r.id, r.sourceNodeId, r.hash) :: seen) rest
    else distinctSealed seen rest

/-- The sealed rows before the first break of the batch, with that break. -/
def verifiedPrefix (check : AuditRow → Option Reason) (rows : List AuditRow) :
    List AuditRow × Option Int × Option Reason :=
  let sorted := sortBySeq rows
  let result := verifyChain check sorted [] false
  let kept :=
    match result.firstBreakAt with
    | none => sorted
    | some breakAt => sorted.filter (fun r => decide (r.monotonicSeq < breakAt))
  (distinctSealed [] kept, result.firstBreakAt, result.reason)

/-- The unsealed rows below the batch's first break, if any. -/
def skippedUnsealed (rows : List AuditRow) (rejectedFromSeq : Option Int) : List AuditRow :=
  rows.filter (fun r => !r.isSealed &&
    match rejectedFromSeq with
    | none => true
    | some seq => decide (r.monotonicSeq < seq))

/-! ## The stored rows -/

/-- `SELECT hash .. WHERE id = ?`. -/
def Store.byId (store : Store) (id : String) : Option String :=
  (store.rows.find? (·.id == id)).map (·.hash)

/-- `SELECT id, hash, prev_hash .. WHERE source_node_id = ? AND monotonic_seq = ? LIMIT 1`. -/
def Store.atSeq (store : Store) (node : String) (seq : Int) : Option AuditRow :=
  store.rows.find? (fun r => r.sourceNodeId == node && r.monotonicSeq == seq)

/-- A stored sealed row of the node below the seq. -/
def Store.sealedBelow (store : Store) (node : String) (seq : Int) : Bool :=
  store.rows.any (fun r => r.sourceNodeId == node && decide (r.monotonicSeq < seq) && r.isSealed)

/-- What the checks read of a stored row. -/
structure Link where
  id : String
  node : String
  seq : Int
  hash : String
  prevHash : String

def AuditRow.link (r : AuditRow) : Link :=
  ⟨r.id, r.sourceNodeId, r.monotonicSeq, r.hash, r.prevHash⟩

/-- What is wrong with a row that is not stored: its place is taken, or a stored neighbour is not
    linked to it. After an unsealed row the store links to `"genesis"`. -/
def AuditRow.conflict (row : AuditRow) (taken before after : Option Link) : Option RejectReason :=
  match taken with
  | some other => some (.seqTaken row.id row.monotonicSeq row.sourceNodeId other.id)
  | none =>
    match before.filter (fun b =>
        decide (row.prevHash ≠ if b.hash = "" then "genesis" else b.hash)) with
    | some b => some (.notLinkedToStored row.id b.id)
    | none =>
      match after.filter (fun a => decide (a.prevHash ≠ row.hash)) with
      | some a => some (.storedNotLinked row.id a.id)
      | none => none

def Store.neighbourConflict (store : Store) (row : AuditRow) : Option RejectReason :=
  let link := fun seq => (store.atSeq row.sourceNodeId seq).map AuditRow.link
  row.conflict (link row.monotonicSeq) (link (row.monotonicSeq - 1)) (link (row.monotonicSeq + 1))

/-- The loop of `stored_conflict`; `seen` maps row ids to their `(node, seq)`. -/
def conflictWalk (store : Store) :
    List (String × (String × Int)) → List AuditRow → Option (Int × RejectReason)
  | _, [] => none
  | seen, row :: rest =>
    if row.isSealed = false then
      if store.sealedBelow row.sourceNodeId row.monotonicSeq then
        some (row.monotonicSeq, .noHash row.id)
      else conflictWalk store seen rest
    else
      match Dict.get? seen row.id with
      | some (node, seq) => some (row.monotonicSeq, .alsoInBatch row.id seq node)
      | none =>
        let seen := Dict.set seen row.id (row.sourceNodeId, row.monotonicSeq)
        match store.byId row.id with
        | some held =>
          if held ≠ row.hash then some (row.monotonicSeq, .differs row.id)
          else conflictWalk store seen rest
        | none =>
          match store.neighbourConflict row with
          | some why => some (row.monotonicSeq, why)
          | none => conflictWalk store seen rest

/-- `sorted(rows, key=lambda r: (r.monotonic_seq, r.source_node_id))`. -/
def sortBySeqNode (rows : List AuditRow) : List AuditRow :=
  rows.insertionSort (fun a b => a.monotonicSeq < b.monotonicSeq
    ∨ a.monotonicSeq = b.monotonicSeq ∧ a.sourceNodeId ≤ b.sourceNodeId)

/-- The first row of a verified prefix that disagrees with what the store already holds. -/
def storedConflict (store : Store) (verified unsealed : List AuditRow) :
    Option (Int × RejectReason) :=
  conflictWalk store [] (sortBySeqNode (verified ++ unsealed))

/-- Shorten a verified prefix to the rows before a stored conflict. -/
def cutAtConflict (verified : List AuditRow) (rejectedFromSeq : Option Int)
    (reason : Option RejectReason) (conflict : Option (Int × RejectReason)) :
    List AuditRow × Option Int × Option RejectReason :=
  match conflict with
  | none => (verified, rejectedFromSeq, reason)
  | some (seq, why) =>
    (verified.filter (fun r => decide (r.monotonicSeq < seq)), some seq, some why)

/-! ## Ingest -/

/-- The row's seq and the two next to it are `int64`s. -/
def Inside (row : AuditRow) : Prop :=
  InInt64 (row.monotonicSeq - 1) ∧ InInt64 (row.monotonicSeq + 1)

/-- The seqs that the checks of a row look up. -/
def Store.lookups (store : Store) (row : AuditRow) : List Int :=
  if row.isSealed = false then [row.monotonicSeq]
  else if (store.byId row.id).isSome then []
  else
    match store.neighbourConflict row with
    | some (.seqTaken ..) => [row.monotonicSeq]
    | some (.notLinkedToStored ..) => [row.monotonicSeq, row.monotonicSeq - 1]
    | _ => [row.monotonicSeq, row.monotonicSeq - 1, row.monotonicSeq + 1]

/-- The seqs that the loop of `stored_conflict` looks up, to its first conflict. -/
def walkLookups (store : Store) : List (String × (String × Int)) → List AuditRow → List Int
  | _, [] => []
  | seen, row :: rest =>
    if row.isSealed ∧ (Dict.get? seen row.id).isSome then []
    else store.lookups row ++
      if (conflictWalk store seen [row]).isSome then []
      else walkLookups store
        (if row.isSealed then Dict.set seen row.id (row.sourceNodeId, row.monotonicSeq) else seen)
        rest

/-- Insert the rows one after the other; `none` is the `StoredMeanwhile` that rolls back. -/
def insertAll : Store → List AuditRow → Option Store
  | store, [] => some store
  | store, row :: rest =>
    let (store', count) := store.insertRowCore row
    if count = 0 ∧ store'.byId row.id ≠ some row.hash then none
    else insertAll store' rest

/-- What the two checks leave of a batch: the rows to insert, and where and why they stop. -/
def Store.checkedPrefix (check : AuditRow → Option Reason) (store : Store)
    (rows : List AuditRow) : List AuditRow × Option Int × Option RejectReason :=
  let (verified, rejected, reason) := verifiedPrefix check rows
  let unsealed := skippedUnsealed rows rejected
  cutAtConflict verified rejected (reason.map .broken) (storedConflict store verified unsealed)

/-- Whether every seq that an ingest binds, to look rows up and to insert them, is an `int64`. -/
def Store.fits (check : AuditRow → Option Reason) (store : Store) (rows : List AuditRow) : Bool :=
  let (verified, rejected, _) := verifiedPrefix check rows
  (walkLookups store [] (sortBySeqNode (verified ++ skippedUnsealed rows rejected))
    ++ (store.checkedPrefix check rows).1.map (·.monotonicSeq)).all (fun seq => decide (InInt64 seq))

/-- `ingest_replicated` without a local node. For a seq beyond 64 bits `sqlite3` raises
    `OverflowError`. -/
def Store.ingest (check : AuditRow → Option Reason) (store : Store) (rows : List AuditRow) :
    Option (Store × IngestResult) :=
  let (verified, rejected, reason) := store.checkedPrefix check rows
  if store.fits check rows then
    (insertAll store verified).map (fun store' => (store', ⟨verified.length, rejected, reason⟩))
  else none

/-- The row with the lowest seq, the first of them. -/
def lowestSeq : List AuditRow → Option AuditRow
  | [] => none
  | r :: rest =>
    match lowestSeq rest with
    | none => some r
    | some best => if r.monotonicSeq ≤ best.monotonicSeq then some r else some best

/-- The lowest row from the local node; an empty `local_node_id` skips the check. -/
def firstLocal (localNodeId : Option String) (rows : List AuditRow) : Option AuditRow :=
  match localNodeId with
  | none => none
  | some node => if node = "" then none else lowestSeq (rows.filter (·.sourceNodeId == node))

/-- The rows before the first one from the local node. -/
def rowsBeforeLocal (localNodeId : Option String) (rows : List AuditRow) : List AuditRow :=
  match firstLocal localNodeId rows with
  | none => rows
  | some first => rows.filter (fun r => decide (r.monotonicSeq < first.monotonicSeq))

/-- `ingest_replicated`: with `localNodeId`, ingest stops at the first row from that node. -/
def Store.ingestReplicated (check : AuditRow → Option Reason) (store : Store)
    (rows : List AuditRow) (localNodeId : Option String) : Option (Store × IngestResult) :=
  match firstLocal localNodeId rows with
  | none => store.ingest check rows
  | some first =>
    (store.ingest check (rowsBeforeLocal localNodeId rows)).map (fun (store', result) =>
      if result.rejectedFromSeq.isSome then (store', result)
      else (store', { result with
        rejectedFromSeq := some first.monotonicSeq
        reason := some (.localNode first.id first.sourceNodeId) }))

/-- The store after the call; when it raises, the transaction was rolled back. -/
def Store.afterIngest (check : AuditRow → Option Reason) (store : Store)
    (rows : List AuditRow) (localNodeId : Option String) : Store :=
  match store.ingestReplicated check rows localNodeId with
  | some (store', _) => store'
  | none => store

/-- The `rejected_from_seq` the call returns. -/
def Store.rejectedFromSeq (check : AuditRow → Option Reason) (store : Store)
    (rows : List AuditRow) (localNodeId : Option String) : Option Int :=
  match store.ingestReplicated check rows localNodeId with
  | some (_, result) => result.rejectedFromSeq
  | none => none

end Fasten
