import Fasten.GoStore
import Fasten.Ingest

set_option autoImplicit false

/-! # Ingesting replicated rows in Go

`IngestReplicated` of the Go SQLite store (`go/ingest.go`, spec §4). It takes the steps of Python's
`ingest_replicated` (`Fasten.Ingest`), but seqs are `int64`s, and 0 stands for "no break" where
Python has `None`. An error of the call is `none`. -/

namespace Fasten.Go

structure IngestResult where
  inserted : Nat
  rejectedFromSeq : Int
  /-- `none` is `""`. -/
  reason : Option RejectReason
  deriving DecidableEq

/-! ## The verified prefix -/

/-- The sealed rows before the first break of the batch, with that break. -/
def verifiedPrefix (check : AuditRow → Option Reason) (rows : List AuditRow) :
    List AuditRow × Int × Option Reason :=
  let sorted := sortBySeq rows
  let res := verifyChainWithCheckpoints check sorted [] false
  let kept := sorted.filter (fun r => res.ok || decide (r.monotonicSeq < res.firstBreakAt))
  (distinctSealed [] kept, res.firstBreakAt, res.reason)

/-- The unsealed rows below the batch's first break, if any. -/
def skippedUnsealed (rows : List AuditRow) (rejectedFromSeq : Int) : List AuditRow :=
  rows.filter (fun r => !r.isSealed &&
    (decide (rejectedFromSeq = 0) || decide (r.monotonicSeq < rejectedFromSeq)))

/-! ## The stored rows -/

def Store.byID (store : Store) (id : String) : Option String :=
  (store.rows.find? (·.id == id)).map (·.hash)

def Store.atSeq (store : Store) (node : String) (seq : Int) : Option AuditRow :=
  store.rows.find? (fun r => r.sourceNodeId == node && r.monotonicSeq == seq)

def Store.sealedBelow (store : Store) (node : String) (seq : Int) : Bool :=
  store.rows.any (fun r => r.sourceNodeId == node && decide (r.monotonicSeq < seq) && r.isSealed)

def Store.neighbourConflict (store : Store) (row : AuditRow) : Option RejectReason :=
  let link := fun seq => (store.atSeq row.sourceNodeId seq).map AuditRow.link
  row.conflict (link row.monotonicSeq) (link (wrap (row.monotonicSeq - 1)))
    (link (wrap (row.monotonicSeq + 1)))

/-- The loop of `storedConflict`; `seen` maps row ids to their node and seq. -/
def conflictWalk (store : Store) :
    List (String × (String × Int)) → List AuditRow → Int × Option RejectReason
  | _, [] => (0, none)
  | seen, row :: rest =>
    if row.isSealed = false then
      if store.sealedBelow row.sourceNodeId row.monotonicSeq then
        (row.monotonicSeq, some (.noHash row.id))
      else conflictWalk store seen rest
    else
      match Dict.get? seen row.id with
      | some (node, seq) => (row.monotonicSeq, some (.alsoInBatch row.id seq node))
      | none =>
        let seen := Dict.set seen row.id (row.sourceNodeId, row.monotonicSeq)
        match store.byID row.id with
        | some held =>
          if held ≠ row.hash then (row.monotonicSeq, some (.differs row.id))
          else conflictWalk store seen rest
        | none =>
          match store.neighbourConflict row with
          | some why => (row.monotonicSeq, some why)
          | none => conflictWalk store seen rest

/-- The first row of a verified prefix that disagrees with what the store already holds: its seq and
    why, or 0. -/
def storedConflict (store : Store) (verified unsealed : List AuditRow) :
    Int × Option RejectReason :=
  conflictWalk store [] (sliceStable (verified ++ unsealed))

/-! ## Ingest -/

/-- `insertReplicatedTx` on each row. A row that was skipped has to be stored with its hash, or the
    error is `errStoredMeanwhile`. -/
def Store.insertAll : Store → List AuditRow → Option Store
  | store, [] => some store
  | store, row :: rest =>
    if row.isSealed = false then none
    else
      let (store', count) := store.insertRowExec row
      if count = 0 ∧ (store'.byID row.id).getD "" ≠ row.hash then none
      else store'.insertAll rest

/-- Check a verified prefix against the stored rows and insert what agrees. -/
def Store.ingestPrefix (store : Store) (verified unsealed : List AuditRow) (rejectedFromSeq : Int)
    (reason : Option RejectReason) : Option (Store × IngestResult) :=
  let (conflictSeq, why) := storedConflict store verified unsealed
  let (verified, rejectedFromSeq, reason) :=
    if conflictSeq ≠ 0 then
      (verified.filter (fun r => decide (r.monotonicSeq < conflictSeq)), conflictSeq, why)
    else (verified, rejectedFromSeq, reason)
  (store.insertAll verified).map (fun store' =>
    (store', ⟨verified.length, rejectedFromSeq, reason⟩))

/-- `ingestReplicatedTx`. An attempt that fails is rolled back, and without another writer the next
    one finds what it found. -/
def Store.ingestReplicated (check : AuditRow → Option Reason) (store : Store)
    (rows : List AuditRow) : Option (Store × IngestResult) :=
  let (verified, rejectedFromSeq, why) := verifiedPrefix check rows
  let reason := why.map RejectReason.broken
  let unsealed := skippedUnsealed rows rejectedFromSeq
  if verified = [] ∧ unsealed = [] then some (store, ⟨0, rejectedFromSeq, reason⟩)
  else
    let attempt := store.ingestPrefix verified unsealed rejectedFromSeq reason
    attempt <|> attempt <|> attempt

end Fasten.Go
