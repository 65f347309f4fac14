import Fasten.Lib.Scan
import Fasten.RowHash

set_option autoImplicit false

/-! # Chain verification

`verify_chain` (`python/fasten/chain.py`, spec §2, §9): the rows are split by node and each row id
is checked once; every node's chain is walked by seq; checkpoints published earlier are compared
with the rows. The check of a single sealed row (`_row_break`) is the parameter `check`. -/

namespace Fasten

open Scan (lower)

/-- `(monotonic_seq, reason)`. -/
abbrev Break := Int × Reason

/-- A node's latest sealed row at `anchored_at`. -/
structure Checkpoint where
  sourceNodeId : String
  monotonicSeq : Int
  hash : String
  anchoredAt : String
  deriving DecidableEq

structure ChainVerifyResult where
  ok : Bool
  totalRows : Nat
  firstBreakAt : Option Int
  reason : Option Reason
  deriving DecidableEq

section

variable (check : AuditRow → Option Reason)

/-! ## One node's chain -/

/-- The link of a sealed row to the row before it. -/
def linkBreak (prev : Option AuditRow) (row : AuditRow) : Option Reason :=
  match prev with
  | none => none
  | some prev =>
    if prev.isSealed ∧ row.prevHash ≠ prev.hash then some (.prevHashMismatch row.id prev.id)
    else if prev.isSealed = false ∧ prev.monotonicSeq = row.monotonicSeq - 1
        ∧ row.prevHash ≠ "genesis" then some (.notGenesis row.id)
    else none

/-- The loop of `_first_break`: `seen` maps the seqs of sealed rows to their ids, `prev` is the row
    before. -/
def walk (firstSealed : Option Int) :
    List (Int × String) → Option AuditRow → List AuditRow → Option Break
  | _, _, [] => none
  | seen, prev, row :: rest =>
    if row.isSealed = false then
      if ∃ first ∈ firstSealed, first ≤ row.monotonicSeq then
        some (row.monotonicSeq, .noHash row.id)
      else walk firstSealed seen (some row) rest
    else if (Dict.get? seen row.monotonicSeq).getD row.id ≠ row.id then
      some (row.monotonicSeq, .duplicateSeq row.monotonicSeq row.sourceNodeId
        ((Dict.get? seen row.monotonicSeq).getD row.id) row.id)
    else
      match check row with
      | some reason => some (row.monotonicSeq, reason)
      | none =>
        match linkBreak prev row with
        | some reason => some (row.monotonicSeq, reason)
        | none =>
          walk firstSealed (Dict.set seen row.monotonicSeq row.id) (some row) rest

/-- `min(sealed) if sealed else None`. -/
def firstSealedSeq (rows : List AuditRow) : Option Int :=
  ((rows.filter (·.isSealed)).map (·.monotonicSeq)).min?

def firstBreak (sortedRows : List AuditRow) : Option Break :=
  walk check (firstSealedSeq sortedRows) [] none sortedRows

/-- `sorted(rows, key=lambda r: r.monotonic_seq)`. -/
def sortBySeq (rows : List AuditRow) : List AuditRow :=
  rows.insertionSort (fun a b => a.monotonicSeq ≤ b.monotonicSeq)

/-! ## One copy per row id -/

/-- The dicts of the deduplication loop: the kept rows by node and id, and the lowest break found
    between two sealed copies. -/
structure Deduped where
  byNode : List (String × List (String × AuditRow))
  dup : Option Break

/-- The break of a second sealed copy of `old`. -/
def copyBreak (old row : AuditRow) : Option Break :=
  let reason := if row.hash ≠ old.hash then some (.differentCopies row.id) else check row
  reason.map (fun why => (min row.monotonicSeq old.monotonicSeq, why))

def dedupeStep (state : Deduped) (row : AuditRow) : Deduped :=
  let kept := (Dict.get? state.byNode row.sourceNodeId).getD []
  let keep : Deduped :=
    { state with byNode := Dict.set state.byNode row.sourceNodeId (Dict.set kept row.id row) }
  match Dict.get? kept row.id with
  | none => keep
  | some old =>
    if old.isSealed = false ∧ row.isSealed then keep
    else if old.isSealed ∧ row.isSealed then
      { state with dup := lower state.dup (copyBreak check old row) }
    else state

def dedupe (rows : List AuditRow) : Deduped := rows.foldl (dedupeStep check) ⟨[], none⟩

/-! ## Checkpoints -/

/-- One node's rows by seq, with the lowest and highest seq. -/
structure NodeIndex where
  bySeq : List (Int × List AuditRow)
  lowest : Int
  highest : Int

/-- `_NodeIndex(rows)`, for a node that has rows. -/
def nodeIndex (rows : List AuditRow) : Option NodeIndex :=
  let bySeq := rows.foldl (fun index row =>
    Dict.set index row.monotonicSeq
      ((Dict.get? index row.monotonicSeq).getD [] ++ [row])) []
  match (Dict.keys bySeq).min?, (Dict.keys bySeq).max? with
  | some lowest, some highest => some ⟨bySeq, lowest, highest⟩
  | _, _ => none

def checkpointBreak (node : NodeIndex) (cp : Checkpoint) (isPartial : Bool) : Option Break :=
  let seq := cp.monotonicSeq
  let rowsAt := (Dict.get? node.bySeq seq).getD []
  match (rowsAt.map (·.id)).min? with
  | some lowestId =>
    if rowsAt.any (fun r => r.hash = cp.hash) then none
    else some (seq, .checkpointDiffers lowestId seq)
  | none =>
    if node.highest < seq then
      if isPartial then none
      else some (node.highest + 1, .chainEnds cp.sourceNodeId node.highest seq)
    else if seq < node.lowest then
      if isPartial then none
      else some (node.lowest, .rowsStart cp.sourceNodeId node.lowest seq)
    else some (seq, .noRowAt cp.sourceNodeId seq)

/-- The highest seq checkpointed for each node. -/
def newestCheckpoints (checkpoints : List Checkpoint) : List (String × Int) :=
  checkpoints.foldl (fun newest cp =>
    Dict.set newest cp.sourceNodeId
      (max cp.monotonicSeq ((Dict.get? newest cp.sourceNodeId).getD cp.monotonicSeq))) []

/-- `sorted(checkpoints, key=lambda c: (c.source_node_id, c.monotonic_seq))`. -/
def sortCheckpoints (checkpoints : List Checkpoint) : List Checkpoint :=
  checkpoints.insertionSort (fun a b =>
    a.sourceNodeId < b.sourceNodeId
      ∨ a.sourceNodeId = b.sourceNodeId ∧ a.monotonicSeq ≤ b.monotonicSeq)

/-- The break one checkpoint finds: against its node's rows, or, for a node with no rows, at its
    newest checkpoint. -/
def checkpointFound (byNode : List (String × List (String × AuditRow)))
    (newest : List (String × Int)) (isPartial : Bool) (cp : Checkpoint) : Option Break :=
  match nodeIndex (Dict.values ((Dict.get? byNode cp.sourceNodeId).getD [])) with
  | none =>
    if isPartial = false ∧ Dict.get? newest cp.sourceNodeId = some cp.monotonicSeq then
      some (cp.monotonicSeq, .noRows cp.sourceNodeId cp.monotonicSeq)
    else none
  | some node => checkpointBreak node cp isPartial

/-! ## The whole verification -/

/-- The lowest break on any node, in the order of the nodes. -/
def nodeBreaks (byNode : List (String × List (String × AuditRow))) : List (Option Break) :=
  ((Dict.keys byNode).insertionSort (· ≤ ·)).map (fun node =>
    firstBreak check (sortBySeq (Dict.values ((Dict.get? byNode node).getD []))))

/-- `first` at the end of `verify_chain`. -/
def chainBreak (rows : List AuditRow) (checkpoints : List Checkpoint) (isPartial : Bool) :
    Option Break :=
  let deduped := dedupe check rows
  let first := (nodeBreaks check deduped.byNode).foldl lower none
  let first := lower first deduped.dup
  ((sortCheckpoints checkpoints).map (checkpointFound deduped.byNode
    (newestCheckpoints checkpoints) isPartial)).foldl lower first

def verifyChain (rows : List AuditRow) (checkpoints : List Checkpoint) (isPartial : Bool) :
    ChainVerifyResult :=
  if rows = [] ∧ (isPartial = true ∨ checkpoints = []) then ⟨true, 0, none, none⟩
  else
    match chainBreak check rows checkpoints isPartial with
    | some (seq, reason) => ⟨false, rows.length, some seq, some reason⟩
    | none => ⟨true, rows.length, none, none⟩

end

end Fasten
