import Fasten.Verify

set_option autoImplicit false

/-! # The Go verifier

`VerifyChainWithCheckpoints` (`go/verify.go`, `go/checkpoints.go`): one walk over the rows of all
nodes, sorted by seq and node, that carries the state of each node in maps. A Go `Row` is taken as
an `AuditRow`; its seq is an `int64`, so arithmetic on it wraps. A `*VerifyResult` that reports a
break is a `Break`, and `nil` or an `OK` result is none. The check of a single row (`rowBreak`) is
the parameter `check`. -/

namespace Fasten.Go

open Scan (lower)

/-- An `int64` result of arithmetic. -/
def wrap (n : Int) : Int := Int.bmod n (2 ^ 64)

theorem wrap_of_inInt64 {n : Int} (h : InInt64 n) : wrap n = n := by
  unfold InInt64 at h
  simp only [wrap, Int.bmod_def]
  norm_num at *
  omega

theorem inInt64_wrap (n : Int) : InInt64 (wrap n) := by
  have hlow := Int.le_bmod (x := n) (m := 2 ^ 64) (by decide)
  have hhigh := Int.bmod_lt (x := n) (m := 2 ^ 64) (by decide)
  norm_num at hlow hhigh
  exact ⟨by unfold wrap; norm_num; omega, by unfold wrap; norm_num; omega⟩

structure VerifyResult where
  ok : Bool
  totalRows : Nat
  firstBreakAt : Int
  reason : Option Reason
  deriving DecidableEq

/-- A map key made of a node and a text. -/
def nodeKey (node text : String) : String := node ++ "\x00" ++ text

section

variable (check : AuditRow → Option Reason)

/-! ## One copy per row id -/

/-- The state of the deduplication loop: the rows kept, where each one is, and the lowest break
    between two sealed copies. -/
structure Deduped where
  sorted : List AuditRow
  kept : List (String × Nat)
  dup : Option Break

/-- One turn of the loop. An index in `kept` is always one of `sorted`. -/
def dedupeStep (state : Deduped) (row : AuditRow) : Deduped :=
  let key := nodeKey row.sourceNodeId row.id
  match Dict.get? state.kept key with
  | none =>
    { state with
      kept := Dict.set state.kept key state.sorted.length
      sorted := state.sorted ++ [row] }
  | some i =>
    match state.sorted[i]? with
    | none => state
    | some old =>
      if old.hash = "" ∧ row.hash ≠ "" then { state with sorted := state.sorted.set i row }
      else if old.hash ≠ "" ∧ row.hash ≠ "" then
        let reason := if row.hash ≠ old.hash then some (.differentCopies row.id) else check row
        { state with
          dup := lower state.dup
            (reason.map (fun why => (min row.monotonicSeq old.monotonicSeq, why))) }
      else state

def dedupe (rows : List AuditRow) : Deduped := rows.foldl (dedupeStep check) ⟨[], [], none⟩

/-! ## The walk -/

/-- The order of the walk: by seq, then node. -/
def less (a b : AuditRow) : Bool :=
  if a.monotonicSeq ≠ b.monotonicSeq then decide (a.monotonicSeq < b.monotonicSeq)
  else decide (a.sourceNodeId < b.sourceNodeId)

/-- `sort.SliceStable`. -/
def sliceStable (rows : List AuditRow) : List AuditRow :=
  rows.insertionSort (fun a b => less b a = false)

/-- The first sealed seq of each node, in the order of the walk. -/
def firstSealed (sorted : List AuditRow) : List (String × Int) :=
  sorted.foldl (fun first row =>
    if row.hash ≠ "" ∧ (Dict.get? first row.sourceNodeId).isNone then
      Dict.set first row.sourceNodeId row.monotonicSeq
    else first) []

/-- The checks of a row against the one before it on its node. -/
def linkBreak (prev : Option AuditRow) (row : AuditRow) : Option Reason :=
  match prev with
  | none => none
  | some prev =>
    if prev.hash ≠ "" ∧ row.prevHash ≠ prev.hash then some (.prevHashMismatch row.id prev.id)
    else if prev.hash = "" ∧ prev.monotonicSeq = wrap (row.monotonicSeq - 1)
        ∧ row.prevHash ≠ "genesis" then some (.notGenesis row.id)
    else none

/-- The second loop of `walkChains`: `last` has each node's last row, `seenSeq` the ids of sealed
    rows by node and seq. -/
def walk (first : List (String × Int)) :
    List (String × AuditRow) → List (String × String) → List AuditRow → Option Break
  | _, _, [] => none
  | last, seenSeq, row :: rest =>
    let prev := Dict.get? last row.sourceNodeId
    let last := Dict.set last row.sourceNodeId row
    if row.hash = "" then
      if ∃ seq ∈ Dict.get? first row.sourceNodeId, seq ≤ row.monotonicSeq then
        some (row.monotonicSeq, .noHash row.id)
      else walk first last seenSeq rest
    else
      let seqKey := nodeKey row.sourceNodeId (String.ofList (intText row.monotonicSeq))
      let other := (Dict.get? seenSeq seqKey).getD row.id
      if other ≠ row.id then
        some (row.monotonicSeq,
          .duplicateSeq row.monotonicSeq row.sourceNodeId other row.id)
      else
        match check row with
        | some reason => some (row.monotonicSeq, reason)
        | none =>
          match linkBreak prev row with
          | some reason => some (row.monotonicSeq, reason)
          | none => walk first last (Dict.set seenSeq seqKey row.id) rest

def walkChains (rows : List AuditRow) : Option Break :=
  let sorted := sliceStable rows
  walk check (firstSealed sorted) [] [] sorted

end

/-! ## Checkpoints -/

/-- The highest seq checkpointed for each node. -/
def newestCheckpoints (checkpoints : List Checkpoint) : List (String × Int) :=
  checkpoints.foldl (fun newest cp =>
    if ∃ seq ∈ Dict.get? newest cp.sourceNodeId, cp.monotonicSeq ≤ seq then newest
    else Dict.set newest cp.sourceNodeId cp.monotonicSeq) []

/-- One row more in its node's index. -/
def addRow (index : Option NodeIndex) (row : AuditRow) : NodeIndex :=
  let n := index.getD ⟨[], row.monotonicSeq, row.monotonicSeq⟩
  { bySeq := Dict.set n.bySeq row.monotonicSeq
      ((Dict.get? n.bySeq row.monotonicSeq).getD [] ++ [row])
    lowest := min n.lowest row.monotonicSeq
    highest := max n.highest row.monotonicSeq }

/-- The rows of the checkpointed nodes. -/
def indexRows (newest : List (String × Int)) (rows : List AuditRow) : List (String × NodeIndex) :=
  rows.foldl (fun index row =>
    if (Dict.get? newest row.sourceNodeId).isNone then index
    else Dict.set index row.sourceNodeId (addRow (Dict.get? index row.sourceNodeId) row)) []

def checkpointMismatch (n : NodeIndex) (cp : Checkpoint) (isPartial : Bool) : Option Break :=
  let seq := cp.monotonicSeq
  let rowsAt := (Dict.get? n.bySeq seq).getD []
  if rowsAt.any (fun r => r.hash = cp.hash) then none
  else
    match (rowsAt.map (·.id)).min? with
    | some id => some (seq, .checkpointDiffers id seq)
    | none =>
      if n.highest < seq ∧ isPartial then none
      else if n.highest < seq then
        some (wrap (n.highest + 1), .chainEnds cp.sourceNodeId n.highest seq)
      else if seq < n.lowest ∧ isPartial then none
      else if seq < n.lowest then some (n.lowest, .rowsStart cp.sourceNodeId n.lowest seq)
      else some (seq, .noRowAt cp.sourceNodeId seq)

/-- The break one checkpoint finds. -/
def checkpointFound (index : List (String × NodeIndex)) (newest : List (String × Int))
    (isPartial : Bool) (cp : Checkpoint) : Option Break :=
  match Dict.get? index cp.sourceNodeId with
  | some n => checkpointMismatch n cp isPartial
  | none =>
    if isPartial = false ∧ Dict.get? newest cp.sourceNodeId = some cp.monotonicSeq then
      some (cp.monotonicSeq, .noRows cp.sourceNodeId cp.monotonicSeq)
    else none

def checkpointBreak (rows : List AuditRow) (checkpoints : List Checkpoint) (isPartial : Bool) :
    Option Break :=
  if checkpoints = [] then none
  else
    let newest := newestCheckpoints checkpoints
    let index := indexRows newest rows
    ((sortCheckpoints checkpoints).map (checkpointFound index newest isPartial)).foldl lower none

/-! ## The whole verification -/

/-- The break that is left after the walk, the copies and the checkpoints. `walkChains` sorts the
    slice in place, so the checkpoints see the rows in its order. -/
def chainBreak (check : AuditRow → Option Reason) (rows : List AuditRow)
    (checkpoints : List Checkpoint) (isPartial : Bool) : Option Break :=
  let deduped := dedupe check rows
  let res := lower (walkChains check deduped.sorted) deduped.dup
  lower res (checkpointBreak (sliceStable deduped.sorted) checkpoints isPartial)

def verifyChainWithCheckpoints (check : AuditRow → Option Reason) (rows : List AuditRow)
    (checkpoints : List Checkpoint) (isPartial : Bool) : VerifyResult :=
  if rows = [] ∧ (isPartial = true ∨ checkpoints = []) then ⟨true, 0, 0, none⟩
  else
    match chainBreak check rows checkpoints isPartial with
    | some (seq, reason) => ⟨false, rows.length, seq, some reason⟩
    | none => ⟨true, rows.length, 0, none⟩

end Fasten.Go
