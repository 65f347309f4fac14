import Fasten.Lib.Sql
import Fasten.Store

set_option autoImplicit false

/-! # Purge (spec §2.3)

`purge_sql` writes one statement that deletes the old rows of every node up to the first one it has
to keep. The three SDKs each build its text; `Purge.text` is that text again, from the parts whose
meaning is `Purge.run`. Node ids and timestamps are any ordered types: the texts of a column under
the database's collation, or its instants where the column has a time type. -/

namespace Fasten

open Sql

/-! ## The text, as each SDK builds it -/

section

variable {η : Type}

/-- `keep` of Python's `purge_sql`. -/
def purgeSqlKeep (param : Text η) (respectUnshipped : Bool) : Text η :=
  "timestamp >= " ++ param ++ (if respectUnshipped then " OR shipped_at IS NULL" else "")

/-- Its `bound`. -/
def purgeSqlBound (table keep : Text η) : Text η :=
  "WITH RECURSIVE nodes(node) AS (" ++
  "SELECT MIN(source_node_id) FROM " ++ table ++ " UNION ALL " ++
  "SELECT (SELECT MIN(source_node_id) FROM " ++ table ++ " WHERE source_node_id > node) " ++
  "FROM nodes WHERE node IS NOT NULL), " ++
  "bound AS (SELECT node, COALESCE(" ++
  "(SELECT monotonic_seq FROM " ++ table ++ " WHERE source_node_id = node " ++
  "AND monotonic_seq > 0 AND (" ++ keep ++ ") ORDER BY monotonic_seq LIMIT 1), " ++
  toString maxSeq ++ ") AS keep_from FROM nodes WHERE node IS NOT NULL LIMIT " ++
  toString maxSeq ++ ") "

/-- Its `match`. -/
def purgeSqlMatch (param : Text η) (respectUnshipped : Bool) : Text η :=
  let shipped : Text η := if respectUnshipped then " AND d.shipped_at IS NOT NULL" else ""
  "d.source_node_id = bound.node AND d.monotonic_seq < bound.keep_from " ++
  "AND d.timestamp < " ++ param ++ shipped

/-- Python's `purge_sql`. -/
def purgeSql (table param : Text η) (respectUnshipped postgres : Bool) : Text η :=
  let bound := purgeSqlBound table (purgeSqlKeep param respectUnshipped)
  let matches_ := purgeSqlMatch param respectUnshipped
  if postgres then bound ++ "DELETE FROM " ++ table ++ " AS d USING bound WHERE " ++ matches_
  else "DELETE FROM " ++ table ++ " WHERE id IN (" ++ bound ++ "SELECT d.id FROM bound, " ++ table
    ++ " AS d WHERE " ++ matches_ ++ ")"

/-- Go's `purgeSQL`. -/
def Go.purgeSQL (table param : Text η) (respectUnshipped postgres : Bool) : Text η :=
  let (keep, shipped) : Text η × Text η :=
    if respectUnshipped then
      ("timestamp >= " ++ param ++ " OR shipped_at IS NULL", " AND d.shipped_at IS NOT NULL")
    else ("timestamp >= " ++ param, "")
  let bound : Text η :=
    "WITH RECURSIVE nodes(node) AS (" ++
    "SELECT MIN(source_node_id) FROM " ++ table ++ " UNION ALL " ++
    "SELECT (SELECT MIN(source_node_id) FROM " ++ table ++ " WHERE source_node_id > node) " ++
    "FROM nodes WHERE node IS NOT NULL), " ++
    "bound AS (SELECT node, COALESCE(" ++
    "(SELECT monotonic_seq FROM " ++ table ++ " WHERE source_node_id = node " ++
    "AND monotonic_seq > 0 AND (" ++ keep ++ ") ORDER BY monotonic_seq LIMIT 1), " ++
    toString maxSeq ++ ") AS keep_from FROM nodes WHERE node IS NOT NULL LIMIT " ++
    toString maxSeq ++ ") "
  let matches_ : Text η :=
    "d.source_node_id = bound.node AND d.monotonic_seq < bound.keep_from " ++
    "AND d.timestamp < " ++ param ++ shipped
  if postgres then bound ++ "DELETE FROM " ++ table ++ " AS d USING bound WHERE " ++ matches_
  else "DELETE FROM " ++ table ++ " WHERE id IN (" ++ bound ++ "SELECT d.id FROM bound, " ++ table
    ++ " AS d WHERE " ++ matches_ ++ ")"

/-- The `purge_sql` of fasten-core. -/
def Core.purgeSql (table param : Text η) (respectUnshipped postgres : Bool) : Text η :=
  let (unshipped, shipped) : Text η × Text η :=
    if respectUnshipped then (" OR shipped_at IS NULL", " AND d.shipped_at IS NOT NULL")
    else ("", "")
  let bound : Text η :=
    "WITH RECURSIVE nodes(node) AS (" ++
    "SELECT MIN(source_node_id) FROM " ++ table ++ " UNION ALL " ++
    "SELECT (SELECT MIN(source_node_id) FROM " ++ table ++ " WHERE source_node_id > node) " ++
    "FROM nodes WHERE node IS NOT NULL), " ++
    "bound AS (SELECT node, COALESCE(" ++
    "(SELECT monotonic_seq FROM " ++ table ++ " WHERE source_node_id = node " ++
    "AND monotonic_seq > 0 AND (" ++ "timestamp >= " ++ param ++ unshipped ++
    ") ORDER BY monotonic_seq LIMIT 1), " ++
    toString maxSeq ++ ") AS keep_from FROM nodes WHERE node IS NOT NULL LIMIT " ++
    toString maxSeq ++ ") "
  let matches_ : Text η :=
    "d.source_node_id = bound.node AND d.monotonic_seq < bound.keep_from " ++
    "AND d.timestamp < " ++ param ++ shipped
  if postgres then bound ++ "DELETE FROM " ++ table ++ " AS d USING bound WHERE " ++ matches_
  else "DELETE FROM " ++ table ++ " WHERE id IN (" ++ bound ++ "SELECT d.id FROM bound, " ++ table
    ++ " AS d WHERE " ++ matches_ ++ ")"

end

/-! ## The table -/

namespace Purge

/-- The columns that a purge reads. -/
structure Row (ν τ : Type) where
  id : String
  sourceNodeId : ν
  monotonicSeq : Int
  timestamp : τ
  shippedAt : Option τ
  deriving DecidableEq, Repr

/-- The audit table. `id` is its primary key, and a table of either database has fewer rows than
    there are 64-bit integers. -/
structure Table (ν τ : Type) where
  rows : List (Row ν τ)
  primaryKey : (rows.map (·.id)).Nodup
  size : rows.length ≤ maxSeq.toNat

variable {ν τ σ : Type}

/-- The names that a caller gives: those of the table and of the cutoff's placeholder. -/
inductive Name where
  | table
  | param
  deriving DecidableEq, Repr

/-- A row of `bound`: `(node, keep_from)`. -/
abbrev Bound (ν : Type) := Option ν × Option Int

/-! ## The statement -/

section

variable [LinearOrder ν] [LinearOrder τ] (cutoff : τ) (respectUnshipped : Bool)
  (rows : List (Row ν τ))

def auditTable : Source Name (Row ν τ) := ⟨.hole .table, rows⟩

def sourceNodeId : Term Name (Row ν τ × σ) ν :=
  .column "source_node_id" (fun r => some r.1.sourceNodeId)

def before : Term Name σ τ := .constant (.hole .param) cutoff

/-- The condition under which a row is kept. -/
def keep : Term Name (Row ν τ × σ) Bool :=
  let recent := (Term.column "timestamp" (fun r => some r.1.timestamp)).ge (before cutoff)
  if respectUnshipped then
    recent.or (Term.isNull (.column "shipped_at" (fun r => r.1.shippedAt)))
  else recent

/-- `node` of a row of `nodes`. -/
def node : Term Name (Option ν × σ) ν := .column "node" (fun r => r.1)

/-- The table of the nodes, each found as the lowest one above the last. -/
def nodes : Recursive Name (Option ν) :=
  recursive "nodes" "node" (selectMin sourceNodeId (auditTable rows) .all) (fun last =>
    select (selectMin sourceNodeId (auditTable rows)
        (.where_ (sourceNodeId.gt (.column "node" (fun r => r.2.1))))).scalar.output
      last (.where_ node.isNotNull))

/-- The lowest seq of a node that is kept. -/
def firstKept : Query Name (Option ν × Unit) (Option Int) :=
  (selectOrdered "monotonic_seq" (fun r => r.1.monotonicSeq) (auditTable rows)
    (.where_ (((sourceNodeId.eq (.column "node" (fun r => r.2.1))).and
      ((Term.column "monotonic_seq" (fun r => some r.1.monotonicSeq)).gt (.constant "0" 0))).and
      (keep cutoff respectUnshipped).paren))).limit 1

/-- For every node, the seq that is kept first, or one above them all. -/
def bound (found : List (Option ν)) : Query Name Unit (Bound ν) :=
  (select (node.output.and
      (((firstKept cutoff respectUnshipped rows).scalar.coalesce
        (.constant (toString maxSeq) maxSeq)).output.as_ "keep_from"))
    ⟨"nodes", found⟩ (.where_ node.isNotNull)).limit maxSeq.toNat

/-- A row below its node's first kept one, and old itself. -/
def matches_ : Term Name (Bound ν × Row ν τ) Bool :=
  let old := (((Term.column "d.source_node_id" (fun r => some r.2.sourceNodeId)).eq
      (.column "bound.node" (fun r => r.1.1))).and
    ((Term.column "d.monotonic_seq" (fun r => some r.2.monotonicSeq)).lt
      (.column "bound.keep_from" (fun r => r.1.2)))).and
    ((Term.column "d.timestamp" (fun r => some r.2.timestamp)).lt (before cutoff))
  if respectUnshipped then
    old.and (Term.isNotNull (.column "d.shipped_at" (fun r => r.2.shippedAt)))
  else old

/-- `WITH RECURSIVE nodes .., bound ..`. -/
def withText : Text Name :=
  "WITH RECURSIVE " ++ (nodes rows).text ++ ", bound AS ("
    ++ (bound cutoff respectUnshipped rows []).text ++ ") "

/-- The statement's text. -/
def text : Dialect → Text Name
  | .postgres => withText cutoff respectUnshipped rows ++ "DELETE FROM " ++ Text.hole Name.table
      ++ " AS d USING bound WHERE "
      ++ (matches_ cutoff respectUnshipped : Term Name (Bound ν × Row ν τ) Bool).text
  | .sqlite => "DELETE FROM " ++ Text.hole Name.table ++ " WHERE id IN ("
      ++ withText cutoff respectUnshipped rows
      ++ "SELECT d.id FROM bound, " ++ Text.hole Name.table ++ " AS d WHERE "
      ++ (matches_ cutoff respectUnshipped : Term Name (Bound ν × Row ν τ) Bool).text ++ ")"

/-- `SELECT d.id FROM bound, table AS d WHERE ..`: SQLite has no `USING`, so it matches ids. -/
def matchingIds (bounds : List (Bound ν)) : List (Option String) :=
  bounds.flatMap (fun b => (rows.filter (fun r =>
    decide ((matches_ cutoff respectUnshipped).Holds (b, r)))).map (fun r => some r.id))

/-- The rows of the table after the statement. -/
def run (dialect : Dialect) (fuel : Nat) : Option (List (Row ν τ)) :=
  ((nodes rows).rows dialect fuel).map (fun found =>
    let bounds := (bound cutoff respectUnshipped rows found).rows ()
    match dialect with
    | .postgres => deleteUsing (matches_ cutoff respectUnshipped) rows bounds
    | .sqlite =>
      deleteIn (·.id) rows (matchingIds cutoff respectUnshipped rows bounds))

end

end Purge

end Fasten
