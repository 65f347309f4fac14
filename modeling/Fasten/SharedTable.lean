import Fasten.GoJson.Canonical
import Fasten.GoRow.RoundTrip
import Fasten.Purge
import Fasten.PyJson

set_option autoImplicit false

/-! # One SQLite table, two stores

The audit table as fasten-core's `SqliteStore` (`fasten-core/src/store/sqlite.rs`) and Python's
`SQLiteStore` (`python/fasten/store/sqlite.py`) both write it. The time columns and `detail` are
texts here, since the stores write them separately and the readers parse them. A call that fails
rolls back, so it leaves the table as it was. -/

namespace Fasten.SharedTable

open JsonText

/-! ## Rows -/

/-- The columns both stores take from a row as they are. -/
structure Columns where
  id : String
  originId : String
  timestamp : String
  code : String
  action : String
  severity : String
  serviceId : String
  sourceNodeId : String
  tenantId : Option String
  actor : String
  actorKind : String
  target : String
  category : String
  domain : String
  method : String
  requestId : String
  shippedAt : Option String
  wireVersion : String

/-- fasten-core's `Row`. Its `detail` is an object or null, with the tokens of its numbers. -/
structure CoreRow extends Columns where
  monotonicSeq : UInt64
  detail : Option (List (String × JsonTree Numeral String))
  piiInDetail : Bool
  prevHash : Option String
  hash : Option String
  canonicalFormId : Option String
  detailSalt : Option String
  detailCommitment : Option String

/-- A row of the table. -/
structure Row extends Columns where
  monotonicSeq : Int
  detail : List Char
  piiInDetail : Int
  prevHash : String
  hash : String
  canonicalFormId : String
  detailSalt : String
  detailCommitment : String

/-- Which SDK created the table: each `migrate` adds only columns of the chain to one that exists. -/
inductive Creator where
  | core
  | go
  | python
  deriving DecidableEq

/-- The table has `wire_version` and `pii_in_detail`, which fasten-core's `INSERT` names. -/
def Creator.wireColumns : Creator → Bool
  | .core => true
  | .go => true
  | .python => false

/-- `UNIQUE (source_node_id, monotonic_seq)`. -/
def Creator.uniqueSeq : Creator → Bool
  | .core => true
  | .go => true
  | .python => false

/-- What the stores meet besides the rows: the table's constraints, and
    `SQLITE_MAX_VARIABLE_NUMBER`. -/
structure Database where
  creator : Creator
  maxVariables : Nat

def hasId (rows : List Row) (id : String) : Bool := rows.any (fun r => r.id == id)

/-- The table's constraint refuses a second row with the node and seq of `row`. -/
def Database.clashes (db : Database) (rows : List Row) (row : Row) : Bool :=
  db.creator.uniqueSeq && rows.any (fun r =>
    r.sourceNodeId == row.sourceNodeId && r.monotonicSeq == row.monotonicSeq)

/-- `SELECT COALESCE(MAX(monotonic_seq), 0) .. WHERE source_node_id = ?`, and one more. -/
def nextSeq (rows : List Row) (node : String) : Int :=
  (((rows.filter (·.sourceNodeId == node)).map (·.monotonicSeq)).max?).getD 0 + 1

/-! ## fasten-core's store -/

namespace Core

def unsealed (row : CoreRow) : CoreRow :=
  { row with
    prevHash := none
    hash := none
    canonicalFormId := none
    detailSalt := none
    detailCommitment := none }

def detailTree (row : CoreRow) : JsonTree Numeral String := row.detail.elim .null .obj

/-- The values `insert_row` binds. `serde_json::to_string` escapes what `json.dumps` does with
    `ensure_ascii=False`. -/
def bound (row : CoreRow) (seq : Int) : Row :=
  { row.toColumns with
    monotonicSeq := seq
    detail := write (textWriter unicodeEscape []) (detailTree row)
    piiInDetail := if row.piiInDetail then 1 else 0
    prevHash := row.prevHash.getD ""
    hash := row.hash.getD ""
    canonicalFormId := row.canonicalFormId.getD "1"
    detailSalt := row.detailSalt.getD ""
    detailCommitment := row.detailCommitment.getD "" }

/-- `INSERT .. ON CONFLICT (id) DO NOTHING`; `none` is an error, `SeqClash` among them. -/
def insertRow (db : Database) (rows : List Row) (row : CoreRow) (seq : Int) :
    Option (List Row) :=
  if db.creator.wireColumns = false then none
  else if hasId rows row.id then some rows
  else if db.clashes rows (bound row seq) then none
  else some (rows ++ [bound row seq])

/-- `insert`. One past the largest `INTEGER` is a `REAL`, which `r.get` refuses. -/
def insert (db : Database) (rows : List Row) (row : CoreRow) : Option (List Row) :=
  if row.monotonicSeq ≠ 0 then insertRow db rows row row.monotonicSeq.toInt64.toInt
  else if hasId rows row.id then some rows
  else if maxSeq < nextSeq rows row.sourceNodeId then none
  else insertRow db rows (unsealed row) (nextSeq rows row.sourceNodeId)

/-- `Utc::now().format("%Y-%m-%dT%H:%M:%S%.3fZ")`. -/
def shippedTs (now : Datetime) : String :=
  String.ofList (secondsText now ++ '.' :: (TextCodec.digits 10 3 (now.microsecond / 1000)
    ++ ['Z']))

/-- `mark_shipped`, in one statement with a variable for the time and one for each id. -/
def markShipped (db : Database) (rows : List Row) (ids : List String) (now : Datetime) :
    Option (List Row) :=
  if ids = [] then some rows
  else if db.maxVariables < ids.length + 1 then none
  else some (rows.map (fun r =>
    if r.id ∈ ids then { r with shippedAt := some (shippedTs now) } else r))

end Core

/-! ## Python's store -/

/-- The values `_insert_row_core` binds. `wire_version` and `pii_in_detail` are not among them: their
    columns, if the table has them, get the defaults. -/
def bound (row : AuditRow) : Row where
  id := row.id
  originId := row.originId
  timestamp := canonicalTs row.timestamp
  code := row.code
  action := row.action
  severity := row.severity
  serviceId := row.serviceId
  sourceNodeId := row.sourceNodeId
  tenantId := row.tenantId
  actor := row.actor
  actorKind := row.actorKind
  target := row.target
  category := row.category
  domain := row.domain
  method := row.method
  requestId := row.requestId
  detail := dumps spacedAscii (AuditRow.optDict row.detail)
  piiInDetail := 0
  shippedAt := row.shippedAt.map canonicalTs
  wireVersion := "1"
  monotonicSeq := row.monotonicSeq
  prevHash := row.prevHash
  hash := row.hash
  canonicalFormId := row.formId
  detailSalt := row.detailSalt.getD ""
  detailCommitment := row.detailCommitment.getD ""

/-- `INSERT OR IGNORE`. -/
def insertRowCore (db : Database) (rows : List Row) (row : AuditRow) : List Row :=
  if hasId rows row.id || db.clashes rows (bound row) then rows
  else rows ++ [bound row]

/-- One step of `ORDER BY monotonic_seq DESC LIMIT 1` over sealed rows. -/
def higherSealed (best : Option Row) (row : Row) : Option Row :=
  if row.hash = "" then best
  else
    match best with
    | none => some row
    | some b => if b.monotonicSeq ≤ row.monotonicSeq then some row else some b

def nextPrevHash (rows : List Row) (node : String) : String :=
  match (rows.filter (·.sourceNodeId == node)).foldl higherSealed none with
  | some tip => tip.hash
  | none => "genesis"

/-- `json.dumps` refuses an `int` of more than 4300 digits. -/
def writes (v : Json) : Bool :=
  v.tree.nums.all fun t => decide ((t.text.filter Char.isDigit).length ≤ 4300)

/-- `allocate_and_insert_originated`; `none` is the `ValueError` for a row with another `origin_id`
    or with a number that is not written, or the `OverflowError` for a seq that is no `INTEGER`. -/
def allocateAndInsertOriginated (H : Sha256) (db : Database) (rows : List Row) (token : Token)
    (row : AuditRow) : Option (List Row) :=
  if row.originId ≠ row.id then none
  else if maxSeq < nextSeq rows row.sourceNodeId then none
  else if writes (AuditRow.optDict row.detail) = false then none
  else some (insertRowCore db rows (sealRow H token (nextPrevHash rows row.sourceNodeId)
    { row with monotonicSeq := nextSeq rows row.sourceNodeId }))

/-- `mark_shipped`, one statement for each id. -/
def markShipped (rows : List Row) (ids : List String) (now : Datetime) : List Row :=
  ids.foldl (fun rows id => rows.map (fun r =>
    if r.id = id then { r with shippedAt := some (canonicalTs now) } else r)) rows

/-- `redact_rows`, with a variable for each id. -/
def redactRows (db : Database) (rows : List Row) (ids : List String) : Option (List Row) :=
  if ids = [] then some rows
  else if db.maxVariables < ids.length then none
  else some (rows.map (fun r =>
    if r.id ∈ ids ∧ (r.canonicalFormId = "2" ∨ r.hash = "") then
      { r with detail := "null".toList, detailSalt := "" }
    else r))

/-- The columns that a purge reads. -/
def purgeRow (r : Row) : Purge.Row String String :=
  ⟨r.id, r.sourceNodeId, r.monotonicSeq, r.timestamp, r.shippedAt⟩

/-- `purge`: the rows whose ids the statement leaves. -/
def purge (rows : List Row) (before : Datetime) (respectUnshipped : Bool) : Option (List Row) :=
  (Purge.run (canonicalTs before) respectUnshipped (rows.map purgeRow) .sqlite
    (rows.length + 1)).map (fun left => rows.filter (fun r => left.any (fun p => p.id == r.id)))

/-! ## Reading -/

/-- `parse_canonical(r["shipped_at"]) if r["shipped_at"] else None`; the outer `none` is the
    `ValueError`. -/
def readShippedAt : Option String → Option (Option Datetime)
  | none => some none
  | some text => if text = "" then some none else (parseCanonical text).map some

/-- `json.loads(r["detail"])`, of an object or null; the outer `none` is the `ValueError`. -/
def readDetail (text : List Char) : Option (Option (List (String × Json))) :=
  match jsonLoads text with
  | some .null => some none
  | some (.obj members) => some (some members)
  | _ => none

/-- `_row`. `none` is the `ValueError` of `parse_canonical` or `json.loads`, or that of
    `__post_init__` for one of the four fields that an audit row needs. -/
def row (r : Row) : Option AuditRow := do
  let timestamp ← parseCanonical r.timestamp
  let detail ← readDetail r.detail
  let shippedAt ← readShippedAt r.shippedAt
  if h : r.code ≠ "" ∧ r.requestId ≠ "" ∧ r.serviceId ≠ "" ∧ r.sourceNodeId ≠ "" then
    some
      { id := r.id, originId := r.originId, monotonicSeq := r.monotonicSeq,
        timestamp := timestamp, code := r.code, action := r.action, severity := r.severity,
        serviceId := r.serviceId, sourceNodeId := r.sourceNodeId, tenantId := r.tenantId,
        actor := r.actor, actorKind := r.actorKind, target := r.target,
        category := r.category, domain := r.domain, method := r.method,
        requestId := r.requestId, detail := detail, wireVersion := "1",
        shippedAt := shippedAt, canonicalFormId := r.canonicalFormId,
        prevHash := r.prevHash, hash := r.hash, detailSalt := orNone (some r.detailSalt),
        detailCommitment := orNone (some r.detailCommitment), hasCode := h.1,
        hasRequestId := h.2.1, hasServiceId := h.2.2.1, hasSourceNodeId := h.2.2.2 }
  else none

/-- The columns as Go's queries name them. -/
def Row.goColumns (r : Row) : Go.Columns String where
  id := r.id
  originId := r.originId
  monotonicSeq := r.monotonicSeq
  timestamp := r.timestamp
  code := r.code
  action := r.action
  severity := r.severity
  serviceId := r.serviceId
  sourceNodeId := r.sourceNodeId
  tenantId := r.tenantId
  actor := r.actor
  actorKind := r.actorKind
  target := r.target
  category := r.category
  domain := r.domain
  method := r.method
  requestId := r.requestId
  detail := r.detail
  piiInDetail := r.piiInDetail
  shippedAt := r.shippedAt
  wireVersion := r.wireVersion
  hash := r.hash
  prevHash := r.prevHash
  canonicalFormId := r.canonicalFormId
  detailSalt := r.detailSalt
  detailCommitment := r.detailCommitment

/-- `scanRows` (`go/store.go`). -/
def scanRow (r : Row) : Option Go.Row := Go.SQLite.scanRows r.goColumns

/-! ## Runs -/

/-- The calls on the table. The clock and `secrets.token_hex` are their last parameters. -/
inductive Op where
  | coreInsert (row : CoreRow)
  | coreMarkShipped (ids : List String) (now : Datetime)
  | allocateAndInsertOriginated (row : AuditRow) (token : Token)
  | markShipped (ids : List String) (now : Datetime)
  | redactRows (ids : List String)
  | purge (before : Datetime) (respectUnshipped : Bool)

/-- What a call does to the rows; `none` when it fails. -/
def Op.call (H : Sha256) (db : Database) (rows : List Row) : Op → Option (List Row)
  | .coreInsert row => Core.insert db rows row
  | .coreMarkShipped ids now => Core.markShipped db rows ids now
  | .allocateAndInsertOriginated row token =>
    SharedTable.allocateAndInsertOriginated H db rows token row
  | .markShipped ids now => some (SharedTable.markShipped rows ids now)
  | .redactRows ids => SharedTable.redactRows db rows ids
  | .purge before respectUnshipped => SharedTable.purge rows before respectUnshipped

def step (H : Sha256) (db : Database) (rows : List Row) (op : Op) : List Row :=
  (op.call H db rows).getD rows

def run (H : Sha256) (db : Database) (ops : List Op) : List Row := ops.foldl (step H db) []

end Fasten.SharedTable
