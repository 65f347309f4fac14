import Fasten.GoInstant
import Fasten.GoJson
import Fasten.RowHash

set_option autoImplicit false

/-! # Go rows

`Row` (`go/fasten.go`) and its hash forms, `Seal` and `rowBreak` (`go/verify.go`, spec §1). -/

namespace Fasten.Go

open JsonText

/-- An audit row. An empty text stands for a field that is not set. -/
structure Row where
  wireVersion : String
  id : String
  originId : String
  monotonicSeq : Int
  timestamp : Instant
  code : String
  action : String
  severity : String
  serviceId : String
  sourceNodeId : String
  tenantId : Option String
  actor : String
  actorKind : String
  target : String
  category : String
  domain : String
  method : String
  requestId : String
  detail : Option Object
  piiInDetail : Bool
  shippedAt : Option Instant
  canonicalFormId : String
  prevHash : String
  hash : String
  detailSalt : String
  detailCommitment : String

namespace Row

/-- A row without the field predates it, so it is form `"1"`. -/
def formId (row : Row) : String :=
  if row.canonicalFormId = "" then "1" else row.canonicalFormId

def wire (row : Row) : String := if row.wireVersion = "" then "1" else row.wireVersion

/-- A nil `detail` is hashed as an empty map. -/
def detailValue (row : Row) : Value :=
  match row.detail with
  | none => .obj []
  | some o => o.value

/-! ## The hashed maps -/

/-- The map of `pyCanonicalRowMap`, by key, with the entries that the forms hash differently. -/
def rowMap (row : Row) (detail : String × Value) (timestamp : String) (shippedAt : Value) : Value :=
  .obj
    [("action", .str row.action), ("actor", .str row.actor), ("actor_kind", .str row.actorKind),
      ("canonical_form_id", .str row.formId), ("category", .str row.category),
      ("code", .str row.code), detail, ("domain", .str row.domain), ("id", .str row.id),
      ("method", .str row.method), ("monotonic_seq", .num (.int64 row.monotonicSeq)),
      ("origin_id", .str row.originId), ("prev_hash", .str row.prevHash),
      ("request_id", .str row.requestId), ("service_id", .str row.serviceId),
      ("severity", .str row.severity), ("shipped_at", shippedAt),
      ("source_node_id", .str row.sourceNodeId), ("target", .str row.target),
      ("tenant_id", match row.tenantId with | none => .null | some tenant => .str tenant),
      ("timestamp", .str timestamp), ("wire_version", .str row.wire)]

def pyCanonicalRowMap (row : Row) : Value :=
  rowMap row ("detail", row.detailValue) row.timestamp.pyISOFormat .null

/-- The entry form `"2"` has for `detail`. -/
def commitmentEntry (row : Row) : String × Value :=
  ("detail_commitment", .str row.detailCommitment)

/-- `canonicalJSON`, or `canonicalJSONRawDEL` with DEL left raw. -/
def canon (escapeDEL : Bool) : Value → ByteArray :=
  if escapeDEL then canonicalJSON else canonicalJSONRawDEL

section Hash

variable (H : Sha256)

def rowHashForm1With (row : Row) (escapeDEL : Bool) : String :=
  H.hexdigest (canon escapeDEL (pyCanonicalRowMap row))

/-- Form `"1"` as Python sealed it before the timestamp fix. -/
def rowHashForm1LegacyZ (row : Row) (escapeDEL : Bool) : String :=
  H.hexdigest (canon escapeDEL
    (rowMap row ("detail", row.detailValue) row.timestamp.canonicalTS .null))

def rowHashForm2With (row : Row) (escapeDEL : Bool) : String :=
  H.hexdigest (canon escapeDEL (rowMap row (commitmentEntry row) row.timestamp.canonicalTS .null))

/-- `hashFnByForm`. -/
def hashFn (form : Form) (row : Row) (escapeDEL : Bool) : String :=
  match form with
  | .one => rowHashForm1With H row escapeDEL
  | .two => rowHashForm2With H row escapeDEL

/-- Hashes of a row sealed with `ShippedAt` already set. -/
def rowHashesOverShippedAt (row : Row) (shippedAt : Instant) (form : Form) (escapeDEL : Bool) :
    List String :=
  let hash (d : Value) := H.hexdigest (canon escapeDEL d)
  match form with
  | .one =>
    [hash (rowMap row ("detail", row.detailValue) row.timestamp.pyISOFormat
        (.str shippedAt.pyISOFormat)),
      hash (rowMap row ("detail", row.detailValue) row.timestamp.canonicalTS
        (.str shippedAt.canonicalTS))]
  | .two =>
    [hash (rowMap row (commitmentEntry row) row.timestamp.canonicalTS
      (.str shippedAt.canonicalTS))]

def detailCommitmentWith (salt : String) (detail : Value) (escapeDEL : Bool) : String :=
  H.hexdigest (salt.toUTF8 ++ canon escapeDEL detail)

/-- `Seal`. A row that has a salt keeps it. -/
def sealRow (token : Token) (prevHash : String) (row : Row) : Row :=
  let salt := if row.detailSalt = "" then token.val else row.detailSalt
  let stamped : Row :=
    { row with
      canonicalFormId := currentCanonicalFormId
      prevHash := prevHash
      detailSalt := salt
      detailCommitment := detailCommitmentWith H salt row.detailValue true }
  { stamped with hash := rowHashForm2With H stamped true }

/-! ## The check of one sealed row -/

/-- Whether any string the row hashes holds DEL. -/
def hasDEL (row : Row) : Bool := (encodeJSON (pyCanonicalRowMap row)).contains '\x7f'

/-- A check is retried with DEL raw on a miss, for a row that holds DEL. -/
def matchesCanon (row : Row) (check : Bool → Bool) : Bool :=
  check true || (hasDEL row && check false)

def hashMatches (row : Row) (form : Form) (escapeDEL : Bool) : Bool :=
  decide (hashFn H form row escapeDEL = row.hash)
    || (decide (form = .one) && decide (rowHashForm1LegacyZ H row escapeDEL = row.hash))
    || (match row.shippedAt with
      | none => false
      | some shippedAt =>
        decide (row.hash ∈ rowHashesOverShippedAt H row shippedAt form escapeDEL))

/-- The commitment part of `rowBreak`. -/
def detailBreak (row : Row) (form : Form) : Option Reason :=
  match form, row.detail with
  | .two, some detail =>
    if row.detailSalt = "" then some (.missingSalt row.id)
    else if matchesCanon row (fun escapeDEL =>
        decide (detailCommitmentWith H row.detailSalt detail.value escapeDEL
          = row.detailCommitment)) then none
    else some (.commitmentMismatch row.id)
  | _, _ => none

def rowBreak (row : Row) : Option Reason :=
  match Form.ofId row.formId with
  | none => some (.unknownForm row.id row.formId)
  | some form =>
    match detailBreak H row form with
    | some reason => some reason
    | none =>
      if matchesCanon row (hashMatches H row form) then none else some (.hashMismatch row.id)

end Hash

end Row

end Fasten.Go
