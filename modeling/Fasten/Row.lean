import Fasten.CanonicalJson
import Fasten.Lib.Dict
import Fasten.Timestamp

set_option autoImplicit false

/-! # Audit rows

`AuditRow` (`python/fasten/attrs.py`) and the dict it is hashed and shipped as. A row is sealed
when its `hash` is set; an unsealed one was written before the chain existed. -/

namespace Fasten

/-- The value of an `int64`. -/
def InInt64 (n : Int) : Prop := -2 ^ 63 ≤ n ∧ n < 2 ^ 63

instance (n : Int) : Decidable (InInt64 n) := inferInstanceAs (Decidable (_ ∧ _))

/-- An audit row. Construction fails without the four fields of `__post_init__`. The keys in
    `detail` are strings at every depth; `json.dumps` makes strings of others, after sorting them. -/
structure AuditRow where
  id : String
  originId : String
  monotonicSeq : Int
  timestamp : Datetime
  code : String
  action : String
  severity : String
  serviceId : String
  sourceNodeId : String
  tenantId : Option String
  actor : String
  actorKind : String
  target : String
  category : String
  domain : String
  method : String
  requestId : String
  /-- `None` after redaction. -/
  detail : Option (List (String × Json))
  wireVersion : String
  shippedAt : Option Datetime
  canonicalFormId : String
  prevHash : String
  hash : String
  detailSalt : Option String
  detailCommitment : Option String
  hasCode : code ≠ ""
  hasRequestId : requestId ≠ ""
  hasServiceId : serviceId ≠ ""
  hasSourceNodeId : sourceNodeId ≠ ""

namespace AuditRow

/-- A new row, with the defaults of the fields that are not given. -/
def create (id originId : String) (monotonicSeq : Int) (timestamp : Datetime)
    (code action severity serviceId sourceNodeId requestId : String) (hasCode : code ≠ "")
    (hasRequestId : requestId ≠ "") (hasServiceId : serviceId ≠ "")
    (hasSourceNodeId : sourceNodeId ≠ "") : AuditRow where
  id := id
  originId := originId
  monotonicSeq := monotonicSeq
  timestamp := timestamp
  code := code
  action := action
  severity := severity
  serviceId := serviceId
  sourceNodeId := sourceNodeId
  tenantId := none
  actor := "system"
  actorKind := "service"
  target := ""
  category := ""
  domain := ""
  method := "sdk"
  requestId := requestId
  detail := some []
  wireVersion := "1"
  shippedAt := none
  canonicalFormId := "1"
  prevHash := "genesis"
  hash := ""
  detailSalt := none
  detailCommitment := none
  hasCode := hasCode
  hasRequestId := hasRequestId
  hasServiceId := hasServiceId
  hasSourceNodeId := hasSourceNodeId

/-- A row of node `edge` to evaluate the model on. -/
def sample (id : String) (monotonicSeq : Int) : AuditRow :=
  create id id monotonicSeq Datetime.epoch "USER_LOGIN" "login" "info" "auth" "edge" "req-1"
    (by decide) (by decide) (by decide) (by decide)

/-- The truth value of `row.hash`. -/
def isSealed (row : AuditRow) : Bool := decide (row.hash ≠ "")

theorem isSealed_iff {row : AuditRow} : row.isSealed = true ↔ row.hash ≠ "" := by
  simp [isSealed]

theorem isSealed_eq_false_iff {row : AuditRow} : row.isSealed = false ↔ row.hash = "" := by
  simp [isSealed]

def optStr : Option String → Json
  | none => .null
  | some s => .str s

def optTs : Option Datetime → Json
  | none => .null
  | some t => .str (canonicalTs t)

def optDict : Option (List (String × Json)) → Json
  | none => .null
  | some members => .obj members

def toDict (row : AuditRow) : List (String × Json) :=
  [("id", .str row.id), ("origin_id", .str row.originId), ("monotonic_seq", .int row.monotonicSeq),
    ("timestamp", .str (canonicalTs row.timestamp)), ("code", .str row.code),
    ("action", .str row.action), ("severity", .str row.severity),
    ("service_id", .str row.serviceId), ("source_node_id", .str row.sourceNodeId),
    ("tenant_id", optStr row.tenantId), ("actor", .str row.actor),
    ("actor_kind", .str row.actorKind), ("target", .str row.target),
    ("category", .str row.category), ("domain", .str row.domain), ("method", .str row.method),
    ("request_id", .str row.requestId), ("detail", optDict row.detail),
    ("wire_version", .str row.wireVersion), ("shipped_at", optTs row.shippedAt),
    ("canonical_form_id", .str row.canonicalFormId), ("prev_hash", .str row.prevHash),
    ("hash", .str row.hash), ("detail_salt", optStr row.detailSalt),
    ("detail_commitment", optStr row.detailCommitment)]

theorem nodup_keys_toDict (row : AuditRow) : (Dict.keys row.toDict).Nodup := by
  have hkeys : Dict.keys row.toDict = ["id", "origin_id", "monotonic_seq", "timestamp", "code",
      "action", "severity", "service_id", "source_node_id", "tenant_id", "actor", "actor_kind",
      "target", "category", "domain", "method", "request_id", "detail", "wire_version",
      "shipped_at", "canonical_form_id", "prev_hash", "hash", "detail_salt",
      "detail_commitment"] := rfl
  rw [hkeys]
  decide

end AuditRow

end Fasten
