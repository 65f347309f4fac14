import Fasten.Row

set_option autoImplicit false

/-! # Row hashing, sealing and the per-row check

The hash forms of `python/fasten/chain.py` (spec §1), `seal`, `redact` and `_row_break`. The digest
is a parameter: nothing here depends on how SHA-256 computes it. -/

namespace Fasten

/-- `hashlib.sha256(..).hexdigest()`. -/
structure Sha256 where
  hexdigest : ByteArray → String
  nonempty : ∀ data, hexdigest data ≠ ""
  hexDigits : ∀ data, ∀ c ∈ (hexdigest data).toList, c ∈ "0123456789abcdef".toList

/-! ## Hash forms -/

/-- The registered forms (`_HASH_FN_BY_FORM`). -/
inductive Form where
  | one
  | two
  deriving DecidableEq

/-- `_HASH_FN_BY_FORM.get(form_id)`. -/
def Form.ofId (formId : String) : Option Form :=
  if formId = "1" then some .one
  else if formId = "2" then some .two
  else none

def currentCanonicalFormId : String := "2"

def form1Excluded : List String := ["hash", "detail_salt", "detail_commitment"]

def form2Excluded : List String := ["hash", "detail", "detail_salt"]

/-- `shipped_at` is hashed as null: `mark_shipped` sets it after sealing. -/
def hashedFields (rowDict : List (String × Json)) (excluded : List String) :
    List (String × Json) :=
  Dict.adjust (Dict.drop rowDict excluded) "shipped_at" (fun _ => .null)

def hashedTsJson : Json → Json
  | .str s => .str (hashedTs s)
  | v => v

def toHashedForm (d : List (String × Json)) : List (String × Json) :=
  Dict.adjust d "timestamp" hashedTsJson

section Hash

variable (H : Sha256)

def rowHashForm1 (rowDict : List (String × Json)) (canon : Canon) : String :=
  H.hexdigest (canon (.obj (toHashedForm (hashedFields rowDict form1Excluded))))

/-- Form `"1"` as Python sealed it before the timestamp fix. -/
def rowHashForm1LegacyZ (rowDict : List (String × Json)) (canon : Canon) : String :=
  H.hexdigest (canon (.obj (hashedFields rowDict form1Excluded)))

def rowHashForm2 (rowDict : List (String × Json)) (canon : Canon) : String :=
  H.hexdigest (canon (.obj (hashedFields rowDict form2Excluded)))

/-- Hashes of a row sealed with `shipped_at` already set. -/
def rowHashesOverShippedAt (form : Form) (rowDict : List (String × Json)) (canon : Canon) :
    List String :=
  match form with
  | .one =>
    let d := Dict.drop rowDict form1Excluded
    let hashed := Dict.adjust (toHashedForm d) "shipped_at" hashedTsJson
    [H.hexdigest (canon (.obj hashed)), H.hexdigest (canon (.obj d))]
  | .two => [H.hexdigest (canon (.obj (Dict.drop rowDict form2Excluded)))]

def Form.hashFn (form : Form) (rowDict : List (String × Json)) (canon : Canon) : String :=
  match form with
  | .one => rowHashForm1 H rowDict canon
  | .two => rowHashForm2 H rowDict canon

/-- `sha256(salt + canonical JSON of detail)` (`_detail_commitment`). -/
def detailCommitment (salt : String) (detail : Json) (canon : Canon) : String :=
  H.hexdigest (salt.toUTF8 ++ canon detail)

/-! ## Sealing and redacting -/

/-- A value of `secrets.token_hex(32)`. -/
abbrev Token := { s : String // s ≠ "" }

/-- `row.detail_salt or secrets.token_hex(32)`. -/
def sealSalt (token : Token) (row : AuditRow) : String :=
  match row.detailSalt with
  | none => token.val
  | some salt => if salt = "" then token.val else salt

/-- `seal`. `_row_hash` dispatches on the form id just stamped, so form `"2"` hashes the row. -/
def sealRow (token : Token) (prevHash : String) (row : AuditRow) : AuditRow :=
  let salt := sealSalt token row
  let stamped : AuditRow :=
    { row with
      canonicalFormId := currentCanonicalFormId
      prevHash := prevHash
      detailSalt := some salt
      detailCommitment := some (detailCommitment H salt (AuditRow.optDict row.detail)
        canonicalJson) }
  { stamped with hash := rowHashForm2 H stamped.toDict canonicalJson }

/-- `redact`: `none` is the `ValueError` for a sealed row of another form than `"2"`. -/
def redact (row : AuditRow) : Option AuditRow :=
  if row.canonicalFormId ≠ "2" ∧ row.isSealed then none
  else some { row with detail := none, detailSalt := none }

/-! ## The check of one sealed row -/

/-- Why a chain breaks. Each reason carries the values its message names. -/
inductive Reason where
  /-- `row {id}: unknown canonical_form_id "{form_id}"` -/
  | unknownForm (id formId : String)
  /-- `row {id}: detail present but detail_salt is missing — commitment cannot be verified` -/
  | missingSalt (id : String)
  /-- `row {id}: detail does not match its commitment` -/
  | commitmentMismatch (id : String)
  /-- `row {id}: hash mismatch` -/
  | hashMismatch (id : String)
  /-- `row {id}: no hash after the node's chain started` -/
  | noHash (id : String)
  /-- `duplicate monotonic_seq {seq} on node {node!r}: rows {first} and {second}. …` -/
  | duplicateSeq (seq : Int) (node first second : String)
  /-- `row {id}: prev_hash does not match preceding row {prev}` -/
  | prevHashMismatch (id prev : String)
  /-- `row {id}: first sealed row does not link to genesis` -/
  | notGenesis (id : String)
  /-- `row {id}: two sealed copies with different hashes` -/
  | differentCopies (id : String)
  /-- `node '{node}': no rows, but checkpointed at seq {seq}` -/
  | noRows (node : String) (seq : Int)
  /-- `row {id}: hash differs from checkpoint at seq {seq}` -/
  | checkpointDiffers (id : String) (seq : Int)
  /-- `node '{node}': chain ends at seq {highest} before checkpoint at seq {seq}` -/
  | chainEnds (node : String) (highest seq : Int)
  /-- `node '{node}': rows start at seq {lowest}, after the checkpoint at seq {seq}` -/
  | rowsStart (node : String) (lowest seq : Int)
  /-- `node '{node}': no row at checkpointed seq {seq}` -/
  | noRowAt (node : String) (seq : Int)
  deriving DecidableEq

/-- A row without the field predates it, so it is form `"1"`. -/
def AuditRow.formId (row : AuditRow) : String :=
  if row.canonicalFormId = "" then "1" else row.canonicalFormId

/-- `row_d` of `_row_break`. -/
def AuditRow.rowDict (row : AuditRow) : List (String × Json) :=
  Dict.adjust row.toDict "canonical_form_id" (fun _ => .str row.formId)

/-- A check is retried with DEL raw on a miss, for a row that holds DEL. -/
def matchesCanon (rowDict : List (String × Json)) (check : Canon → Bool) : Bool :=
  check canonicalJson || (hasDel (.obj rowDict) && check canonicalJsonRawDel)

def hashMatches (row : AuditRow) (form : Form) (rowDict : List (String × Json)) (canon : Canon) :
    Bool :=
  decide (form.hashFn H rowDict canon = row.hash)
    || (decide (form = .one) && decide (rowHashForm1LegacyZ H rowDict canon = row.hash))
    || (row.shippedAt.isSome
      && decide (row.hash ∈ rowHashesOverShippedAt H form rowDict canon))

/-- The commitment part of `_row_break`. -/
def detailBreak (row : AuditRow) (form : Form) : Option Reason :=
  match form, row.detail with
  | .two, some detail =>
    let salt := row.detailSalt.getD ""
    if salt = "" then some (.missingSalt row.id)
    else if matchesCanon row.rowDict (fun canon =>
        decide (detailCommitment H salt (.obj detail) canon = row.detailCommitment.getD ""))
      then none
    else some (.commitmentMismatch row.id)
  | _, _ => none

/-- Check a sealed row on its own: its form, its detail commitment and its hash. -/
def rowBreak (row : AuditRow) : Option Reason :=
  match Form.ofId row.formId with
  | none => some (.unknownForm row.id row.formId)
  | some form =>
    match detailBreak H row form with
    | some reason => some reason
    | none =>
      if matchesCanon row.rowDict (hashMatches H row form row.rowDict) then none
      else some (.hashMismatch row.id)

end Hash

end Fasten
