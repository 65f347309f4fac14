import Fasten.Allocate
import Fasten.Codes
import Fasten.Lib.Ledger

set_option autoImplicit false

/-! # Redacting expired rows

`Engine.redact_expired` (`python/fasten/engine.py`) over the SQLite store: each expired row first
gets an `AUDIT_ROW_REDACTED` row, which is stored before the call returns, and then loses its
`detail` (spec §7.2). The redactor, the clock and the ids that are drawn are parameters. -/

namespace Fasten

open Ledger (Outcome Report listAndDestroy)

/-! ## The record -/

/-- `_REDACTION_CODE`. -/
def redactionCode : String := "AUDIT_ROW_REDACTED"

/-- The Meta `_ensure_redaction_code` registers. -/
def redactionMeta : Codes.Meta where
  domain := "fasten"
  category := "retention"
  action := "redact"
  severity := .warn
  description := "Audit row detail destroyed under a retention policy"
  emitter := "fasten"
  id := ""
  retentionClass := .long
  highVolume := false
  piiInDetail := false
  declaredUnused := false
  detailPassthroughKeys := []

/-- `meta_of(_REDACTION_CODE)` after `_ensure_redaction_code`, which keeps one that is there. -/
def ensureRedactionCode (registered : Option Codes.Meta) : Codes.Meta :=
  registered.getD redactionMeta

/-- The wire value of a severity. -/
def severityText : Codes.Severity → String
  | .debug => "debug"
  | .info => "info"
  | .warn => "warn"
  | .error => "error"
  | .critical => "critical"
  | .other name => name

structure RedactionCandidate where
  id : String
  monotonicSeq : Int
  deriving DecidableEq

/-- An engine that `init` accepted, as far as `emit` reads it. -/
structure Engine where
  serviceId : String
  nodeId : String
  tenantId : Option String
  redactor : List (String × Json) → List (String × Json)
  hasServiceId : serviceId ≠ ""
  hasNodeId : nodeId ≠ ""

/-- Ids that no stored row has, as `uuid4` gives them. -/
structure Mint where
  run : List String → String
  fresh : ∀ ids, run ids ∉ ids

/-- What `emit` draws for a row. -/
structure Draw where
  mint : Mint
  now : Datetime
  requestId : String
  token : Token
  hasRequestId : requestId ≠ ""

/-- The `detail` of the record. -/
def recordDetail (reason : String) (c : RedactionCandidate) : List (String × Json) :=
  [("redacted_seq", .int c.monotonicSeq), ("reason", .str reason), ("redacted_id", .str c.id)]

/-- What `emit` makes of a `detail`. -/
def Engine.emitDetail (engine : Engine) (info : Codes.Meta) (detail : List (String × Json)) :
    List (String × Json) :=
  if info.piiInDetail then
    Dict.update [("_redacted", .str "***"), ("_pii_in_detail", .bool true)]
      (engine.redactor (detail.filter fun kv => decide (kv.1 ∈ info.detailPassthroughKeys)))
  else engine.redactor detail

/-- The row `emit` builds for a record; `ids` are the ids that are stored. -/
def Engine.redactionRecord (engine : Engine) (info : Codes.Meta) (reason : String) (draw : Draw)
    (ids : List String) (c : RedactionCandidate) : AuditRow where
  id := draw.mint.run ids
  originId := draw.mint.run ids
  monotonicSeq := 0
  timestamp := draw.now
  code := redactionCode
  action := info.action
  severity := severityText info.severity
  serviceId := engine.serviceId
  sourceNodeId := engine.nodeId
  tenantId := engine.tenantId
  actor := "system"
  actorKind := "service"
  target := c.id
  category := info.category
  domain := info.domain
  method := "sdk"
  requestId := draw.requestId
  detail := some (engine.emitDetail info (recordDetail reason c))
  wireVersion := "1"
  shippedAt := none
  canonicalFormId := "1"
  prevHash := "genesis"
  hash := ""
  detailSalt := none
  detailCommitment := none
  hasCode := by decide
  hasRequestId := draw.hasRequestId
  hasServiceId := engine.hasServiceId
  hasSourceNodeId := engine.hasNodeId

/-! ## The store's side -/

/-- No hash covers the row's `detail`. -/
def AuditRow.redactable (r : AuditRow) : Bool := decide (r.canonicalFormId = "2" ∨ r.hash = "")

/-- The rows that `redact_rows` should destroy the `detail` of. -/
def Store.listRedactionCandidates (store : Store) (before : Datetime) (codes : List String) :
    List RedactionCandidate :=
  if codes = [] then []
  else
    ((store.rows.filter fun r => isBefore r before && decide (r.code ∈ codes) && r.redactable
      && r.detail.isSome).insertionSort
        (fun a b => a.monotonicSeq ≤ b.monotonicSeq)).map fun r => ⟨r.id, r.monotonicSeq⟩

/-! ## `redact_expired` -/

/-- The arguments of a run, what the catalog has for the record's code, and how the calls go: the
    listing, and for each candidate the `emit` and the `redact_rows`. -/
structure RedactExpired where
  before : Datetime
  codes : List String
  reason : String
  registered : Option Codes.Meta
  lists : Bool
  draw : RedactionCandidate → Draw
  calls : RedactionCandidate → Outcome × Outcome

/-- `emit` with `_durable`. -/
def Store.emitRecord (H : Sha256) (engine : Engine) (run : RedactExpired) (store : Store)
    (c : RedactionCandidate) : Option Store :=
  (store.allocate H (run.draw c).token (engine.redactionRecord (ensureRedactionCode run.registered)
    run.reason (run.draw c) (store.rows.map (·.id)) c)).map Prod.snd

def Store.redactExpired (H : Sha256) (engine : Engine) (store : Store) (run : RedactExpired) :
    Report Store :=
  listAndDestroy (Store.emitRecord H engine run) (fun s c => s.redactRows [c.id]) run.calls
    run.lists store (store.listRedactionCandidates run.before run.codes)

/-- The ids a run lists. -/
def Store.listedIds (store : Store) (run : RedactExpired) : List String :=
  (store.listRedactionCandidates run.before run.codes).map RedactionCandidate.id

/-! ## What a row records -/

/-- The row whose `detail` an audit row says was destroyed. -/
def redactedId (code target : String) : Option String :=
  if code = redactionCode then some target else none

theorem not_intact_of_cleared {r : AuditRow} (h : r.detail = none ∧ r.detailSalt = none) :
    ¬r.detail ≠ none :=
  not_not.2 h.1

/-- The rows of the SQLite store. -/
def storeView : Ledger.View Store AuditRow String where
  rows := Store.rows
  id := AuditRow.id
  target r := redactedId r.code r.target
  intact r := r.detail ≠ none
  cleared r := r.detail = none ∧ r.detailSalt = none
  nodup s := s.primaryKey
  not_intact _ h := not_intact_of_cleared h

section Rows

variable {H : Sha256} {engine : Engine} {run : RedactExpired} {store store' : Store}
  {c : RedactionCandidate}

theorem redactedRow_of_ne {r : AuditRow} {i : String} (h : r.id ≠ i) : redactedRow [i] r = r := by
  rw [redactedRow, if_neg]
  simp [h]

theorem redactedRow_cleared {r : AuditRow} {ids : List String}
    (h : (r.detail = none ∧ r.detailSalt = none) ∨ r.id ∈ ids ∧ r.redactable = true) :
    (redactedRow ids r).detail = none ∧ (redactedRow ids r).detailSalt = none := by
  unfold redactedRow
  split_ifs with hred
  · exact ⟨rfl, rfl⟩
  · refine h.resolve_right fun hr => hred ⟨hr.1, ?_⟩
    simpa [AuditRow.redactable] using hr.2

theorem redactable_redactedRow {r : AuditRow} {ids : List String} :
    (redactedRow ids r).redactable = r.redactable := by
  unfold redactedRow
  split_ifs <;> rfl

theorem redactedRow_fields (r : AuditRow) (ids : List String) :
    (redactedRow ids r).id = r.id ∧ (redactedRow ids r).code = r.code
      ∧ (redactedRow ids r).target = r.target := by
  unfold redactedRow
  split_ifs <;> exact ⟨rfl, rfl, rfl⟩

/-- What the redaction of row `i` does to a row. -/
theorem redactedRow_laws (i : String) :
    (∀ r, (redactedRow [i] r).id = r.id
        ∧ redactedId (redactedRow [i] r).code (redactedRow [i] r).target = redactedId r.code r.target)
      ∧ (∀ r : AuditRow, r.id ≠ i → redactedRow [i] r = r)
      ∧ (∀ r : AuditRow, r.redactable = true → (redactedRow [i] r).redactable = true)
      ∧ ∀ r : AuditRow, (r.detail = none ∧ r.detailSalt = none) ∨ r.id = i ∧ r.redactable = true →
        (redactedRow [i] r).detail = none ∧ (redactedRow [i] r).detailSalt = none := by
  refine ⟨fun r => ?_, fun r hr => redactedRow_of_ne hr, fun r hr => ?_, fun r hr => ?_⟩
  · obtain ⟨hid, hcode, htarget⟩ := redactedRow_fields r [i]
    exact ⟨hid, by rw [hcode, htarget]⟩
  · rw [redactable_redactedRow]
    exact hr
  · exact redactedRow_cleared (hr.imp_right fun h => ⟨List.mem_singleton.2 h.1, h.2⟩)

/-- The candidates are stored rows that can be redacted. -/
theorem Store.mem_listRedactionCandidates {before : Datetime} {codes : List String}
    (h : c ∈ store.listRedactionCandidates before codes) :
    ∃ r ∈ store.rows, r.id = c.id ∧ r.redactable = true := by
  unfold Store.listRedactionCandidates at h
  split_ifs at h with hcodes
  · cases h
  · obtain ⟨r, hr, rfl⟩ := List.mem_map.1 h
    rw [List.mem_insertionSort, List.mem_filter] at hr
    simp only [Bool.and_eq_true] at hr
    exact ⟨r, hr.1, rfl, hr.2.1.2⟩

/-- The record is stored as it was sealed. -/
theorem Store.emitRecord_rows (h : Store.emitRecord H engine run store c = some store') :
    store'.rows = store.rows ++ [store.allocated H (run.draw c).token (engine.redactionRecord
      (ensureRedactionCode run.registered) run.reason (run.draw c) (store.rows.map (·.id)) c)] := by
  obtain ⟨⟨returned, s⟩, hallocate, rfl⟩ := Option.map_eq_some_iff.1 h
  obtain ⟨rfl, rfl⟩ := Store.allocate_eq_some hallocate
  have hfresh := (run.draw c).mint.fresh (store.rows.map (·.id))
  rw [Store.insertRowCore_rows]
  exact (if_neg hfresh).trans <| congrArg (fun r => store.rows ++ [r]) (stored_sealRow rfl)

/-- What a run does to the rows. -/
theorem storeView_lawful (H : Sha256) (engine : Engine) (run : RedactExpired) :
    storeView.Lawful RedactionCandidate.id (fun r => r.redactable = true) (fun _ _ => True)
      (Store.emitRecord H engine run) (fun s c => s.redactRows [c.id]) where
  record_room _ _ _ _ _ _ := trivial
  destroy_room _ _ _ _ := trivial
  record_rows _ _ _ _ _ h := ⟨_, Store.emitRecord_rows h, rfl⟩
  destroy_rows s c := ⟨redactedRow [c.id], Store.redactRows_rows s _, redactedRow_laws c.id⟩

theorem Store.chains_emitRecord (hok : ChainsOk H store.rows)
    (h : Store.emitRecord H engine run store c = some store') : ChainsOk H store'.rows := by
  rw [Store.emitRecord_rows h]
  exact Store.chains_allocated hok _ _

theorem Store.chains_redactRows (hok : ChainsOk H store.rows) (ids : List String) :
    ChainsOk H (store.redactRows ids).rows := by
  rw [Store.redactRows_rows]
  exact hok.map (keepsChain_redactedRow _ ids)

/-- **Python's runs**, on any store. -/
theorem Store.accounted_redactExpired (H : Sha256) (engine : Engine) (store : Store)
    (runs : List RedactExpired) :
    storeView.Accounted (Store.redactExpired H engine) Store.listedIds
      (fun s => (∀ node, (verifyChain (rowBreak H) (store.nodeRows node) [] false).ok = true) →
        ∀ node, (verifyChain (rowBreak H) (s.nodeRows node) [] false).ok = true)
      store runs := by
  simp only [Store.verifyChain_nodeRows_iff]
  refine Ledger.View.accounted_of_runOk (fun _ _ => True) (fun s run hs _ => ?_) id
    (Run.allAlong_of_forall (fun _ _ => trivial) _ _)
  exact (storeView_lawful H engine run).runOk
    (I := fun _ s => ChainsOk H store.rows → ChainsOk H s.rows) (P := fun _ => True) rfl rfl
    (fun c hc => Store.mem_listRedactionCandidates hc) trivial (fun _ _ h => h)
    (fun _ _ _ _ _ h he hok => Store.chains_emitRecord (h hok) he)
    (fun _ _ c h hok => Store.chains_redactRows (h hok) [c.id]) (fun _ _ => trivial) hs
    (fun _ h => h)

end Rows

end Fasten
