import Fasten.Commitment
import Fasten.GoJson.Python
import Fasten.GoRow.RoundTrip

set_option autoImplicit false

/-! # Go rows in Python

A row that the Go SDK sealed, as Python reads it from the wire or from a shared table, and when it
passes Python's check. -/

namespace Fasten.Go

open JsonText

/-- The Python row that is read for a Go row. Both SDKs leave out what is not set, and `shipped_at`
    may have been set since. -/
structure Row.IsReadAs (row : Row) (py : AuditRow) : Prop where
  id : py.id = row.id
  originId : py.originId = row.originId
  monotonicSeq : py.monotonicSeq = row.monotonicSeq
  timestamp : canonicalTs py.timestamp = row.timestamp.canonicalTS
  code : py.code = row.code
  action : py.action = row.action
  severity : py.severity = row.severity
  serviceId : py.serviceId = row.serviceId
  sourceNodeId : py.sourceNodeId = row.sourceNodeId
  tenantId : py.tenantId = row.tenantId
  actor : py.actor = row.actor
  actorKind : py.actorKind = row.actorKind
  target : py.target = row.target
  category : py.category = row.category
  domain : py.domain = row.domain
  method : py.method = row.method
  requestId : py.requestId = row.requestId
  detail : jsonLoads (marshal row.detail) = some (AuditRow.optDict py.detail)
  wireVersion : py.wireVersion = row.wire
  formId : py.formId = row.formId
  prevHash : py.prevHash = row.prevHash
  hash : py.hash = row.hash
  detailSalt : py.detailSalt.getD "" = row.detailSalt
  detailCommitment : py.detailCommitment.getD "" = row.detailCommitment

/-- What form `"2"` hashes of a Python row, by key. -/
theorem sortKeys_hashedFields (py : AuditRow) :
    (Json.obj (hashedFields py.rowDict form2Excluded)).sortKeys = .obj
      [("action", .str py.action), ("actor", .str py.actor), ("actor_kind", .str py.actorKind),
        ("canonical_form_id", .str py.formId), ("category", .str py.category),
        ("code", .str py.code), ("detail_commitment", AuditRow.optStr py.detailCommitment),
        ("domain", .str py.domain), ("id", .str py.id), ("method", .str py.method),
        ("monotonic_seq", .int py.monotonicSeq), ("origin_id", .str py.originId),
        ("prev_hash", .str py.prevHash), ("request_id", .str py.requestId),
        ("service_id", .str py.serviceId), ("severity", .str py.severity), ("shipped_at", .null),
        ("source_node_id", .str py.sourceNodeId), ("target", .str py.target),
        ("tenant_id", AuditRow.optStr py.tenantId), ("timestamp", .str (canonicalTs py.timestamp)),
        ("wire_version", .str py.wireVersion)] := by
  have hfields : hashedFields py.rowDict form2Excluded =
      [("id", .str py.id), ("origin_id", .str py.originId), ("monotonic_seq", .int py.monotonicSeq),
        ("timestamp", .str (canonicalTs py.timestamp)), ("code", .str py.code),
        ("action", .str py.action), ("severity", .str py.severity),
        ("service_id", .str py.serviceId), ("source_node_id", .str py.sourceNodeId),
        ("tenant_id", AuditRow.optStr py.tenantId), ("actor", .str py.actor),
        ("actor_kind", .str py.actorKind), ("target", .str py.target),
        ("category", .str py.category), ("domain", .str py.domain), ("method", .str py.method),
        ("request_id", .str py.requestId), ("wire_version", .str py.wireVersion),
        ("shipped_at", .null), ("canonical_form_id", .str py.formId),
        ("prev_hash", .str py.prevHash),
        ("detail_commitment", AuditRow.optStr py.detailCommitment)] := by
    simp [hashedFields, AuditRow.rowDict, AuditRow.toDict, form2Excluded, Dict.drop, Dict.adjust]
  rw [hfields, Json.sortKeys]
  simp only [sortKeysMembers, Json.sortKeys, sortKeys_optStr]
  simp [List.insertionSort, List.orderedInsert]

section Received

variable {row : Row} {py : AuditRow} (h : row.IsReadAs py)

include h

/-- **Both SDKs hash the same bytes of a row**, whatever its detail. -/
theorem Row.IsReadAs.tree_hashedFields (hcommit : row.detailCommitment ≠ "") :
    (Json.obj (hashedFields py.rowDict form2Excluded)).sortKeys.tree
      = numerals (row.rowMap row.commitmentEntry row.timestamp.canonicalTS .null) := by
  have hsome : py.detailCommitment = some row.detailCommitment := by
    have hget := h.detailCommitment
    cases hc : py.detailCommitment with
    | none =>
      rw [hc] at hget
      exact absurd hget.symm hcommit
    | some c =>
      rw [hc] at hget
      exact congrArg some hget
  rw [sortKeys_hashedFields, h.id, h.originId, h.monotonicSeq, h.timestamp, h.code, h.action,
    h.severity, h.serviceId, h.sourceNodeId, h.tenantId, h.actor, h.actorKind, h.target, h.category,
    h.domain, h.method, h.requestId, h.wireVersion, h.formId, h.prevHash, hsome]
  cases ht : row.tenantId <;>
    simp [rowMap, commitmentEntry, numerals, JsonTree.map, JsonTree.mapMembers, Json.tree,
      treeMembers, AuditRow.optStr, Num.numeral, ht] <;> rfl

/-- The hash of a row that passes Go's check over form `"2"` matches in Python. -/
theorem Row.IsReadAs.hashOver {H : Sha256} (hcommit : row.detailCommitment ≠ "")
    (hhash : rowHashForm2With H row true = row.hash) : HashOver H py .two := by
  refine ⟨hashedFields py.rowDict form2Excluded, List.mem_cons_self, _, Or.inl rfl, ?_⟩
  rw [h.hash, ← hhash, rowHashForm2With, canonicalText_eq_write,
    h.tree_hashedFields hcommit]
  have hcanon := canon_eq true (row.rowMap row.commitmentEntry row.timestamp.canonicalTS .null)
  rw [hcanon, canonicalJSONText_eq_write, funext canonicalEscape_eq_asciiEscape]

end Received

/-! ## Sealed rows -/

/-- The numbers of a row's detail, after `redactDetail`. -/
def Row.nums (row : Row) : List Num :=
  match row.detail with
  | none => []
  | some o => o.value.nums

theorem jsonLoads_marshal_none : jsonLoads (marshal none) = some .null := by
  rw [jsonLoads, marshal, read_write reads_marshal_python]
  rfl

section Sealed

variable {H : Sha256} {token : Token} {prevHash : String} {row : Row} {py : AuditRow}

theorem detailCommitment_sealRow_ne_empty : (row.sealRow H token prevHash).detailCommitment ≠ "" :=
  H.nonempty _

/-- The detail Python reads has the tokens Go committed to exactly when each number is the same. -/
theorem Row.IsReadAs.tree_detail_iff (h : (row.sealRow H token prevHash).IsReadAs py)
    (hnums : ∀ n ∈ row.nums, n.IsSealed) {o : Object} (ho : row.detail = some o) :
    ∃ d, py.detail = some d
      ∧ ((Json.obj d).sortKeys.tree = numerals o.value ↔ ∀ n ∈ row.nums, n.SameInPython) := by
  have hvalue : row.nums = o.value.nums := by rw [Row.nums, ho]
  rw [hvalue] at hnums ⊢
  obtain ⟨d, hload, hiff⟩ := exists_jsonLoads_marshal o hnums
  have hread : jsonLoads (marshal row.detail) = some (AuditRow.optDict py.detail) := h.detail
  rw [ho, hload, Option.some.injEq] at hread
  refine ⟨d, ?_, hiff⟩
  cases hd : py.detail with
  | none =>
    rw [hd] at hread
    cases hread
  | some d' =>
    rw [hd] at hread
    cases hread
    rfl

/-- **When a row that Go sealed passes Python's check.** -/
theorem rowBreak_isReadAs_iff (hH : Function.Injective H.hexdigest)
    (h : (row.sealRow H token prevHash).IsReadAs py) (hnums : ∀ n ∈ row.nums, n.IsSealed) :
    Fasten.rowBreak H py = none ↔ ∀ n ∈ row.nums, n.SameInPython := by
  have htwo : Form.ofId "2" = some .two := by decide
  have hform : py.formId = "2" := h.formId.trans rfl
  have hhash : HashOver H py .two :=
    h.hashOver detailCommitment_sealRow_ne_empty rfl
  have hbreak : Fasten.rowBreak H py = none ↔ Fasten.OpensCommitment H py := by
    rw [Fasten.rowBreak_eq_none_iff, hform, htwo]
    simp [hhash]
  cases ho : row.detail with
  | none =>
    -- without a detail there is nothing to open
    have hread : jsonLoads (marshal row.detail) = some (AuditRow.optDict py.detail) := h.detail
    rw [ho, jsonLoads_marshal_none, Option.some.injEq] at hread
    have hnone : py.detail = none := by
      cases hd : py.detail with
      | none => rfl
      | some d =>
        rw [hd] at hread
        cases hread
    rw [hbreak]
    exact iff_of_true (fun d hd => absurd (hnone.symm.trans hd) (by simp))
      (by simp [Row.nums, ho])
  | some o =>
    obtain ⟨d, hd, hiff⟩ := h.tree_detail_iff hnums ho
    have hgo : (row.sealRow H token prevHash).detail = some o := ho
    rw [← hiff]
    constructor
    · intro hpy
      obtain ⟨bytes, hbytes, hcommit⟩ := (Opens.python py d hpy hform hd).exists_bytes
      obtain ⟨bytes', hbytes', hcommit'⟩ := (Opens.go (row.sealRow H token prevHash) o
        (Row.rowBreak_sealRow token prevHash row) rfl hgo).exists_bytes
      rw [h.detailCommitment, ← hcommit'] at hcommit
      exact (hbytes.append_inj hbytes' (hH hcommit)).2
    · intro htree
      rw [hbreak]
      intro d' hd'
      cases hd.symm.trans hd'
      have hsalt : (row.sealRow H token prevHash).detailSalt ≠ "" := by
        show (if row.detailSalt = "" then token.val else row.detailSalt) ≠ ""
        split_ifs with hempty
        · exact token.property
        · exact hempty
      rw [h.detailSalt, h.detailCommitment]
      refine ⟨hsalt, _, Or.inl rfl, ?_⟩
      have hvalue : row.detailValue = o.value := by rw [Row.detailValue, ho]
      have hcommit : (row.sealRow H token prevHash).detailCommitment
          = Row.detailCommitmentWith H (row.sealRow H token prevHash).detailSalt o.value true :=
        hvalue ▸ rfl
      rw [hcommit, Row.detailCommitmentWith, Row.canon_eq, toUTF8_append_encode,
        canonicalText_eq_write, htree, canonicalJSONText_eq_write,
        funext canonicalEscape_eq_asciiEscape]

end Sealed

/-! ## Numbers -/

theorem canonicalText_of_token {v : Json} {t : Numeral} (h : v.token = some t) :
    canonicalText v = t.text := by
  cases v with
  | int | float => cases h; rfl
  | _ => cases h

theorem canonicalJSON_float64 (f : Float64) :
    canonicalJSON (.num (.float64 f)) = encode f.text := by
  rw [canonicalJSON, canonicalJSONText_eq_write]
  rfl

/-- **When the numbers Go seals verify in Python.** Python reads each number from its token and
    writes the bytes Go hashed for it exactly when the number is the same in Python, and a sealed row
    passes Python's check exactly when every number of its detail is. -/
theorem sealed_verifies_in_python_iff (H : Sha256) (hH : Function.Injective H.hexdigest) :
    (∀ f : Float64, f.Shortest → ∃ v, Json.ofNumeral f.numeral = some v
        ∧ (canonicalJson v = canonicalJSON (.num (.float64 f)) ↔ f.SameInPython))
      ∧ ∀ (token : Token) (prevHash : String) (row : Row) (py : AuditRow),
        (∀ n ∈ row.nums, n.IsSealed) → (row.sealRow H token prevHash).IsReadAs py →
        (Fasten.rowBreak H py = none ↔ ∀ n ∈ row.nums, n.SameInPython) := by
  refine ⟨fun f hf => ?_, fun token prevHash row py hnums h => rowBreak_isReadAs_iff hH h hnums⟩
  obtain ⟨t, ht, hsame⟩ := exists_pyToken hf
  obtain ⟨v, hv, htoken⟩ := Option.bind_eq_some_iff.1 ht
  refine ⟨v, hv, ?_⟩
  rw [← hsame, canonicalJSON_float64, canonicalJson, canonicalText_of_token htoken]
  exact ⟨fun h => Numeral.ext_text (encode_injective h), fun h => by rw [h]; rfl⟩

/-- `2026-08-21T10:00:00Z` in Python. -/
def Datetime.sample : Datetime :=
  ⟨2026, 8, 21, 10, 0, 0, 0, by decide, Instant.sample.monthRange, by decide,
    Instant.sample.hourRange, Datetime.epoch.minuteRange, Datetime.epoch.secondRange,
    Datetime.epoch.microsecondRange⟩

theorem canonicalTs_sample : canonicalTs Datetime.sample = Instant.sample.canonicalTS := by
  decide +kernel

/-- The sample row with this number, as Python reads it. -/
def pySample (sealedRow : Row) (detail : List (String × Json)) : AuditRow where
  id := "a"
  originId := "a"
  monotonicSeq := 1
  timestamp := Datetime.sample
  code := "DEV_CREATE"
  action := "create"
  severity := "INFO"
  serviceId := "svc"
  sourceNodeId := "n"
  tenantId := none
  actor := "u"
  actorKind := "user"
  target := "dev"
  category := "device"
  domain := "fleet"
  method := "api"
  requestId := "r"
  detail := some detail
  wireVersion := "1"
  shippedAt := none
  canonicalFormId := "2"
  prevHash := "genesis"
  hash := sealedRow.hash
  detailSalt := some sealedRow.detailSalt
  detailCommitment := some sealedRow.detailCommitment
  hasCode := by decide
  hasRequestId := by decide
  hasServiceId := by decide
  hasSourceNodeId := by decide

/-- The sample row with a float64, sealed. -/
def Row.sealedFloat (f : Float64) : Row :=
  Row.sealRow plainDigest Token.salt "genesis"
    (Row.sample (some (Object.single (.float64 f))))

theorem isReadAs_pySample {f : Float64} {d : List (String × Json)}
    (h : jsonLoads (marshal (some (Object.single (.float64 f)))) = some (.obj d)) :
    (Row.sealedFloat f).IsReadAs (pySample (Row.sealedFloat f) d) where
  id := rfl
  originId := rfl
  monotonicSeq := rfl
  timestamp := canonicalTs_sample
  code := rfl
  action := rfl
  severity := rfl
  serviceId := rfl
  sourceNodeId := rfl
  tenantId := rfl
  actor := rfl
  actorKind := rfl
  target := rfl
  category := rfl
  domain := rfl
  method := rfl
  requestId := rfl
  detail := h
  wireVersion := rfl
  formId := rfl
  prevHash := rfl
  hash := rfl
  detailSalt := rfl
  detailCommitment := rfl

theorem exists_jsonLoads_single {f : Float64} (h : f.Shortest) :
    ∃ d, jsonLoads (marshal (some (Object.single (.float64 f)))) = some (.obj d) := by
  have hnums : ∀ n ∈ (Object.single (.float64 f)).value.nums, n.IsSealed := by
    intro n hn
    rw [List.mem_singleton.1 hn]
    exact h
  obtain ⟨d, hd, -⟩ := exists_jsonLoads_marshal _ hnums
  exact ⟨d, hd⟩

theorem nums_sealedFloat {f : Float64} {p : Num → Prop} (h : p (.float64 f)) :
    ∀ n ∈ (Row.sample (some (Object.single (.float64 f)))).nums, p n := by
  intro n hn
  rw [List.mem_singleton.1 hn]
  exact h

theorem sealed_verifies_in_python_oneAndHalf :
    ∃ py, (Row.sealedFloat .oneAndHalf).IsReadAs py ∧ Fasten.rowBreak plainDigest py = none := by
  obtain ⟨d, hd⟩ := exists_jsonLoads_single Float64.shortest_oneAndHalf
  refine ⟨_, isReadAs_pySample hd, ?_⟩
  refine ((sealed_verifies_in_python_iff plainDigest plainDigest_injective).2 _ _ _ _
    (nums_sealedFloat Float64.shortest_oneAndHalf) (isReadAs_pySample hd)).2 (nums_sealedFloat ?_)
  show Float64.oneAndHalf.SameInPython
  decide +kernel

/-- `1e-7`. -/
def Float64.small : Float64 := ⟨false, 0x1ad7f29abcaf48, -76, by decide⟩

/-- Go hashes `1e-7`, Python writes `1e-07`, and the row does not pass. -/
theorem sealed_fails_in_python_small :
    Float64.small.text = ['1', 'e', '-', '7'] ∧ reprText Float64.small = ['1', 'e', '-', '0', '7']
      ∧ ∃ py, (Row.sealedFloat .small).IsReadAs py ∧ Fasten.rowBreak plainDigest py ≠ none := by
  have hshort : Float64.small.Shortest := ⟨by decide +kernel, by decide +kernel⟩
  obtain ⟨d, hd⟩ := exists_jsonLoads_single hshort
  refine ⟨by decide +kernel, by decide +kernel, _, isReadAs_pySample hd, ?_⟩
  rw [ne_eq, rowBreak_isReadAs_iff plainDigest_injective (isReadAs_pySample hd)
    (nums_sealedFloat hshort)]
  intro hall
  have hsmall : Float64.small.SameInPython := hall _ (List.mem_singleton_self _)
  exact absurd hsmall (by decide +kernel)

end Fasten.Go
