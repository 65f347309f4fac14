import Fasten.GoJson.Canonical
import Fasten.RowHash.Spec

set_option autoImplicit false

/-! # What a row hash binds

A row that passes `_row_break` has a hash over one of several preimages: its form's own, the legacy
spelling of the timestamp, the ones over `shipped_at`, and each of them with DEL raw. Whichever of
them two rows matched, equal hashes mean that the rows agree in everything their form hashes. -/

namespace Fasten

/-! ## A salt and an object

`detail_commitment` hashes `salt + canonical_json(detail)` with no separator and no check of the
salt's length. No canonical text of an object ends in another one, so equal sums have the same salt
and the same object behind it. -/

/-- The two accepted spellings are texts of encoders, and a decoder reads both. -/
theorem Spells.exists_writer {text : List Char} {v : Json} (h : Spells text v) :
    ∃ e : JsonText.Escape Go.readChar, JsonText.Scannable (JsonText.textWriter e.esc [])
      ∧ text = JsonText.write (JsonText.textWriter e.esc []) v.sortKeys.tree := by
  rcases h with rfl | rfl
  · exact ⟨Go.pyEscapes, JsonText.scannable_textWriter escaped_asciiEscape (by simp),
      canonicalText_eq_write v⟩
  · exact ⟨Go.rawDelEscapes, JsonText.scannable_textWriter escaped_rawDelEscape (by simp),
      subRawDel_canonicalText_eq_write v⟩

/-- Whichever way each text spells DEL, equal sums have the same salt and the same object behind it,
    up to key order. -/
theorem Spells.append_inj {salt salt' text text' : List Char}
    {members members' : List (String × Json)} (ht : Spells text (.obj members))
    (ht' : Spells text' (.obj members')) (h : salt ++ text = salt' ++ text') :
    salt = salt' ∧ (Json.obj members).sortKeys = (Json.obj members').sortKeys := by
  obtain ⟨e, he, rfl⟩ := ht.exists_writer
  obtain ⟨e', he', rfl⟩ := ht'.exists_writer
  obtain ⟨hsalt, htext⟩ := he.append_inj he' h
  exact ⟨hsalt, tree_inj _ (JsonText.write_inj (JsonText.reads_textWriter e (by simp))
    (JsonText.reads_textWriter e' (by simp)) htext)⟩

/-! ## Equal objects have equal members -/

@[simp] theorem keys_sortKeysMembers (members : List (String × Json)) :
    Dict.keys (sortKeysMembers members) = Dict.keys members := by
  induction members with
  | nil => rfl
  | cons item rest ih =>
    obtain ⟨k, v⟩ := item
    simp [sortKeysMembers, ih]

theorem get?_sortKeysMembers (members : List (String × Json)) (key : String) :
    Dict.get? (sortKeysMembers members) key = (Dict.get? members key).map Json.sortKeys := by
  induction members with
  | nil => rfl
  | cons item rest ih =>
    obtain ⟨k, v⟩ := item
    simp only [sortKeysMembers, Dict.get?_cons, ih]
    split_ifs <;> rfl

variable {form : Form} {d d' : List (String × Json)} {row a b : AuditRow}

theorem get?_eq_of_sortKeys_eq (hd : (Dict.keys d).Nodup)
    (h : (Json.obj d).sortKeys = (Json.obj d').sortKeys) (key : String) :
    (Dict.get? d key).map Json.sortKeys = (Dict.get? d' key).map Json.sortKeys := by
  simp only [Json.sortKeys, Json.obj.injEq] at h
  have hperm : (sortKeysMembers d).Perm (sortKeysMembers d') := by
    have hd := (List.perm_insertionSort (fun a b => a.1 ≤ b.1) (sortKeysMembers d)).symm
    rw [h] at hd
    exact hd.trans (List.perm_insertionSort _ _)
  rw [← get?_sortKeysMembers, ← get?_sortKeysMembers]
  exact Dict.get?_eq_of_perm (by simpa using hd) hperm key

/-! ## The fields of a preimage -/

theorem nodup_keys_preimage (h : d ∈ form.preimages row.rowDict) : (Dict.keys d).Nodup := by
  cases form with
  | one =>
    simp only [Form.preimages, List.mem_cons, List.not_mem_nil, or_false] at h
    rcases h with rfl | rfl | rfl | rfl <;>
      simpa [toHashedForm, hashedFields] using nodup_keys_drop row form1Excluded
  | two =>
    simp only [Form.preimages, List.mem_cons, List.not_mem_nil, or_false] at h
    rcases h with rfl | rfl <;> simpa [hashedFields] using nodup_keys_drop row form2Excluded

/-- Outside the two timestamps, a preimage holds the row's own values. -/
theorem get?_preimage (h : d ∈ form.preimages row.rowDict) {key : String} (hts : key ≠ "timestamp")
    (hship : key ≠ "shipped_at") (hkey : key ∉ form.excluded) :
    Dict.get? d key = Dict.get? row.rowDict key := by
  cases form with
  | one =>
    simp only [Form.preimages, List.mem_cons, List.not_mem_nil, or_false] at h
    rcases h with rfl | rfl | rfl | rfl <;>
      simp only [toHashedForm, hashedFields, Dict.get?_adjust, Dict.get?_drop, if_neg hts,
        if_neg hship, if_neg (show key ∉ form1Excluded from hkey)]
  | two =>
    simp only [Form.preimages, List.mem_cons, List.not_mem_nil, or_false] at h
    rcases h with rfl | rfl <;>
      simp only [hashedFields, Dict.get?_adjust, Dict.get?_drop, if_neg hship,
        if_neg (show key ∉ form2Excluded from hkey)]

theorem get?_rowDict_formId (row : AuditRow) :
    Dict.get? row.rowDict "canonical_form_id" = some (.str row.formId) := by
  rw [AuditRow.rowDict, Dict.get?_adjust, if_pos rfl]
  rfl

theorem get?_preimage_timestamp (h : d ∈ form.preimages row.rowDict) :
    Dict.get? d "timestamp" = some (.str (canonicalTs row.timestamp))
      ∨ Dict.get? d "timestamp" = some (.str (hashedTs (canonicalTs row.timestamp))) := by
  have hts : Dict.get? row.rowDict "timestamp" = some (.str (canonicalTs row.timestamp)) :=
    (get?_rowDict (by decide)).trans rfl
  cases form with
  | one =>
    simp only [Form.preimages, List.mem_cons, List.not_mem_nil, or_false] at h
    rcases h with rfl | rfl | rfl | rfl <;>
      simp [toHashedForm, hashedFields, Dict.get?_adjust, Dict.get?_drop, hts, form1Excluded,
        hashedTsJson]
  | two =>
    simp only [Form.preimages, List.mem_cons, List.not_mem_nil, or_false] at h
    rcases h with rfl | rfl <;>
      simp [hashedFields, Dict.get?_adjust, Dict.get?_drop, hts, form2Excluded]

/-! ## Rows with one hash -/

/-- Two rows agree in every field their form hashes: everything but `hash`, `shipped_at`,
    `detail_salt` and, for form `"1"`, `detail_commitment`, for form `"2"`, `detail`. The two
    commitments of form `"2"` open to one `detail`. Dicts are compared up to key order. -/
structure AgreeHashed (a b : AuditRow) : Prop where
  id : a.id = b.id
  originId : a.originId = b.originId
  monotonicSeq : a.monotonicSeq = b.monotonicSeq
  timestamp : a.timestamp = b.timestamp
  code : a.code = b.code
  action : a.action = b.action
  severity : a.severity = b.severity
  serviceId : a.serviceId = b.serviceId
  sourceNodeId : a.sourceNodeId = b.sourceNodeId
  tenantId : a.tenantId = b.tenantId
  actor : a.actor = b.actor
  actorKind : a.actorKind = b.actorKind
  target : a.target = b.target
  category : a.category = b.category
  domain : a.domain = b.domain
  method : a.method = b.method
  requestId : a.requestId = b.requestId
  wireVersion : a.wireVersion = b.wireVersion
  formId : a.formId = b.formId
  prevHash : a.prevHash = b.prevHash
  form1Detail : a.formId = "1" →
    (AuditRow.optDict a.detail).sortKeys = (AuditRow.optDict b.detail).sortKeys
  form2Commitment : a.formId = "2" → a.detailCommitment = b.detailCommitment
  form2Detail : a.formId = "2" → ∀ d d', a.detail = some d → b.detail = some d' →
    (Json.obj d).sortKeys = (Json.obj d').sortKeys

theorem encode_injective {a b : List Char} (h : encode a = encode b) : a = b :=
  String.ofList_injective (String.toByteArray_inj.1 h)

/-- Two commitments that are the same open to the same `detail`. -/
theorem sortKeys_detail_eq {H : Sha256} (hH : Function.Injective H.hexdigest)
    (ha : OpensCommitment H a) (hb : OpensCommitment H b)
    (hcommit : a.detailCommitment = b.detailCommitment) (hd : a.detail = some d)
    (hd' : b.detail = some d') : (Json.obj d).sortKeys = (Json.obj d').sortKeys := by
  obtain ⟨-, text, hs, hc⟩ := ha d hd
  obtain ⟨-, text', hs', hc'⟩ := hb d' hd'
  rw [hcommit, ← hc'] at hc
  exact (hs.append_inj hs' (encode_injective (hH hc))).2

theorem Form.ofId_eq_one {s : String} (h : Form.ofId s = some form) (hs : s = "1") :
    form = .one := by
  subst hs
  exact (Option.some.inj h).symm

theorem Form.ofId_eq_two {s : String} (h : Form.ofId s = some form) (hs : s = "2") :
    form = .two := by
  subst hs
  exact (Option.some.inj h).symm

/-- The form id of a preimage is hashed whatever the form is. -/
theorem get?_preimage_formId (h : d ∈ form.preimages row.rowDict) :
    Dict.get? d "canonical_form_id" = some (.str row.formId) := by
  rw [get?_preimage h (by decide) (by decide) (by cases form <;> decide), get?_rowDict_formId]

theorem sortKeys_optStr (o : Option String) : (AuditRow.optStr o).sortKeys = AuditRow.optStr o := by
  cases o <;> rfl

theorem optStr_inj {o o' : Option String} (h : AuditRow.optStr o = AuditRow.optStr o') :
    o = o' := by
  cases o <;> cases o' <;> simp_all [AuditRow.optStr]

/-- What equal preimages say about two rows of one form, key by key. -/
structure SameHashedKeys (form : Form) (a b : AuditRow) : Prop where
  formId : a.formId = b.formId
  timestamp : a.timestamp = b.timestamp
  get? : ∀ key, key ∉ ["timestamp", "shipped_at", "canonical_form_id"] → key ∉ form.excluded →
    (Dict.get? a.toDict key).map Json.sortKeys = (Dict.get? b.toDict key).map Json.sortKeys

theorem timestamp_eq_of_preimages {form' : Form} (hd : d ∈ form.preimages a.rowDict)
    (hd' : d' ∈ form'.preimages b.rowDict)
    (h : (Dict.get? d "timestamp").map Json.sortKeys
      = (Dict.get? d' "timestamp").map Json.sortKeys) : a.timestamp = b.timestamp := by
  rcases get?_preimage_timestamp hd with hts | hts <;>
    rcases get?_preimage_timestamp hd' with hts' | hts' <;>
    rw [hts, hts'] at h <;>
    simp only [Option.map_some, Json.sortKeys, Option.some.injEq, Json.str.injEq] at h
  · exact canonicalTs_inj h
  · exact absurd h.symm (hashedTs_ne_canonical _ _)
  · exact absurd h (hashedTs_ne_canonical _ _)
  · exact hashedTs_inj h

theorem sameHashedKeys_of_preimages {form' : Form} (hd : d ∈ form.preimages a.rowDict)
    (hd' : d' ∈ form'.preimages b.rowDict) (hform : Form.ofId a.formId = some form)
    (hform' : Form.ofId b.formId = some form')
    (h : (Json.obj d).sortKeys = (Json.obj d').sortKeys) :
    form = form' ∧ SameHashedKeys form a b := by
  have hget := get?_eq_of_sortKeys_eq (nodup_keys_preimage hd) h
  have hformId : a.formId = b.formId := by
    have hid := hget "canonical_form_id"
    rw [get?_preimage_formId hd, get?_preimage_formId hd'] at hid
    simpa [Json.sortKeys] using hid
  have heq : form = form' := Option.some.inj (hform.symm.trans (hformId ▸ hform'))
  subst heq
  refine ⟨rfl, hformId, timestamp_eq_of_preimages hd hd' (hget _), fun key hkey hex => ?_⟩
  simp only [List.mem_cons, List.not_mem_nil, or_false, not_or] at hkey
  have hkeyEq := hget key
  rwa [get?_preimage hd hkey.1 hkey.2.1 hex, get?_preimage hd' hkey.1 hkey.2.1 hex,
    get?_rowDict hkey.2.2, get?_rowDict hkey.2.2] at hkeyEq

/-- The keys that some preimage changes or some form leaves out. -/
def formDependent : List String :=
  ["timestamp", "shipped_at", "canonical_form_id"] ++ form1Excluded ++ form2Excluded

theorem excluded_subset (form : Form) : form.excluded ⊆ formDependent := by
  cases form <;> decide

/-- Every form hashes the other keys as they are. -/
theorem SameHashedKeys.value (h : SameHashedKeys form a b) (key : String) (value : AuditRow → Json)
    (hkey : key ∉ formDependent)
    (hvalue : ∀ row : AuditRow, (Dict.get? row.toDict key).map Json.sortKeys = some (value row)) :
    value a = value b := by
  have hplain : key ∉ ["timestamp", "shipped_at", "canonical_form_id"] := fun hmem =>
    hkey (by simp only [formDependent, List.mem_append]; exact Or.inl (Or.inl hmem))
  have heq := h.get? key hplain (fun hmem => hkey (excluded_subset form hmem))
  rw [hvalue, hvalue] at heq
  exact Option.some.inj heq

theorem SameHashedKeys.str (h : SameHashedKeys form a b) (key : String) (value : AuditRow → String)
    (hkey : key ∉ formDependent)
    (hvalue : ∀ row : AuditRow, Dict.get? row.toDict key = some (.str (value row))) :
    value a = value b := by
  refine Json.str.inj (h.value key (fun row => .str (value row)) hkey (fun row => ?_))
  rw [hvalue]
  rfl

theorem SameHashedKeys.detailCommitment (h : SameHashedKeys .two a b) :
    a.detailCommitment = b.detailCommitment := by
  have heq : (AuditRow.optStr a.detailCommitment).sortKeys
      = (AuditRow.optStr b.detailCommitment).sortKeys :=
    Option.some.inj (h.get? "detail_commitment" (by decide) (by decide))
  rw [sortKeys_optStr, sortKeys_optStr] at heq
  exact optStr_inj heq

/-- **A hash binds its row.** Two rows that pass the check and have one hash agree in every hashed
    field, whichever accepted preimage each of them matched. -/
theorem agreeHashed_of_hash_eq {H : Sha256} (hH : Function.Injective H.hexdigest)
    (ha : rowBreak H a = none) (hb : rowBreak H b = none) (h : a.hash = b.hash) :
    AgreeHashed a b := by
  obtain ⟨form, hforma, hdeta, da, hda, ta, hsa, hha⟩ := rowBreak_eq_none_iff.1 ha
  obtain ⟨form', hformb, hdetb, db, hdb, tb, hsb, hhb⟩ := rowBreak_eq_none_iff.1 hb
  have htext : ta = tb := encode_injective (hH (hha.trans (h.trans hhb.symm)))
  subst htext
  have hkeys := (hsa.append_inj hsb (rfl : [] ++ ta = [] ++ ta)).2
  obtain ⟨rfl, hsame⟩ := sameHashedKeys_of_preimages hda hdb hforma hformb hkeys
  refine
    { id := hsame.str "id" (·.id) (by decide) (fun _ => rfl)
      originId := hsame.str "origin_id" (·.originId) (by decide) (fun _ => rfl)
      monotonicSeq := Json.int.inj (hsame.value "monotonic_seq" (fun row => .int row.monotonicSeq)
        (by decide) (fun _ => rfl))
      timestamp := hsame.timestamp
      code := hsame.str "code" (·.code) (by decide) (fun _ => rfl)
      action := hsame.str "action" (·.action) (by decide) (fun _ => rfl)
      severity := hsame.str "severity" (·.severity) (by decide) (fun _ => rfl)
      serviceId := hsame.str "service_id" (·.serviceId) (by decide) (fun _ => rfl)
      sourceNodeId := hsame.str "source_node_id" (·.sourceNodeId) (by decide) (fun _ => rfl)
      tenantId := ?_
      actor := hsame.str "actor" (·.actor) (by decide) (fun _ => rfl)
      actorKind := hsame.str "actor_kind" (·.actorKind) (by decide) (fun _ => rfl)
      target := hsame.str "target" (·.target) (by decide) (fun _ => rfl)
      category := hsame.str "category" (·.category) (by decide) (fun _ => rfl)
      domain := hsame.str "domain" (·.domain) (by decide) (fun _ => rfl)
      method := hsame.str "method" (·.method) (by decide) (fun _ => rfl)
      requestId := hsame.str "request_id" (·.requestId) (by decide) (fun _ => rfl)
      wireVersion := hsame.str "wire_version" (·.wireVersion) (by decide) (fun _ => rfl)
      formId := hsame.formId
      prevHash := hsame.str "prev_hash" (·.prevHash) (by decide) (fun _ => rfl)
      form1Detail := ?_
      form2Commitment := ?_
      form2Detail := ?_ }
  · refine optStr_inj (hsame.value "tenant_id" (fun row => AuditRow.optStr row.tenantId)
      (by decide) (fun row => ?_))
    exact congrArg some (sortKeys_optStr row.tenantId)
  · intro hone
    rw [Form.ofId_eq_one hforma hone] at hsame
    exact Option.some.inj (hsame.get? "detail" (by decide) (by decide))
  · intro htwo
    rw [Form.ofId_eq_two hforma htwo] at hsame
    exact hsame.detailCommitment
  · intro htwo d d' hd hd'
    have hform := Form.ofId_eq_two hforma htwo
    rw [hform] at hsame
    exact sortKeys_detail_eq hH (hdeta hform) (hdetb hform) hsame.detailCommitment hd hd'

/-- Rows of form `"2"` that agree are hashed over the same fields. -/
theorem AgreeHashed.hashedFields_eq (h : AgreeHashed a b) (hform : a.formId = "2") :
    hashedFields a.rowDict form2Excluded = hashedFields b.rowDict form2Excluded := by
  simp [hashedFields, AuditRow.rowDict, AuditRow.toDict, form2Excluded, Dict.drop, Dict.adjust,
    h.id, h.originId, h.monotonicSeq, h.timestamp, h.code, h.action, h.severity, h.serviceId,
    h.sourceNodeId, h.tenantId, h.actor, h.actorKind, h.target, h.category, h.domain, h.method,
    h.requestId, h.wireVersion, h.formId, h.prevHash, h.form2Commitment hform]

end Fasten
