import Fasten.CanonicalJson.RawDel
import Fasten.RowHash

set_option autoImplicit false

/-! # What the row check accepts

`rowBreak_eq_none_iff` says which rows pass `_row_break`: the hash is over one of the form's
preimages, spelt with DEL escaped or raw, and a form `"2"` row that has its `detail` opens its
commitment to it. The search for DEL that guards the second spelling does not show: in a row
without DEL the two spellings are one. -/

namespace Fasten

variable {H : Sha256}

/-! ## The accepted preimages -/

def Form.excluded : Form → List String
  | .one => form1Excluded
  | .two => form2Excluded

/-- The dicts a row of this form may have been hashed over. -/
def Form.preimages (form : Form) (rowDict : List (String × Json)) : List (List (String × Json)) :=
  match form with
  | .one =>
    [toHashedForm (hashedFields rowDict form1Excluded), hashedFields rowDict form1Excluded,
      Dict.adjust (toHashedForm (Dict.drop rowDict form1Excluded)) "shipped_at" hashedTsJson,
      Dict.drop rowDict form1Excluded]
  | .two => [hashedFields rowDict form2Excluded, Dict.drop rowDict form2Excluded]

variable {row : AuditRow} {d : List (String × Json)}

theorem get?_rowDict {key : String} (h : key ≠ "canonical_form_id") :
    Dict.get? row.rowDict key = Dict.get? row.toDict key := by
  rw [AuditRow.rowDict, Dict.get?_adjust, if_neg h]

theorem nodup_keys_rowDict (row : AuditRow) : (Dict.keys row.rowDict).Nodup := by
  rw [AuditRow.rowDict, Dict.keys_adjust]
  exact row.nodup_keys_toDict

theorem nodup_keys_drop (row : AuditRow) (ks : List String) :
    (Dict.keys (Dict.drop row.rowDict ks)).Nodup :=
  (nodup_keys_rowDict row).sublist (Dict.keys_drop_sublist _ ks)

/-- A row that was never shipped has no preimages over `shipped_at` of its own. -/
theorem hashedFields_of_unshipped (h : row.shippedAt = none) (ks : List String) :
    hashedFields row.rowDict ks = Dict.drop row.rowDict ks := by
  refine Dict.adjust_eq_self (nodup_keys_drop row ks) (fun v hv => ?_)
  rw [Dict.get?_drop, get?_rowDict (by decide)] at hv
  split_ifs at hv
  have hnull : Dict.get? row.toDict "shipped_at" = some .null :=
    congrArg (fun o => some (AuditRow.optTs o)) h
  exact Option.some.inj (hnull.symm.trans hv)

theorem adjust_hashedFields_shippedAt (row : AuditRow) (ks : List String) :
    Dict.adjust (toHashedForm (hashedFields row.rowDict ks)) "shipped_at" hashedTsJson
      = toHashedForm (hashedFields row.rowDict ks) := by
  refine Dict.adjust_eq_self (by simpa [toHashedForm, hashedFields] using nodup_keys_drop row ks)
    (fun v hv => ?_)
  rw [toHashedForm, hashedFields, Dict.get?_adjust, if_neg (by decide), Dict.get?_adjust,
    if_pos rfl, Option.map_eq_some_iff] at hv
  obtain ⟨-, -, rfl⟩ := hv
  rfl

theorem hashMatches_iff {form : Form} {canon : Canon} :
    hashMatches H row form row.rowDict canon = true ↔
      ∃ v ∈ (form.preimages row.rowDict).map Json.obj, H.hexdigest (canon v) = row.hash := by
  simp only [hashMatches, Bool.or_eq_true, Bool.and_eq_true, decide_eq_true_eq]
  cases form with
  | one =>
    cases hship : row.shippedAt with
    | some t =>
      simp [Form.preimages, Form.hashFn, rowHashForm1, rowHashForm1LegacyZ,
        rowHashesOverShippedAt, eq_comm, or_assoc]
    | none =>
      have htwice : ∀ p q : Prop, p ∨ q ↔ p ∨ q ∨ p ∨ q := by tauto
      simp only [Form.preimages, ← hashedFields_of_unshipped hship,
        adjust_hashedFields_shippedAt]
      simpa [Form.hashFn, rowHashForm1, rowHashForm1LegacyZ] using htwice _ _
  | two =>
    cases hship : row.shippedAt with
    | some t =>
      simp [Form.preimages, Form.hashFn, rowHashForm2, rowHashesOverShippedAt, eq_comm]
    | none =>
      simp [Form.preimages, Form.hashFn, rowHashForm2, ← hashedFields_of_unshipped hship]

/-! ## The two spellings of DEL -/

/-- No string of the value holds DEL. -/
def NoDel (v : Json) : Prop := ∀ s ∈ v.strings, '\x7f' ∉ s.toList

/-- **A check passes over one of the two spellings.** It looks at the bytes of some values; a row
    without DEL has none in these values either. -/
theorem matchesCanon_iff {rowDict : List (String × Json)} {check : Canon → Bool}
    (values : List Json) (good : ByteArray → Prop)
    (hcheck : ∀ canon : Canon, check canon = true ↔ ∃ v ∈ values, good (canon v))
    (hdel : NoDel (.obj rowDict) → ∀ v ∈ values, NoDel v) :
    matchesCanon rowDict check = true ↔
      ∃ v ∈ values, ∃ text, Spells text v ∧ good (encode text) := by
  simp only [matchesCanon, Bool.or_eq_true, Bool.and_eq_true, hcheck]
  constructor
  · rintro (⟨v, hv, hgood⟩ | ⟨-, v, hv, hgood⟩)
    · exact ⟨v, hv, _, Or.inl rfl, hgood⟩
    · exact ⟨v, hv, _, Or.inr rfl, hgood⟩
  · rintro ⟨v, hv, text, rfl | rfl, hgood⟩
    · exact Or.inl ⟨v, hv, hgood⟩
    · by_cases hrow : hasDel (.obj rowDict) = true
      · exact Or.inr ⟨hrow, v, hv, hgood⟩
      · have hclean := hdel (not_mem_of_hasDel_false (by simpa using hrow)) v hv
        rw [subRawDel_canonicalText hclean] at hgood
        exact Or.inl ⟨v, hv, hgood⟩

theorem noDel_obj_iff : NoDel (.obj d) ↔ ∀ m ∈ d, '\x7f' ∉ m.1.toList ∧ NoDel m.2 := by
  simp only [NoDel, Json.strings, mem_stringsMembers]
  constructor
  · intro h m hm
    exact ⟨h m.1 ⟨m, hm, Or.inl rfl⟩, fun s hs => h s ⟨m, hm, Or.inr hs⟩⟩
  · rintro h s ⟨m, hm, rfl | hs⟩
    · exact (h m hm).1
    · exact (h m hm).2 s hs

theorem NoDel.drop (h : NoDel (.obj d)) (ks : List String) : NoDel (.obj (Dict.drop d ks)) := by
  rw [noDel_obj_iff] at h ⊢
  exact fun m hm => h m (List.mem_filter.1 hm).1

theorem NoDel.adjust (h : NoDel (.obj d)) (key : String) {f : Json → Json}
    (hf : ∀ v, NoDel v → NoDel (f v)) : NoDel (.obj (Dict.adjust d key f)) := by
  rw [noDel_obj_iff] at h ⊢
  intro m hm
  obtain ⟨m', hm', rfl⟩ := List.mem_map.1 hm
  split_ifs
  · exact ⟨(h m' hm').1, hf _ (h m' hm').2⟩
  · exact h m' hm'

theorem mem_hashedTsText {value : List Char} {c : Char} (h : c ∈ hashedTsText value) :
    c ∈ value ∨ c ∈ "+00:00".toList := by
  unfold hashedTsText at h
  split_ifs at h with hz hzero
  · rcases List.mem_append.1 h with h | h
    · exact Or.inl (List.mem_of_mem_dropLast (List.mem_of_mem_take h))
    · exact Or.inr h
  · rcases List.mem_append.1 h with h | h
    · exact Or.inl (List.mem_of_mem_dropLast h)
    · exact Or.inr h
  · exact Or.inl h

theorem NoDel.hashedTsJson {v : Json} (h : NoDel v) : NoDel (hashedTsJson v) := by
  cases v with
  | str s =>
    simp only [NoDel, Fasten.hashedTsJson, Json.strings, List.mem_singleton, forall_eq] at h ⊢
    rw [hashedTs, String.toList_ofList]
    intro hmem
    rcases mem_hashedTsText hmem with hmem | hmem
    · exact h hmem
    · exact absurd hmem (by decide)
  | _ => exact h

theorem NoDel.preimage {rowDict : List (String × Json)} {form : Form} (h : NoDel (.obj rowDict))
    (hd : d ∈ form.preimages rowDict) : NoDel (.obj d) := by
  have hnull : ∀ v : Json, NoDel v → NoDel ((fun _ => Json.null) v) := by
    intro v _ s hs
    exact absurd hs List.not_mem_nil
  have hfields : ∀ ks, NoDel (.obj (hashedFields rowDict ks)) := fun ks => (h.drop ks).adjust _ hnull
  cases form with
  | one =>
    simp only [Form.preimages, List.mem_cons, List.not_mem_nil, or_false] at hd
    rcases hd with rfl | rfl | rfl | rfl
    · exact (hfields _).adjust _ (fun _ => NoDel.hashedTsJson)
    · exact hfields _
    · exact ((h.drop _).adjust _ (fun _ => NoDel.hashedTsJson)).adjust _
        (fun _ => NoDel.hashedTsJson)
    · exact h.drop _
  | two =>
    simp only [Form.preimages, List.mem_cons, List.not_mem_nil, or_false] at hd
    rcases hd with rfl | rfl
    · exact hfields _
    · exact h.drop _

/-! ## The row check -/

/-- The row's hash is over one of the form's preimages. -/
def HashOver (H : Sha256) (row : AuditRow) (form : Form) : Prop :=
  ∃ d ∈ form.preimages row.rowDict, ∃ text, Spells text (.obj d) ∧
    H.hexdigest (encode text) = row.hash

/-- The row's commitment, if the row has its `detail`, is over the salt and that. -/
def OpensCommitment (H : Sha256) (row : AuditRow) : Prop :=
  ∀ detail, row.detail = some detail → row.detailSalt.getD "" ≠ "" ∧
    ∃ text, Spells text (.obj detail) ∧
      H.hexdigest (encode ((row.detailSalt.getD "").toList ++ text))
        = row.detailCommitment.getD ""

theorem toUTF8_append_encode (salt : String) (text : List Char) :
    salt.toUTF8 ++ encode text = encode (salt.toList ++ text) := by
  have hofList : String.ofList (salt.toList ++ text) = salt ++ String.ofList text := by simp
  rw [encode, encode, hofList]
  exact (String.toByteArray_append).symm

theorem NoDel.detail {detail : List (String × Json)} (h : NoDel (.obj row.rowDict))
    (hdetail : row.detail = some detail) : NoDel (.obj detail) := by
  have hget : Dict.get? row.rowDict "detail" = some (.obj detail) := by
    rw [get?_rowDict (by decide)]
    exact congrArg (fun o => some (AuditRow.optDict o)) hdetail
  exact (noDel_obj_iff.1 h _ (Dict.mem_of_get? hget)).2

theorem detailBreak_eq_none_iff {form : Form} :
    detailBreak H row form = none ↔ (form = .two → OpensCommitment H row) := by
  cases form with
  | one => simp [detailBreak]
  | two =>
    cases hdetail : row.detail with
    | none => simp [detailBreak, hdetail, OpensCommitment]
    | some detail =>
      have hmatch : matchesCanon row.rowDict (fun canon => decide (detailCommitment H
          (row.detailSalt.getD "") (.obj detail) canon = row.detailCommitment.getD "")) = true
          ↔ ∃ text, Spells text (.obj detail) ∧ H.hexdigest
            (encode ((row.detailSalt.getD "").toList ++ text))
              = row.detailCommitment.getD "" := by
        rw [matchesCanon_iff [.obj detail] (fun data => H.hexdigest
          ((row.detailSalt.getD "").toUTF8 ++ data) = row.detailCommitment.getD "")
          (fun canon => by simp [detailCommitment])
          (fun h v hv => by rw [List.mem_singleton.1 hv]; exact h.detail hdetail)]
        simp only [List.mem_singleton, exists_eq_left, toUTF8_append_encode]
      simp only [detailBreak, hdetail, OpensCommitment, Option.some.injEq, forall_eq',
        forall_const, ← hmatch]
      split_ifs with hsalt hm
      · simp [hsalt]
      · simpa [hm] using hsalt
      · simp [hm]

theorem matchesCanon_hash_iff {form : Form} :
    matchesCanon row.rowDict (hashMatches H row form row.rowDict) = true
      ↔ HashOver H row form := by
  have hdel : NoDel (.obj row.rowDict) →
      ∀ v ∈ (form.preimages row.rowDict).map Json.obj, NoDel v := by
    intro h v hv
    obtain ⟨d, hd, rfl⟩ := List.mem_map.1 hv
    exact h.preimage hd
  rw [matchesCanon_iff _ (fun data => H.hexdigest data = row.hash)
    (fun canon => hashMatches_iff) hdel]
  simp [HashOver]

/-- **What `_row_break` accepts.** -/
theorem rowBreak_eq_none_iff :
    rowBreak H row = none ↔
      ∃ form, Form.ofId row.formId = some form ∧ (form = .two → OpensCommitment H row) ∧
        HashOver H row form := by
  unfold rowBreak
  cases hform : Form.ofId row.formId with
  | none => simp
  | some form =>
    simp only [Option.some.injEq, exists_eq_left', ← detailBreak_eq_none_iff,
      ← matchesCanon_hash_iff]
    cases hdetail : detailBreak H row form with
    | some | none => simp

end Fasten
