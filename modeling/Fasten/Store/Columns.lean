import Fasten.RowHash.Binding
import Fasten.Store

set_option autoImplicit false

/-! # Rows that the columns give back

A stored row is read back with `wire_version` `"1"` and without an empty `detail_commitment`, both
of which hashes cover. `rowBreak_stored_iff` says which valid rows are still valid after that. -/

namespace Fasten

variable {H : Sha256}

/-- Every hashed field of the row is read back as it was. -/
def Storable (r : AuditRow) : Prop :=
  r.wireVersion = "1" ∧ (r.formId = "2" → r.detailCommitment ≠ some "")

instance (r : AuditRow) : Decidable (Storable r) :=
  inferInstanceAs (Decidable (_ ∧ _))

/-- The hash covers `wire_version`, so a row that is read back with another one fails. -/
theorem rowBreak_stored_ne_none (hH : Function.Injective H.hexdigest) {row : AuditRow}
    (hrow : rowBreak H row = none) (hwire : row.wireVersion ≠ "1") :
    rowBreak H row.stored ≠ none := by
  intro h
  have hagree : AgreeHashed row.stored row := agreeHashed_of_hash_eq hH h hrow rfl
  exact hwire hagree.wireVersion.symm

theorem orNone_eq_self {o : Option String} (h : o ≠ some "") : orNone o = o := by
  cases o with
  | none => rfl
  | some s => simp only [orNone, if_neg (fun hs : s = "" => h (by rw [hs]))]

theorem getD_orNone (o : Option String) : (orNone o).getD "" = o.getD "" := by
  cases o with
  | none => rfl
  | some s => by_cases h : s = "" <;> simp [orNone, h]

theorem Form.eq_of_ofId_two {s : String} (h : Form.ofId s = some .two) : s = "2" := by
  unfold Form.ofId at h
  split_ifs at h with hone htwo
  · exact Form.noConfusion (Option.some.inj h)
  · exact htwo

/-- What the hash of a storable row is over does not change. -/
theorem drop_rowDict_stored {row : AuditRow} {form : Form} (hrow : Storable row)
    (hform : Form.ofId row.formId = some form) :
    Dict.drop row.stored.rowDict form.excluded = Dict.drop row.rowDict form.excluded := by
  have hstored : row.stored = { row with
      canonicalFormId := row.formId
      detailSalt := orNone row.detailSalt
      detailCommitment := orNone row.detailCommitment } := by
    simp only [AuditRow.stored, ← hrow.1]
  have hdict : row.stored.rowDict = Dict.adjust row.stored.toDict "canonical_form_id"
      (fun _ => .str row.formId) := by
    rw [AuditRow.rowDict, AuditRow.formId_stored]
  rw [hdict, hstored]
  cases form with
  | one => rfl
  | two =>
    have htwo : row.formId = "2" := Form.eq_of_ofId_two hform
    rw [orNone_eq_self (hrow.2 htwo)]
    rfl

theorem hashedFields_eq_of_drop_eq {d d' : List (String × Json)} {ks : List String}
    (h : Dict.drop d ks = Dict.drop d' ks) : hashedFields d ks = hashedFields d' ks := by
  rw [hashedFields, hashedFields, h]

theorem preimages_stored {row : AuditRow} {form : Form} (hrow : Storable row)
    (hform : Form.ofId row.formId = some form) :
    form.preimages row.stored.rowDict = form.preimages row.rowDict := by
  have hdrop := drop_rowDict_stored hrow hform
  have hfields := hashedFields_eq_of_drop_eq hdrop
  cases form with
  | one => simp only [Form.preimages, show form1Excluded = Form.excluded .one from rfl, hdrop, hfields]
  | two => simp only [Form.preimages, show form2Excluded = Form.excluded .two from rfl, hdrop, hfields]

/-- **Which valid rows stay valid in the store.** -/
theorem rowBreak_stored_iff (hH : Function.Injective H.hexdigest) {row : AuditRow}
    (hrow : rowBreak H row = none) : rowBreak H row.stored = none ↔ Storable row := by
  constructor
  · intro h
    have hagree : AgreeHashed row.stored row := agreeHashed_of_hash_eq hH h hrow rfl
    refine ⟨hagree.wireVersion.symm, fun hform hempty => ?_⟩
    have hcommitment := hagree.form2Commitment (by rw [AuditRow.formId_stored, hform])
    rw [hempty] at hcommitment
    have hnone : row.stored.detailCommitment = none := by
      show orNone row.detailCommitment = none
      rw [hempty]
      rfl
    rw [hnone] at hcommitment
    exact absurd hcommitment (by simp)
  · intro hstorable
    obtain ⟨form, hform, hopens, d, hd, text, hspells, hhash⟩ := rowBreak_eq_none_iff.1 hrow
    refine rowBreak_eq_none_iff.2 ⟨form, by rw [AuditRow.formId_stored]; exact hform, fun htwo => ?_,
      d, by rw [preimages_stored hstorable hform]; exact hd, text, hspells, hhash⟩
    intro detail hdetail
    obtain ⟨hsalt, text', hspells', hcommit⟩ := hopens htwo detail hdetail
    have hsalt' : row.stored.detailSalt.getD "" = row.detailSalt.getD "" := getD_orNone _
    have hcommit' : row.stored.detailCommitment.getD "" = row.detailCommitment.getD "" :=
      getD_orNone _
    rw [hsalt', hcommit']
    exact ⟨hsalt, text', hspells', hcommit⟩

end Fasten
