import Fasten.RowHash.Spec

set_option autoImplicit false

/-! # Sealed rows pass the check

A row that `seal` returns passes `_row_break`. It still does when it is marked as shipped later, and
a form `"2"` row also when it is redacted. -/

namespace Fasten

open TextCodec

variable {H : Sha256}

/-! ## The fields `seal` sets -/

section

variable (token : Token) (prevHash : String) (row : AuditRow)

@[simp] theorem sealRow_monotonicSeq :
    (sealRow H token prevHash row).monotonicSeq = row.monotonicSeq := rfl

@[simp] theorem sealRow_shippedAt :
    (sealRow H token prevHash row).shippedAt = row.shippedAt := rfl

theorem sealRow_isSealed : (sealRow H token prevHash row).isSealed = true :=
  AuditRow.isSealed_iff.2 (H.nonempty _)

end

/-! ## The row dict of a form `"2"` row -/

variable {row : AuditRow}

theorem formId_of_canonicalFormId (h : row.canonicalFormId = "2") : row.formId = "2" := by
  simp [AuditRow.formId, h]

theorem rowDict_eq_toDict (h : row.formId = row.canonicalFormId) : row.rowDict = row.toDict := by
  rw [AuditRow.rowDict, h]
  simp [Dict.adjust, AuditRow.toDict]

/-! ## Sealing -/

theorem sealSalt_ne_empty (token : Token) (row : AuditRow) : sealSalt token row ≠ "" := by
  unfold sealSalt
  cases row.detailSalt with
  | none => exact token.property
  | some salt =>
    by_cases h : salt = ""
    · simpa [h] using token.property
    · simp [h]

theorem opensCommitment_sealRow (token : Token) (prevHash : String) (row : AuditRow) :
    OpensCommitment H (sealRow H token prevHash row) := by
  intro detail hdetail
  have hrow : row.detail = some detail := hdetail
  refine ⟨sealSalt_ne_empty token row, _, Or.inl rfl, ?_⟩
  rw [← toUTF8_append_encode]
  show _ = detailCommitment H (sealSalt token row) (AuditRow.optDict row.detail) canonicalJson
  rw [hrow]
  rfl

theorem hashedFields_setShippedAt (row : AuditRow) (shippedAt : Option Datetime) (form : Form) :
    hashedFields { row with shippedAt := shippedAt }.rowDict form.excluded
      = hashedFields row.rowDict form.excluded := by
  cases form <;> rfl

/-- A form `"2"` row with its own hash is valid whatever its `shipped_at`. -/
theorem rowBreak_of_form2 (hform : row.formId = "2") (hopens : OpensCommitment H row)
    (hhash : rowHashForm2 H row.rowDict canonicalJson = row.hash) (shippedAt : Option Datetime) :
    rowBreak H { row with shippedAt := shippedAt } = none := by
  refine rowBreak_eq_none_iff.2 ⟨.two, ?_, fun _ => hopens, _, List.mem_cons_self, _,
    Or.inl rfl, ?_⟩
  · show Form.ofId row.formId = some .two
    rw [hform]
    rfl
  · show H.hexdigest (canonicalJson (.obj (hashedFields _ (Form.excluded .two)))) = row.hash
    rw [hashedFields_setShippedAt]
    exact hhash

/-- **A sealed row passes the check**, also with another `shipped_at`. -/
theorem rowBreak_sealRow_shippedAt (token : Token) (prevHash : String) (row : AuditRow)
    (shippedAt : Option Datetime) :
    rowBreak H { sealRow H token prevHash row with shippedAt := shippedAt } = none := by
  have hform : (sealRow H token prevHash row).formId = "2" := formId_of_canonicalFormId rfl
  refine rowBreak_of_form2 hform (opensCommitment_sealRow token prevHash row) ?_ shippedAt
  rw [rowDict_eq_toDict hform]
  rfl

theorem rowBreak_sealRow (token : Token) (prevHash : String) (row : AuditRow) :
    rowBreak H (sealRow H token prevHash row) = none :=
  rowBreak_sealRow_shippedAt token prevHash row (sealRow H token prevHash row).shippedAt

/-! ## Shipping and redacting -/

/-- Every preimage of a row that was never shipped hashes `shipped_at` as null. -/
theorem preimages_of_unshipped (h : row.shippedAt = none) {form : Form} {d : List (String × Json)}
    (hd : d ∈ form.preimages row.rowDict) :
    d = hashedFields row.rowDict form.excluded
      ∨ form = .one ∧ d = toHashedForm (hashedFields row.rowDict form.excluded) := by
  cases form with
  | one =>
    simp only [Form.preimages, ← hashedFields_of_unshipped h, adjust_hashedFields_shippedAt,
      List.mem_cons, List.not_mem_nil, or_false] at hd
    rcases hd with rfl | rfl | rfl | rfl
    · exact Or.inr ⟨rfl, rfl⟩
    · exact Or.inl rfl
    · exact Or.inr ⟨rfl, rfl⟩
    · exact Or.inl rfl
  | two =>
    simp only [Form.preimages, ← hashedFields_of_unshipped h, List.mem_cons, List.not_mem_nil,
      or_false] at hd
    rcases hd with rfl | rfl
    · exact Or.inl rfl
    · exact Or.inl rfl

/-- **Shipping a row keeps it valid**, when it was sealed before it was shipped. -/
theorem rowBreak_setShippedAt (h : rowBreak H row = none) (hship : row.shippedAt = none)
    (shippedAt : Option Datetime) : rowBreak H { row with shippedAt := shippedAt } = none := by
  obtain ⟨form, hform, hopens, d, hd, text, hspells, hhash⟩ := rowBreak_eq_none_iff.1 h
  refine rowBreak_eq_none_iff.2 ⟨form, hform, hopens, d, ?_, text, hspells, hhash⟩
  rcases preimages_of_unshipped hship hd with rfl | ⟨rfl, rfl⟩
  · rw [← hashedFields_setShippedAt row shippedAt]
    cases form with
    | one => exact List.mem_cons_of_mem _ List.mem_cons_self
    | two => exact List.mem_cons_self
  · rw [← hashedFields_setShippedAt row shippedAt]
    exact List.mem_cons_self

/-- **Redaction keeps a form `"2"` row valid.** -/
theorem rowBreak_redacted (h : rowBreak H row = none) (hform : row.formId = "2") :
    rowBreak H { row with detail := none, detailSalt := none } = none := by
  obtain ⟨form, hofId, -, d, hd, text, hspells, hhash⟩ := rowBreak_eq_none_iff.1 h
  have htwo : form = .two := by
    rw [hform] at hofId
    exact (Option.some.inj hofId).symm
  subst htwo
  refine rowBreak_eq_none_iff.2 ⟨.two, hofId, fun _ detail hdetail => ?_, d, hd, text, hspells,
    hhash⟩
  exact absurd hdetail (by simp)

/-! ## A digest without collisions -/

/-- Two hex digits a byte. -/
def hexText (bytes : List UInt8) : List Char := bytes.flatMap (fun b => digits 16 2 b.toNat)

theorem hexText_inj {a b : List UInt8} (h : hexText a = hexText b) : a = b := by
  induction a generalizing b with
  | nil =>
    cases b with
    | nil => rfl
    | cons y b =>
      have hlen := congrArg List.length h
      simp [hexText] at hlen
      omega
  | cons x a ih =>
    cases b with
    | nil =>
      have hlen := congrArg List.length h
      simp [hexText] at hlen
    | cons y b =>
      simp only [hexText, List.flatMap_cons] at h
      obtain ⟨hxy, hrest⟩ := List.append_inj h (by simp)
      have hnat : x.toNat = y.toNat := digits_inj (by decide) (by decide)
        (by have := x.toNat_lt; omega) (by have := y.toNat_lt; omega) hxy
      rw [UInt8.toNat_inj.1 hnat, ih hrest]

theorem hexText_hexDigits {bytes : List UInt8} {c : Char} (h : c ∈ hexText bytes) :
    c ∈ "0123456789abcdef".toList := by
  obtain ⟨b, -, hc⟩ := List.mem_flatMap.1 h
  obtain ⟨d, hd, rfl⟩ := exists_digit_of_mem_digits (by decide) hc
  have hall : ∀ i < 16, Nat.digitChar i ∈ "0123456789abcdef".toList := by decide
  exact hall d hd

/-- Tokens to evaluate the model with. -/
def Token.sample : Token := ⟨"5a17", by decide⟩

def Token.salt : Token := ⟨"salt", by decide⟩

/-- A digest without collisions: the hex text of the data itself. -/
def plainDigest : Sha256 where
  hexdigest data := String.ofList ('0' :: hexText data.data.toList)
  nonempty data h := by
    have htext := congrArg String.toList h
    simp at htext
  hexDigits data c hc := by
    simp only [String.toList_ofList, List.mem_cons] at hc
    rcases hc with rfl | hc
    · decide
    · exact hexText_hexDigits hc

theorem plainDigest_injective : Function.Injective plainDigest.hexdigest := by
  intro a b h
  have htext := (List.cons.inj (String.ofList_injective h)).2
  have hlist := hexText_inj htext
  have harr : a.data = b.data := Array.toList_inj.1 hlist
  cases a
  cases b
  simpa using harr

/-! ## A chain to evaluate the model on -/

theorem edge_ne_empty : "edge" ≠ "" := by decide

theorem hub_ne_empty : "hub" ≠ "" := by decide

/-- A row of the node. -/
def sampleAt (node : String) (hnode : node ≠ "") (id : String) (seq : Int) : AuditRow :=
  { AuditRow.sample id seq with sourceNodeId := node, hasSourceNodeId := hnode }

/-- The rows of the node at seqs 1 and 2, as `seal` returns them. -/
def sealedPair (node : String) (hnode : node ≠ "") : AuditRow × AuditRow :=
  let first := sealRow plainDigest Token.sample "genesis" (sampleAt node hnode (node ++ "-1") 1)
  (first, sealRow plainDigest Token.sample first.hash (sampleAt node hnode (node ++ "-2") 2))

structure SealedPair (node : String) (p : AuditRow × AuditRow) : Prop where
  nodes : p.1.sourceNodeId = node ∧ p.2.sourceNodeId = node
  ids : p.1.id = node ++ "-1" ∧ p.2.id = node ++ "-2"
  seqs : p.1.monotonicSeq = 1 ∧ p.2.monotonicSeq = 2
  link : p.2.prevHash = p.1.hash
  checks : rowBreak plainDigest p.1 = none ∧ rowBreak plainDigest p.2 = none
  isSealed : p.1.isSealed = true ∧ p.2.isSealed = true
  unshipped : p.1.shippedAt = none ∧ p.2.shippedAt = none

theorem sealedPair_spec (node : String) (hnode : node ≠ "") :
    SealedPair node (sealedPair node hnode) :=
  ⟨⟨rfl, rfl⟩, ⟨rfl, rfl⟩, ⟨rfl, rfl⟩, rfl, ⟨rowBreak_sealRow _ _ _, rowBreak_sealRow _ _ _⟩,
    ⟨sealRow_isSealed _ _ _, sealRow_isSealed _ _ _⟩, ⟨rfl, rfl⟩⟩

end Fasten
