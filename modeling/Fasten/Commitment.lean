import Fasten.GoJson.Canonical
import Fasten.GoRow.Spec
import Fasten.RowHash.Seal

set_option autoImplicit false

/-! # What a detail commitment binds

A commitment is `sha256(salt + canonical JSON of detail)`, without a separator and without a check of
the salt's length (`detail_commitment`, `detailCommitmentWith`, spec §1.4). Python and Go write the
same texts, so an object text is taken off the end of the hashed bytes in one way only: whoever opens
a commitment shows the same salt and the same detail. -/

namespace Fasten

open JsonText

/-! ## Bytes -/

/-- The bytes of an object in either SDK's canonical JSON, with DEL escaped or raw, and the tokens
    it is made of. -/
inductive IsCanonical : ByteArray → JsonTree Numeral String → Prop
  | canonicalJson (d : List (String × Json)) :
      IsCanonical (Fasten.canonicalJson (.obj d)) (Json.obj d).sortKeys.tree
  | canonicalJsonRawDel (d : List (String × Json)) :
      IsCanonical (Fasten.canonicalJsonRawDel (.obj d)) (Json.obj d).sortKeys.tree
  | canonicalJSON (members : List (String × Go.Value)) :
      IsCanonical (Go.canonicalJSON (.obj members)) (Go.numerals (.obj members))
  | canonicalJSONRawDEL (members : List (String × Go.Value)) :
      IsCanonical (Go.canonicalJSONRawDEL (.obj members)) (Go.numerals (.obj members))

/-- All four are texts of an object by an encoder that Go's reader reads. -/
theorem IsCanonical.exists_writer {bytes : ByteArray} {t : JsonTree Numeral String}
    (h : IsCanonical bytes t) :
    ∃ escapeDEL, Scannable (textWriter (Go.canonicalEscape escapeDEL) [])
      ∧ bytes = encode (write (textWriter (Go.canonicalEscape escapeDEL) []) t)
      ∧ ∃ members, t = .obj members := by
  have htrue : Go.canonicalEscape true = asciiEscape :=
    funext Go.canonicalEscape_eq_asciiEscape
  have hfalse : Go.canonicalEscape false = rawDelEscape :=
    funext Go.canonicalEscape_eq_rawDelEscape
  have hescaped : Scannable (textWriter (Go.canonicalEscape true) []) :=
    htrue ▸ scannable_textWriter escaped_asciiEscape (by simp)
  have hraw : Scannable (textWriter (Go.canonicalEscape false) []) :=
    hfalse ▸ scannable_textWriter escaped_rawDelEscape (by simp)
  cases h with
  | canonicalJson d =>
    exact ⟨true, hescaped, by rw [htrue, ← canonicalText_eq_write]; rfl, _, rfl⟩
  | canonicalJsonRawDel d =>
    exact ⟨false, hraw, by rw [hfalse, ← subRawDel_canonicalText_eq_write]; rfl, _, rfl⟩
  | canonicalJSON members =>
    exact ⟨true, hescaped, by rw [← Go.canonicalJSONText_eq_write]; rfl, _, rfl⟩
  | canonicalJSONRawDEL members =>
    exact ⟨false, hraw, by rw [← Go.canonicalJSONText_eq_write]; rfl, _, rfl⟩

/-- **The bytes of a salt and of a canonical object determine both.** -/
theorem IsCanonical.append_inj {bytes bytes' : ByteArray} {t t' : JsonTree Numeral String}
    (h : IsCanonical bytes t) (h' : IsCanonical bytes' t') {salt salt' : String}
    (heq : salt.toUTF8 ++ bytes = salt'.toUTF8 ++ bytes') : salt = salt' ∧ t = t' := by
  obtain ⟨del, hscan, rfl, members, rfl⟩ := h.exists_writer
  obtain ⟨del', hscan', rfl, members', rfl⟩ := h'.exists_writer
  rw [toUTF8_append_encode, toUTF8_append_encode] at heq
  obtain ⟨hsalt, htext⟩ := hscan.append_inj hscan' (encode_injective heq)
  exact ⟨String.toList_injective hsalt,
    write_inj (Go.reads_canonical del) (Go.reads_canonical del') htext⟩

/-! ## Rows -/

/-- A row of either SDK that passes the check of that SDK and shows its detail: the commitment, the
    salt and the detail's tokens. -/
inductive Opens (H : Sha256) : String → String → JsonTree Numeral String → Prop
  | python (row : AuditRow) (d : List (String × Json)) (hcheck : rowBreak H row = none)
      (hform : row.formId = "2") (hdetail : row.detail = some d) :
      Opens H (row.detailCommitment.getD "") (row.detailSalt.getD "") (Json.obj d).sortKeys.tree
  | go (row : Go.Row) (o : Go.Object) (hcheck : row.rowBreak H = none)
      (hform : row.formId = "2") (hdetail : row.detail = some o) :
      Opens H row.detailCommitment row.detailSalt (Go.numerals o.value)

theorem Opens.exists_bytes {H : Sha256} {commitment salt : String} {t : JsonTree Numeral String}
    (h : Opens H commitment salt t) :
    ∃ bytes, IsCanonical bytes t ∧ H.hexdigest (salt.toUTF8 ++ bytes) = commitment := by
  have htwo : Form.ofId "2" = some .two := by decide
  cases h with
  | python row d hcheck hform hdetail =>
    obtain ⟨form, hof, hopens, -⟩ := rowBreak_eq_none_iff.1 hcheck
    rw [hform, htwo, Option.some.injEq] at hof
    obtain ⟨-, text, hspells, hcommit⟩ := hopens hof.symm d hdetail
    rw [← toUTF8_append_encode] at hcommit
    rcases hspells with rfl | rfl
    · exact ⟨_, .canonicalJson d, hcommit⟩
    · exact ⟨_, .canonicalJsonRawDel d, hcommit⟩
  | go row o hcheck hform hdetail =>
    obtain ⟨form, hof, hopens, -⟩ := Go.Row.rowBreak_eq_none_iff.1 hcheck
    rw [hform, htwo, Option.some.injEq] at hof
    obtain ⟨-, escapeDEL, -, hcommit⟩ := hopens hof.symm o hdetail
    cases escapeDEL with
    | true => exact ⟨_, .canonicalJSON o.members, hcommit⟩
    | false => exact ⟨_, .canonicalJSONRawDEL o.members, hcommit⟩

/-- **A commitment binds salt and detail.** Equal bytes have equal salts and equal objects, and with
    a digest without collisions, rows of either SDK that pass its check with one commitment show the
    same salt and the same detail. -/
theorem commitment_binds (H : Sha256) :
    (∀ (salt salt' : String) (d d' : List (String × Json)),
        salt.toUTF8 ++ canonicalJson (.obj d) = salt'.toUTF8 ++ canonicalJson (.obj d') →
        salt = salt' ∧ (Json.obj d).sortKeys = (Json.obj d').sortKeys)
      ∧ (∀ (salt salt' : String) (o o' : Go.Object),
        salt.toUTF8 ++ Go.canonicalJSON o.value = salt'.toUTF8 ++ Go.canonicalJSON o'.value →
        salt = salt' ∧ Go.numerals o.value = Go.numerals o'.value)
      ∧ (Function.Injective H.hexdigest → ∀ {commitment salt salt' : String}
          {t t' : JsonTree Numeral String},
        Opens H commitment salt t → Opens H commitment salt' t' → salt = salt' ∧ t = t') := by
  refine ⟨fun salt salt' d d' h => ?_, fun salt salt' o o' h => ?_,
    fun hH commitment salt salt' t t' h h' => ?_⟩
  · obtain ⟨hsalt, htree⟩ := (IsCanonical.canonicalJson d).append_inj (.canonicalJson d') h
    exact ⟨hsalt, tree_inj _ htree⟩
  · exact (IsCanonical.canonicalJSON o.members).append_inj (.canonicalJSON o'.members) h
  · obtain ⟨bytes, hbytes, hcommit⟩ := h.exists_bytes
    obtain ⟨bytes', hbytes', hcommit'⟩ := h'.exists_bytes
    exact hbytes.append_inj hbytes' (hH (hcommit.trans hcommit'.symm))

theorem commitment_binds_sealed : ∃ commitment salt t, Opens plainDigest commitment salt t
    ∧ t = (Json.obj [("ids", .arr [.int 7, .null]), ("user", .obj [("mail", .str "a@b.c")])]).tree
    ∧ ∀ salt' t', Opens plainDigest commitment salt' t' → salt = salt' ∧ t = t' := by
  have hopens := Opens.python
    (sealRow plainDigest Token.salt "genesis" { AuditRow.sample "evt-1" 1 with
      detail := some [("user", .obj [("mail", .str "a@b.c")]), ("ids", .arr [.int 7, .null])] })
    _ (rowBreak_sealRow _ _ _) rfl rfl
  exact ⟨_, _, _, hopens, rfl, fun _ _ h =>
    (commitment_binds plainDigest).2.2 plainDigest_injective hopens h⟩

end Fasten
