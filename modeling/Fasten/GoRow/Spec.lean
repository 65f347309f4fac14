import Fasten.GoRow
import Fasten.RowHash.Binding

set_option autoImplicit false

/-! # What the Go row check accepts

`rowBreak` accepts a row whose hash is over one of the maps its form hashes, spelt with DEL escaped
or raw, and whose `detail`, under form `"2"`, opens the commitment. A map's bytes determine what the
encoder saw of it, so rows with one hash agree on `detail` and on the timestamps they hash. -/

namespace Fasten.Go.Row

open JsonText

variable {H : Sha256}

theorem canon_eq (escapeDEL : Bool) (v : Value) :
    canon escapeDEL v = encode (canonicalJSONText escapeDEL v) := by
  cases escapeDEL <;> rfl

theorem canon_congr {v w : Value} (h : numerals v = numerals w) (escapeDEL : Bool) :
    canon escapeDEL v = canon escapeDEL w := by
  rw [canon_eq, canon_eq, canonicalJSONText, canonicalJSONText, encodeJSON, encodeJSON, h]

theorem numerals_eq_of_canon_eq {v w : Value} {escapeDEL escapeDEL' : Bool}
    (h : canon escapeDEL v = canon escapeDEL' w) : numerals v = numerals w := by
  rw [canon_eq, canon_eq] at h
  exact numerals_eq_of_canonicalJSONText_eq (encode_injective h)

/-! ## The hashed maps -/

/-- The entries in which a form's hashed maps of a row differ. -/
abbrev Entries := (String × Value) × String × Value

def overShippedAt (row : Row) (form : Form) (shippedAt : Instant) : List Entries :=
  match form with
  | .one =>
    [(("detail", row.detailValue), row.timestamp.pyISOFormat, .str shippedAt.pyISOFormat),
      (("detail", row.detailValue), row.timestamp.canonicalTS, .str shippedAt.canonicalTS)]
  | .two => [(row.commitmentEntry, row.timestamp.canonicalTS, .str shippedAt.canonicalTS)]

def unshipped (row : Row) (form : Form) : List Entries :=
  match form with
  | .one =>
    [(("detail", row.detailValue), row.timestamp.pyISOFormat, .null),
      (("detail", row.detailValue), row.timestamp.canonicalTS, .null)]
  | .two => [(row.commitmentEntry, row.timestamp.canonicalTS, .null)]

def variants (row : Row) (form : Form) : List Entries :=
  row.unshipped form ++ (row.shippedAt.map (row.overShippedAt form)).getD []

/-- The map with these entries. -/
def mapWith (row : Row) (e : Entries) : Value := row.rowMap e.1 e.2.1 e.2.2

variable {row : Row} {form : Form} {e : Entries}

theorem hashMatches_iff {escapeDEL : Bool} :
    hashMatches H row form escapeDEL = true ↔
      ∃ e ∈ row.variants form, H.hexdigest (canon escapeDEL (row.mapWith e)) = row.hash := by
  simp only [hashMatches, Bool.or_eq_true, Bool.and_eq_true, decide_eq_true_eq]
  cases form with
  | one =>
    cases hship : row.shippedAt with
    | none =>
      simp [variants, unshipped, hship, hashFn, rowHashForm1With, rowHashForm1LegacyZ, mapWith,
        pyCanonicalRowMap]
    | some t =>
      simp [variants, unshipped, hship, overShippedAt, hashFn, rowHashForm1With,
        rowHashForm1LegacyZ, rowHashesOverShippedAt, mapWith, pyCanonicalRowMap,
        @eq_comm _ row.hash, or_assoc]
  | two =>
    cases hship : row.shippedAt with
    | none => simp [variants, unshipped, hship, hashFn, rowHashForm2With, mapWith]
    | some t =>
      simp [variants, unshipped, hship, overShippedAt, hashFn, rowHashForm2With,
        rowHashesOverShippedAt, mapWith, @eq_comm _ row.hash]

/-- The spellings a row is checked in. -/
def Spelt (row : Row) (escapeDEL : Bool) : Prop := escapeDEL = true ∨ hasDEL row = true

theorem matchesCanon_iff {check : Bool → Bool} :
    matchesCanon row check = true ↔ ∃ escapeDEL, row.Spelt escapeDEL ∧ check escapeDEL = true := by
  simp only [matchesCanon, Spelt, Bool.or_eq_true, Bool.and_eq_true, Bool.exists_bool]
  simp only [reduceCtorEq, false_or, true_or, true_and]
  exact or_comm

/-- The commitment, when there is a `detail` to open it to. -/
def OpensCommitment (H : Sha256) (row : Row) : Prop :=
  ∀ detail, row.detail = some detail → row.detailSalt ≠ "" ∧ ∃ escapeDEL, row.Spelt escapeDEL
    ∧ detailCommitmentWith H row.detailSalt detail.value escapeDEL = row.detailCommitment

theorem detailBreak_eq_none_iff :
    detailBreak H row form = none ↔ (form = .two → OpensCommitment H row) := by
  cases form with
  | one => simp [detailBreak]
  | two =>
    simp only [detailBreak, OpensCommitment, true_imp_iff]
    cases hd : row.detail with
    | none => simp
    | some detail =>
      simp only [Option.some.injEq, forall_eq']
      by_cases hsalt : row.detailSalt = ""
      · simp [hsalt]
      · rw [if_neg hsalt]
        by_cases hm : matchesCanon row (fun escapeDEL =>
            decide (detailCommitmentWith H row.detailSalt detail.value escapeDEL
              = row.detailCommitment)) = true
        · rw [if_pos hm]
          simpa [hsalt] using matchesCanon_iff.1 hm
        · rw [if_neg hm]
          rw [matchesCanon_iff] at hm
          simpa [hsalt] using hm

/-- **What the check accepts.** -/
theorem rowBreak_eq_none_iff :
    rowBreak H row = none ↔ ∃ form, Form.ofId row.formId = some form
      ∧ (form = .two → OpensCommitment H row)
      ∧ ∃ escapeDEL, row.Spelt escapeDEL ∧ ∃ e ∈ row.variants form,
        H.hexdigest (canon escapeDEL (row.mapWith e)) = row.hash := by
  rw [rowBreak]
  cases hform : Form.ofId row.formId with
  | none => simp
  | some form =>
    simp only [Option.some.injEq, exists_eq_left', ← detailBreak_eq_none_iff, ← hashMatches_iff,
      ← matchesCanon_iff]
    cases detailBreak H row form with
    | some | none => simp

/-- A hash that was checked is never empty. -/
theorem hash_ne_empty (h : rowBreak H row = none) : row.hash ≠ "" := by
  obtain ⟨_, _, _, _, _, _, _, hhash⟩ := rowBreak_eq_none_iff.1 h
  exact hhash ▸ H.nonempty _

theorem entry_of_mem_variants_one (h : e ∈ row.variants .one) :
    e.1 = ("detail", row.detailValue) := by
  rcases List.mem_append.1 h with h | h
  · simp only [unshipped, List.mem_cons, List.not_mem_nil, or_false] at h
    rcases h with rfl | rfl <;> rfl
  · cases hs : row.shippedAt with
    | none => simp [hs] at h
    | some s =>
      simp only [hs, Option.map_some, Option.getD_some, overShippedAt, List.mem_cons,
        List.not_mem_nil, or_false] at h
      rcases h with rfl | rfl <;> rfl

/-! ## Sealed rows -/

theorem formId_ne_empty (row : Row) : row.formId ≠ "" := by
  rw [formId]
  split_ifs with h
  · decide
  · exact h

theorem wire_ne_empty (row : Row) : row.wire ≠ "" := by
  rw [wire]
  split_ifs with h
  · decide
  · exact h

/-- **A sealed row passes the check.** -/
theorem rowBreak_sealRow (token : Token) (prevHash : String) (row : Row) :
    rowBreak H (sealRow H token prevHash row) = none := by
  refine rowBreak_eq_none_iff.2 ⟨.two, rfl, fun _ detail hdetail => ⟨?_, true, Or.inl rfl, ?_⟩,
    true, Or.inl rfl, _, List.mem_append_left _ (List.mem_singleton_self _), rfl⟩
  · show (if row.detailSalt = "" then token.val else row.detailSalt) ≠ ""
    split_ifs with hsalt
    · exact token.property
    · exact hsalt
  · have hvalue : row.detailValue = detail.value := by
      rw [detailValue, show row.detail = some detail from hdetail]
    rw [← hvalue]
    rfl

/-- A row that passes without its `ShippedAt` passes with it. -/
theorem rowBreak_of_unshipped (h : rowBreak H { row with shippedAt := none } = none) :
    rowBreak H row = none := by
  obtain ⟨form, hform, hopens, escapeDEL, hspelt, e, he, hhash⟩ := rowBreak_eq_none_iff.1 h
  refine rowBreak_eq_none_iff.2 ⟨form, hform, hopens, escapeDEL, hspelt, e, ?_, hhash⟩
  rw [variants, Option.map_none, Option.getD_none, List.append_nil] at he
  exact List.mem_append_left _ he

/-! ## Stored rows -/

/-- The row with what a store may give back differently. -/
def stored (row : Row) (detail : Option Object) (timestamp : Instant)
    (shippedAt : Option Instant) : Row :=
  { row with
    wireVersion := row.wire
    canonicalFormId := row.formId
    detail := detail
    timestamp := timestamp
    shippedAt := shippedAt }

section Stored

variable {row : Row} {detail : Option Object} {timestamp : Instant} {shippedAt : Option Instant}

@[simp] theorem stored_timestamp :
    (row.stored detail timestamp shippedAt).timestamp = timestamp := rfl

@[simp] theorem stored_shippedAt :
    (row.stored detail timestamp shippedAt).shippedAt = shippedAt := rfl

@[simp] theorem commitmentEntry_stored :
    (row.stored detail timestamp shippedAt).commitmentEntry = row.commitmentEntry := rfl

@[simp] theorem formId_stored : (row.stored detail timestamp shippedAt).formId = row.formId :=
  if_neg row.formId_ne_empty

@[simp] theorem wire_stored : (row.stored detail timestamp shippedAt).wire = row.wire :=
  if_neg row.wire_ne_empty

@[simp] theorem rowMap_stored :
    (row.stored detail timestamp shippedAt).rowMap = row.rowMap := by
  funext e t s
  simp only [rowMap, formId_stored, wire_stored]
  rfl

theorem numerals_rowMap_congr {k t : String} {d d' s : Value} (h : numerals d = numerals d') :
    numerals (row.rowMap (k, d) t s) = numerals (row.rowMap (k, d') t s) := by
  simp only [numerals] at h
  simp only [rowMap, numerals, JsonTree.map, JsonTree.mapMembers, h]

/-- Equal bytes of two hashed maps of a row. -/
theorem numerals_rowMap_inj {e' : Entries}
    (h : numerals (row.mapWith e) = numerals (row.mapWith e')) :
    numerals e.1.2 = numerals e'.1.2 ∧ e.2.1 = e'.2.1 ∧ numerals e.2.2 = numerals e'.2.2 := by
  obtain ⟨⟨k, d⟩, t, s⟩ := e
  obtain ⟨⟨k', d'⟩, t', s'⟩ := e'
  simp only [mapWith, rowMap, numerals, JsonTree.map, JsonTree.mapMembers, JsonTree.obj.injEq,
    List.cons.injEq, Prod.mk.injEq, true_and, and_true, JsonTree.str.injEq] at h
  exact ⟨h.1.2, h.2.2, h.2.1⟩

theorem numerals_detailValue
    (h : detail.map (fun o => numerals o.value) = row.detail.map (fun o => numerals o.value)) :
    numerals (row.stored detail timestamp shippedAt).detailValue = numerals row.detailValue := by
  simp only [detailValue, stored]
  cases hd : detail with
  | none =>
    rw [hd, Option.map_none, eq_comm, Option.map_eq_none_iff] at h
    rw [h]
  | some o =>
    rw [hd, Option.map_some, eq_comm, Option.map_eq_some_iff] at h
    obtain ⟨o', ho', hnumerals⟩ := h
    rw [ho', hnumerals]

theorem spelt_stored
    (hdetail : detail.map (fun o => numerals o.value) = row.detail.map (fun o => numerals o.value))
    (htime : timestamp.pyISOFormat = row.timestamp.pyISOFormat) (escapeDEL : Bool) :
    (row.stored detail timestamp shippedAt).Spelt escapeDEL ↔ row.Spelt escapeDEL := by
  have hmap : numerals (pyCanonicalRowMap (row.stored detail timestamp shippedAt))
      = numerals (pyCanonicalRowMap row) := by
    rw [pyCanonicalRowMap, rowMap_stored]
    exact htime ▸ numerals_rowMap_congr (numerals_detailValue hdetail)
  rw [Spelt, Spelt, hasDEL, hasDEL, encodeJSON, encodeJSON, hmap]

/-- The entries of a stored row: its own `detail`, and the texts of the row's times. -/
theorem variants_stored (htime : timestamp.truncate = row.timestamp.truncate)
    (hshipped : shippedAt.map Instant.truncate = row.shippedAt.map Instant.truncate) :
    (row.stored detail timestamp shippedAt).variants form = (row.variants form).map (fun e =>
      match form with
      | .one => (("detail", (row.stored detail timestamp shippedAt).detailValue), e.2)
      | .two => e) := by
  have hiso := Instant.pyISOFormat_congr htime
  have hts := Instant.canonicalTS_congr htime
  cases hs : row.shippedAt with
  | none =>
    rw [hs, Option.map_none, Option.map_eq_none_iff] at hshipped
    cases form <;> simp [variants, unshipped, hiso, hts, hs, hshipped]
  | some s =>
    rw [hs, Option.map_some, Option.map_eq_some_iff] at hshipped
    obtain ⟨s', hs', htrunc⟩ := hshipped
    have hsiso := Instant.pyISOFormat_congr htrunc
    have hsts := Instant.canonicalTS_congr htrunc
    cases form <;> simp [variants, unshipped, overShippedAt, hiso, hts, hs, hs', hsiso, hsts]

section Back

variable
  (hdetail : detail.map (fun o => numerals o.value) = row.detail.map (fun o => numerals o.value))
  (htime : timestamp.truncate = row.timestamp.truncate)
  (hshipped : shippedAt.map Instant.truncate = row.shippedAt.map Instant.truncate)

include hdetail htime hshipped

theorem exists_variant_stored (he : e ∈ row.variants form) :
    ∃ e' ∈ (row.stored detail timestamp shippedAt).variants form,
      numerals (row.mapWith e') = numerals (row.mapWith e) := by
  rw [variants_stored htime hshipped]
  refine ⟨_, List.mem_map_of_mem he, ?_⟩
  cases form with
  | two => rfl
  | one =>
    have hentry : e.1 = ("detail", row.detailValue) := entry_of_mem_variants_one he
    rw [mapWith, mapWith, hentry]
    exact numerals_rowMap_congr (numerals_detailValue hdetail)

/-- **A row that comes back with the numerals of its `detail` and its times to the microsecond
    still passes.** -/
theorem rowBreak_stored (h : rowBreak H row = none) :
    rowBreak H (row.stored detail timestamp shippedAt) = none := by
  have hspell := @spelt_stored row detail timestamp shippedAt hdetail
    (Instant.pyISOFormat_congr htime)
  obtain ⟨form, hform, hopens, escapeDEL, hspelt, e, he, hhash⟩ := rowBreak_eq_none_iff.1 h
  obtain ⟨e', he', hnumerals⟩ := exists_variant_stored hdetail htime hshipped he
  refine rowBreak_eq_none_iff.2 ⟨form, by rw [formId_stored, hform], fun htwo o ho => ?_, escapeDEL,
    (hspell escapeDEL).2 hspelt, e', he', ?_⟩
  · -- the commitment opens to what the encoder sees
    have hsome : detail = some o := ho
    rw [hsome, Option.map_some, eq_comm, Option.map_eq_some_iff] at hdetail
    obtain ⟨o', ho', hsame⟩ := hdetail
    obtain ⟨hsalt, del, hdel, hcommit⟩ := hopens htwo o' ho'
    refine ⟨hsalt, del, (hspell del).2 hdel, ?_⟩
    rw [detailCommitmentWith, canon_congr hsame.symm]
    exact hcommit
  · have hmap : (row.stored detail timestamp shippedAt).mapWith e' = row.mapWith e' := by
      rw [mapWith, rowMap_stored]
      rfl
    rw [hmap, canon_congr hnumerals]
    exact hhash

end Back

/-! ## What one hash says about two rows -/

theorem timestamp_of_mem_variants {row : Row} (h : e ∈ row.variants form) :
    e.2.1 = row.timestamp.pyISOFormat ∨ e.2.1 = row.timestamp.canonicalTS := by
  rcases List.mem_append.1 h with h | h
  · cases form with
    | one =>
      simp only [unshipped, List.mem_cons, List.not_mem_nil, or_false] at h
      rcases h with rfl | rfl
      · exact Or.inl rfl
      · exact Or.inr rfl
    | two =>
      rw [List.mem_singleton.1 h]
      exact Or.inr rfl
  · cases hs : row.shippedAt with
    | none => simp [hs] at h
    | some s =>
      rw [hs, Option.map_some, Option.getD_some] at h
      cases form with
      | one =>
        simp only [overShippedAt, List.mem_cons, List.not_mem_nil, or_false] at h
        rcases h with rfl | rfl
        · exact Or.inl rfl
        · exact Or.inr rfl
      | two =>
        rw [List.mem_singleton.1 h]
        exact Or.inr rfl

theorem shippedAt_of_mem_unshipped {row : Row} (h : e ∈ row.unshipped form) : e.2.2 = .null := by
  cases form with
  | one =>
    simp only [unshipped, List.mem_cons, List.not_mem_nil, or_false] at h
    rcases h with rfl | rfl <;> rfl
  | two => rw [List.mem_singleton.1 h]

theorem shippedAt_of_mem_overShippedAt {row : Row} {s : Instant}
    (h : e ∈ row.overShippedAt form s) :
    ∃ text, e.2.2 = .str text ∧ (text = s.pyISOFormat ∨ text = s.canonicalTS) := by
  cases form with
  | one =>
    simp only [overShippedAt, List.mem_cons, List.not_mem_nil, or_false] at h
    rcases h with rfl | rfl
    · exact ⟨_, rfl, Or.inl rfl⟩
    · exact ⟨_, rfl, Or.inr rfl⟩
  | two =>
    rw [List.mem_singleton.1 h]
    exact ⟨_, rfl, Or.inr rfl⟩

/-- Whichever spelling each text is in, equal texts are of one time. -/
theorem truncate_eq_of_texts {a b : Instant} {text : String}
    (ha : text = a.pyISOFormat ∨ text = a.canonicalTS)
    (hb : text = b.pyISOFormat ∨ text = b.canonicalTS) : a.truncate = b.truncate := by
  rcases ha with ha | ha
  · rcases hb with hb | hb
    · exact Instant.pyISOFormat_inj (ha.symm.trans hb)
    · exact absurd (ha.symm.trans hb) (Instant.pyISOFormat_ne_canonicalTS a b)
  · rcases hb with hb | hb
    · exact absurd (hb.symm.trans ha) (Instant.pyISOFormat_ne_canonicalTS b a)
    · exact Instant.canonicalTS_inj (ha.symm.trans hb)

variable (hH : Function.Injective H.hexdigest)

include hH

theorem numerals_eq_of_commitment_eq {salt : String} {v w : Value} {escapeDEL escapeDEL' : Bool}
    (h : detailCommitmentWith H salt v escapeDEL = detailCommitmentWith H salt w escapeDEL') :
    numerals v = numerals w := by
  have hbytes := hH h
  rw [canon_eq, canon_eq, toUTF8_append_encode, toUTF8_append_encode] at hbytes
  exact numerals_eq_of_canonicalJSONText_eq (List.append_cancel_left (encode_injective hbytes))

/-- The entries that two hashes equal to one were taken over. -/
theorem exists_variants (hform : Form.ofId row.formId = some form) (h : rowBreak H row = none)
    (h' : rowBreak H (row.stored detail timestamp shippedAt) = none) :
    ∃ escapeDEL, row.Spelt escapeDEL ∧ ∃ e ∈ row.variants form,
      H.hexdigest (canon escapeDEL (row.mapWith e)) = row.hash
      ∧ ∃ e' ∈ (row.stored detail timestamp shippedAt).variants form,
        numerals e'.1.2 = numerals e.1.2 ∧ e'.2.1 = e.2.1 ∧ numerals e'.2.2 = numerals e.2.2 := by
  obtain ⟨form₁, hform₁, _, del, hdel, e, he, hhash⟩ := rowBreak_eq_none_iff.1 h
  obtain ⟨form₂, hform₂, _, del', _, e', he', hhash'⟩ := rowBreak_eq_none_iff.1 h'
  rw [formId_stored, hform, Option.some.injEq] at hform₂
  rw [hform, Option.some.injEq] at hform₁
  subst hform₁ hform₂
  have hmap : (row.stored detail timestamp shippedAt).mapWith e' = row.mapWith e' := by
    rw [mapWith, rowMap_stored]
    rfl
  rw [hmap] at hhash'
  have hbytes := hH (hhash'.trans hhash.symm)
  exact ⟨del, hdel, e, he, hhash, e', he',
    numerals_rowMap_inj (numerals_eq_of_canon_eq hbytes)⟩

/-- **Rows with one hash agree on `detail`**, through the hash or through the commitment. -/
theorem numerals_detail_eq (h : rowBreak H row = none)
    (h' : rowBreak H (row.stored detail timestamp shippedAt) = none) {o o' : Object}
    (ho : row.detail = some o) (ho' : detail = some o') : numerals o'.value = numerals o.value := by
  have hopens := rowBreak_eq_none_iff.1 h
  have hopens' := rowBreak_eq_none_iff.1 h'
  obtain ⟨form, hform, hopens, _⟩ := hopens
  obtain ⟨form', hform', hopens', _⟩ := hopens'
  rw [formId_stored, hform, Option.some.injEq] at hform'
  subst hform'
  cases form with
  | one =>
    obtain ⟨_, _, e, he, _, e', he', hnumerals, _⟩ := exists_variants hH hform h h'
    rw [entry_of_mem_variants_one he, entry_of_mem_variants_one he'] at hnumerals
    have hvalue : row.detailValue = o.value := by rw [detailValue, ho]
    have hvalue' : (row.stored detail timestamp shippedAt).detailValue = o'.value := by
      rw [detailValue, show (row.stored detail timestamp shippedAt).detail = some o' from ho']
    rwa [hvalue, hvalue'] at hnumerals
  | two =>
    obtain ⟨_, del, _, hcommit⟩ := hopens rfl o ho
    obtain ⟨_, del', _, hcommit'⟩ := hopens' rfl o' ho'
    exact numerals_eq_of_commitment_eq hH (hcommit'.trans hcommit.symm)

theorem timestamp_eq (h : rowBreak H row = none)
    (h' : rowBreak H (row.stored detail timestamp shippedAt) = none) :
    timestamp.truncate = row.timestamp.truncate := by
  obtain ⟨form, hform, _⟩ := rowBreak_eq_none_iff.1 h
  obtain ⟨_, _, e, he, _, e', he', _, htime, _⟩ := exists_variants hH hform h h'
  exact truncate_eq_of_texts (timestamp_of_mem_variants he')
    (htime ▸ timestamp_of_mem_variants he)

/-- The hash is over no `ShippedAt`, or over that of both rows. -/
theorem unshipped_or_shippedAt_eq (h : rowBreak H row = none)
    (h' : rowBreak H (row.stored detail timestamp shippedAt) = none) :
    rowBreak H { row with shippedAt := none } = none
      ∨ shippedAt.map Instant.truncate = row.shippedAt.map Instant.truncate := by
  obtain ⟨form, hform, hopens, _⟩ := rowBreak_eq_none_iff.1 h
  obtain ⟨del, hdel, e, he, hhash, e', he', _, _, hship⟩ := exists_variants hH hform h h'
  rcases List.mem_append.1 he with he | he
  · left
    exact rowBreak_eq_none_iff.2 ⟨form, hform, hopens, del, hdel, e,
      List.mem_append_left _ he, hhash⟩
  · right
    cases hs : row.shippedAt with
    | none => simp [hs] at he
    | some s =>
      rw [hs, Option.map_some, Option.getD_some] at he
      obtain ⟨text, htext, hspelling⟩ := shippedAt_of_mem_overShippedAt he
      rw [htext] at hship
      rcases List.mem_append.1 he' with he' | he'
      · -- a null is no text
        rw [shippedAt_of_mem_unshipped he'] at hship
        cases hship
      · cases hs' : shippedAt with
        | none => simp [hs'] at he'
        | some s' =>
          rw [stored_shippedAt, hs', Option.map_some, Option.getD_some] at he'
          obtain ⟨text', htext', hspelling'⟩ := shippedAt_of_mem_overShippedAt he'
          rw [htext'] at hship
          have hsame : text' = text := JsonTree.str.inj hship
          rw [Option.map_some, Option.map_some,
            truncate_eq_of_texts hspelling' (hsame ▸ hspelling)]

end Stored

end Fasten.Go.Row
