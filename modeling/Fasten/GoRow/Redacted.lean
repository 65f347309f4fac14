import Fasten.GoRow.RoundTrip

set_option autoImplicit false

/-! # A Go row without its detail

A sealed row of form `"2"` that loses its `detail` and salt still passes `rowBreak`. The check is
retried with DEL raw only for a row that holds DEL, so a row whose DEL was in the `detail` alone is
not retried any more; its hash does not cover the `detail`, and is the same either way. -/

namespace Fasten.Go

open JsonText TextCodec

/-! ## Texts without DEL -/

/-- The encoder writes no DEL. -/
def Clean (v : Value) : Prop := '\x7f' ∉ encodeJSON v

theorem canonicalJSONText_of_clean {v : Value} (h : Clean v) (escapeDEL : Bool) :
    canonicalJSONText escapeDEL v = canonicalJSONText true v := by
  refine List.flatMap_congr fun c hc => ?_
  have hne : c ≠ '\x7f' := fun heq => h (heq ▸ hc)
  simp [asciiRune, hne]

theorem canon_of_clean {v : Value} (h : Clean v) (escapeDEL : Bool) :
    Row.canon escapeDEL v = Row.canon true v := by
  have htext := canonicalJSONText_of_clean h
  cases escapeDEL with
  | true => rfl
  | false => simp [Row.canon, canonicalJSON, canonicalJSONRawDEL, htext false]

theorem mem_goEscape {escapeHTML : Bool} {c d : Char} (hd : JsonText.isPlain d = false)
    (h : d ∈ goEscape escapeHTML c) : d = c := by
  unfold goEscape at h
  split at h
  · rename_i e he
    simp only [List.mem_cons, List.not_mem_nil, or_false] at h
    rcases h with rfl | rfl
    · exact absurd hd (by decide)
    · rw [isPlain_of_shortEscape he] at hd
      cases hd
  · split_ifs at h with hescaped
    · rw [isPlain_of_mem_uEscape h] at hd
      cases hd
    · exact List.mem_singleton.1 h

theorem mem_strBody_iff {s : String} :
    '\x7f' ∈ (textWriter (goEscape false) []).strBody s ↔ '\x7f' ∈ s.toList := by
  simp only [textWriter, List.mem_append, List.mem_flatMap, List.mem_singleton]
  refine ⟨fun h => ?_, fun h => Or.inl ⟨_, h, by decide⟩⟩
  rcases h with ⟨c, hc, hmem⟩ | h
  · exact mem_goEscape (by decide) hmem ▸ hc
  · exact absurd h (by decide)

theorem clean_str {s : String} (h : '\x7f' ∉ s.toList) : Clean (.str s) := by
  intro hmem
  simp only [encodeJSON, numerals, JsonTree.map, id_eq, write, List.mem_cons] at hmem
  exact h (mem_strBody_iff.1 (hmem.resolve_left (by decide)))

theorem clean_null : Clean .null := by
  unfold Clean
  decide

/-- An object is clean if its members are. -/
theorem clean_obj_iff {members : List (String × Value)} :
    Clean (.obj members) ↔ ∀ m ∈ members, '\x7f' ∉ m.1.toList ∧ Clean m.2 := by
  have htext : encodeJSON (.obj members) = '\x7b' :: writeMembers (textWriter (goEscape false) []) []
      (members.map fun m => (m.1, numerals m.2)) := by
    rw [encodeJSON, numerals, JsonTree.map, write, JsonTree.mapMembers_eq]
    rfl
  rw [Clean, htext]
  refine ⟨fun h m hm => ?_, fun h hmem => ?_⟩
  · have hmem : (m.1, numerals m.2) ∈ members.map fun m => (m.1, numerals m.2) :=
      List.mem_map_of_mem hm
    refine ⟨fun hkey => h (List.mem_cons_of_mem _ ?_), fun hval => h (List.mem_cons_of_mem _ ?_)⟩
    · exact mem_writeMembers_of_mem [] hmem (Or.inl (mem_strBody_iff.2 hkey))
    · exact mem_writeMembers_of_mem [] hmem (Or.inr hval)
  · replace hmem := (List.mem_cons.1 hmem).resolve_left (by decide)
    obtain ⟨m', hm', hmem⟩ := mem_writeMembers (by decide) List.not_mem_nil hmem
    obtain ⟨m, hm, rfl⟩ := List.mem_map.1 hm'
    rcases hmem with hmem | hmem
    · exact (h m hm).1 (mem_strBody_iff.1 hmem)
    · exact (h m hm).2 hmem

/-! ## Times and digests -/

theorem not_mem_digits {b k n : Nat} (hb : b ≤ 16) (hpos : 0 < b) : '\x7f' ∉ digits b k n := by
  intro h
  obtain ⟨d, hd, heq⟩ := exists_digit_of_mem_digits hpos h
  have hall : ∀ d < 16, '\x7f' ≠ Nat.digitChar d := by decide
  exact hall d (by omega) heq

theorem clean_canonicalTS (t : Instant) : Clean (.str t.canonicalTS) := by
  have hdigits : ∀ k n, '\x7f' ∉ digits 10 k n := fun k n => not_mem_digits (by decide) (by decide)
  refine clean_str ?_
  have hyear : '\x7f' ∉ yearText t.year := by
    unfold yearText padded
    split_ifs <;> simp [hdigits]
  simp [Instant.canonicalTS, Instant.canonicalTSText, clockText, hyear, hdigits]

theorem clean_hexdigest (H : Sha256) (data : ByteArray) : Clean (.str (H.hexdigest data)) :=
  clean_str fun h => absurd (H.hexDigits data _ h) (by decide)

/-! ## The hashed map -/

/-- Other entries without DEL in a map without DEL. -/
theorem Row.clean_rowMap {row : Row} {d d' : String × Value} {t t' : String} {s s' : Value}
    (h : Clean (row.rowMap d t s)) (hkey : '\x7f' ∉ d'.1.toList) (hd : Clean d'.2)
    (ht : Clean (.str t')) (hs : Clean s') : Clean (row.rowMap d' t' s') := by
  rw [Row.rowMap, clean_obj_iff] at h ⊢
  simp only [List.forall_mem_cons] at h ⊢
  -- the entries are the same but for three
  obtain ⟨h₁, h₂, h₃, h₄, h₅, h₆, -, h₈, h₉, h₁₀, h₁₁, h₁₂, h₁₃, h₁₄, h₁₅, h₁₆, -, h₁₈, h₁₉, h₂₀, -, h₂₂,
    h₂₃⟩ := h
  exact ⟨h₁, h₂, h₃, h₄, h₅, h₆, ⟨hkey, hd⟩, h₈, h₉, h₁₀, h₁₁, h₁₂, h₁₃, h₁₄, h₁₅, h₁₆, ⟨by simp, hs⟩, h₁₈,
    h₁₉, h₂₀, ⟨by simp, ht⟩, h₂₂, h₂₃⟩

/-- Without DEL outside the `detail`, both spellings of a form `"2"` map are one. -/
theorem Row.canon_mapWith_of_clean {row : Row} {e : Entries} (he : e ∈ row.variants .two)
    (hrow : ∃ d t s, Clean (row.rowMap d t s)) (hcommitment : Clean (.str row.detailCommitment))
    (escapeDEL : Bool) : canon escapeDEL (row.mapWith e) = canon true (row.mapWith e) := by
  obtain ⟨d, t, s, hclean⟩ := hrow
  have htimes : e.1 = row.commitmentEntry ∧ Clean (.str e.2.1) ∧ Clean e.2.2 := by
    rcases List.mem_append.1 he with he | he
    · obtain rfl := List.mem_singleton.1 he
      exact ⟨rfl, clean_canonicalTS _, clean_null⟩
    · cases hs : row.shippedAt with
      | none => simp [hs] at he
      | some shippedAt =>
        rw [hs] at he
        obtain rfl := List.mem_singleton.1 he
        exact ⟨rfl, clean_canonicalTS _, clean_canonicalTS _⟩
  refine canon_of_clean ?_ escapeDEL
  refine Row.clean_rowMap hclean ?_ ?_ htimes.2.1 htimes.2.2
  · rw [htimes.1]
    show '\x7f' ∉ "detail_commitment".toList
    decide
  · rw [htimes.1]
    exact hcommitment

/-- **Redaction keeps a form `"2"` row valid.** -/
theorem Row.rowBreak_redacted {H : Sha256} {row : Row} (h : row.rowBreak H = none)
    (hform : row.formId = "2") :
    Row.rowBreak H { row with detail := none, detailSalt := "" } = none := by
  obtain ⟨form, hofId, hopens, escapeDEL, hspelt, e, he, hhash⟩ := Row.rowBreak_eq_none_iff.1 h
  have htwo : form = .two := by
    rw [hform] at hofId
    exact (Option.some.inj hofId).symm
  subst htwo
  refine Row.rowBreak_eq_none_iff.2 ⟨.two, hofId, fun _ detail hdetail => absurd hdetail (by simp), ?_⟩
  by_cases hdel : Row.hasDEL { row with detail := none, detailSalt := "" } = true
  · exact ⟨escapeDEL, Or.inr hdel, e, he, hhash⟩
  · refine ⟨true, Or.inl rfl, e, he, ?_⟩
    rw [← hhash]
    cases hdetail : row.detail with
    | none =>
      -- no `detail` to lose: the row was checked in the escaped spelling already
      have hsame : row.hasDEL = Row.hasDEL { row with detail := none, detailSalt := "" } := by
        simp only [Row.hasDEL, Row.pyCanonicalRowMap, Row.detailValue, hdetail]
        rfl
      rw [hspelt.resolve_right (hsame ▸ hdel)]
      rfl
    | some detail =>
      obtain ⟨-, spelling, -, hcommitment⟩ := hopens rfl detail hdetail
      have hclean : Clean (.str row.detailCommitment) := hcommitment ▸ clean_hexdigest H _
      have hrest : ∃ d t s, Clean (row.rowMap d t s) :=
        ⟨_, _, _, fun hmem => hdel (List.contains_iff_mem.2 hmem)⟩
      exact congrArg H.hexdigest (Row.canon_mapWith_of_clean he hrest hclean escapeDEL).symm

end Fasten.Go
