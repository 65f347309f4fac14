import Fasten.Lib.Utf8Order
import Fasten.PyJson

set_option autoImplicit false

/-! # One canonical JSON in Go and Python

Python escapes a character when it writes it, and Go rewrites what `encoding/json` wrote. Both give
the same texts, and `Row.UnmarshalJSON` keeps what the texts are made of: the number tokens, and the
members of every object, which a map sorts as `sort_keys` does (spec §1.2 and §1.3). -/

namespace Fasten.Go

open JsonText

/-! ## Escapes -/

theorem flatMap_asciiRune_of_plain {text : List Char} (escapeDEL : Bool)
    (h : ∀ d ∈ text, isPlain d = true) : text.flatMap (asciiRune escapeDEL) = text :=
  flatMap_of_plain (fun _ => asciiRune_of_isPlain escapeDEL) h

/-- A character that has no short escape. -/
theorem canonicalEscape_of_none {c : Char} (escapeDEL : Bool) (h : shortEscape c = none) :
    canonicalEscape escapeDEL c
      = if c < ' ' then uEscape c.toNat else asciiRune escapeDEL c := by
  have hunit : (uEscape c.toNat).flatMap (asciiRune escapeDEL) = uEscape c.toNat :=
    flatMap_asciiRune_of_plain escapeDEL (fun d hd => isPlain_of_mem_uEscape hd)
  unfold canonicalEscape goEscape
  simp only [h, Bool.false_eq_true, false_and, false_or]
  by_cases hctrl : c < ' '
  · rw [if_pos (Or.inl hctrl), if_pos hctrl, hunit]
  · rw [if_neg hctrl]
    -- the two line separators are escaped by the encoder already
    split_ifs with hsep
    · rcases hsep with hlt | rfl | rfl
      · exact absurd hlt hctrl
      · rw [hunit]; rfl
      · rw [hunit]; rfl
    · exact List.flatMap_singleton _ _

theorem canonicalEscape_of_some {c e : Char} (escapeDEL : Bool) (h : shortEscape c = some e) :
    canonicalEscape escapeDEL c = ['\\', e] := by
  unfold canonicalEscape goEscape
  simp only [h]
  exact flatMap_asciiRune_of_plain escapeDEL (by simpa using ⟨by decide, isPlain_of_shortEscape h⟩)

/-- **Both SDKs write a character alike.** -/
theorem canonicalEscape_eq_asciiEscape (c : Char) : canonicalEscape true c = asciiEscape c := by
  cases hs : shortEscape c with
  | some e =>
    rw [canonicalEscape_of_some true hs, asciiEscape, hs]
  | none =>
    rw [canonicalEscape_of_none true hs, asciiEscape, hs, asciiRune]
    have hle : c ≤ '~' ↔ c.toNat ≤ 0x7e := Iff.rfl
    have hlt : c < ' ' ↔ c.toNat < 0x20 := Iff.rfl
    have hge : ' ' ≤ c ↔ 0x20 ≤ c.toNat := Iff.rfl
    have hdel : c = '\x7f' ↔ c.toNat = 0x7f :=
      ⟨fun h => h ▸ rfl, fun h => Char.toNat_inj.1 (h.trans rfl)⟩
    simp only [hle, hlt, hge, hdel, and_true]
    split_ifs with hctrl hprint hbmp hdel <;> first | rfl | omega | rw [hdel]

theorem canonicalEscape_eq_rawDelEscape (c : Char) : canonicalEscape false c = rawDelEscape c := by
  by_cases hdel : c = '\x7f'
  · rw [hdel]
    decide
  · rw [rawDelEscape, if_neg hdel, ← canonicalEscape_eq_asciiEscape]
    cases hs : shortEscape c with
    | some e => rw [canonicalEscape_of_some _ hs, canonicalEscape_of_some _ hs]
    | none =>
      have hrune : asciiRune false c = asciiRune true c := by simp [asciiRune, hdel]
      rw [canonicalEscape_of_none _ hs, canonicalEscape_of_none _ hs, hrune]

theorem escapeOf_asciiEscape (c : Char) : EscapeOf c (asciiEscape c) :=
  canonicalEscape_eq_asciiEscape c ▸ escapeOf_canonicalEscape true c

theorem escapeOf_rawDelEscape (c : Char) : EscapeOf c (rawDelEscape c) :=
  canonicalEscape_eq_rawDelEscape c ▸ escapeOf_canonicalEscape false c

/-- The escapes of `json.dumps`. -/
def pyEscapes : Escape readChar where
  esc := asciiEscape
  reads := fun c => (escapeOf_asciiEscape c).reads
  head := fun c => (escapeOf_asciiEscape c).head

/-- Those with DEL left raw. -/
def rawDelEscapes : Escape readChar where
  esc := rawDelEscape
  reads := fun c => (escapeOf_rawDelEscape c).reads
  head := fun c => (escapeOf_rawDelEscape c).head

/-! ## What Go keeps of a Python value -/

/-- `UseNumber`: the token as it stands, if it is a JSON number. -/
def useNumber (t : Numeral) : Option Num :=
  if h : (parseNumber t.text).isSome = true then some (.number ⟨t, h⟩) else none

/-- The decoder with `UseNumber` into an `any`. -/
def decodeAny (text : List Char) : Option Value :=
  ((read (textReader readChar) text).bind (JsonTree.traverse useNumber)).map JsonTree.toMaps

/-- The `detail` of `Row.UnmarshalJSON`; `some none` is nil. -/
def unmarshalDetail (raw : List Char) : Option (Option Object) :=
  if raw = [] ∨ raw = ['n', 'u', 'l', 'l'] then some none else decodeUseNumber raw

theorem useNumber_map {t : Numeral} (h : (parseNumber t.text).isSome = true) :
    (useNumber t).map Num.numeral = some t := by
  rw [useNumber, dif_pos h]
  rfl

theorem read_dumps (v : Json) : read (textReader readChar) (dumps spacedAscii v) = some v.tree := by
  have hwrite : dumps spacedAscii v = write (textWriter pyEscapes.esc [' ']) v.tree :=
    dumps_eq_write (show spacedAscii.itemSep = ',' :: [' '] from rfl) rfl v
  rw [hwrite, read_write (reads_textWriter pyEscapes (by simp [isSpace])), JsonTree.map_id_id]

/-- The decoded value is the sorted one, token by token. -/
theorem exists_decodeAny {v : Json} (h : v.IsPython) :
    ∃ w : Value, v.tree.traverse useNumber = some w
      ∧ decodeAny (dumps spacedAscii v) = some w.toMaps ∧ numerals w.toMaps = v.sortKeys.tree := by
  have hkeep : (v.tree.traverse useNumber).map numerals = some v.tree := by
    have hmap : (v.tree.traverse useNumber).map numerals = _ :=
      JsonTree.traverse_map useNumber Num.numeral v.tree
    rw [hmap, JsonTree.traverse_eq_some_self_iff]
    exact fun t ht => useNumber_map (h.validTokens t ht)
  obtain ⟨w, hw, hnumerals⟩ := Option.map_eq_some_iff.1 hkeep
  refine ⟨w, hw, ?_, ?_⟩
  · rw [decodeAny, read_dumps, Option.bind_some, hw, Option.map_some]
  · rw [numerals, JsonTree.map_toMaps]
    exact (congrArg JsonTree.toMaps hnumerals).trans h.toMaps_tree

/-- The entries of a map stand in the order of the bytes of their keys, as the encoder writes
    them. -/
theorem bytes_pairwise_of_keyed {members : List (String × Value)}
    (h : (JsonTree.obj members).keyed = true) :
    (members.map (fun m => Utf8Order.bytes m.1.toList)).Pairwise (· < ·) := by
  rw [JsonTree.keyed, Bool.and_eq_true, decide_eq_true_eq, List.pairwise_map] at h
  rw [List.pairwise_map]
  exact h.1.imp (fun hlt => Utf8Order.bytes_lt_bytes_iff.2 (String.lt_iff_toList_lt.1 hlt))

/-- **Canonical JSON is the same in Go and Python.** -/
theorem canonicalJSON_eq_canonicalJson (v : Json) (h : v.IsPython) :
    ∃ decoded, decodeAny (dumps spacedAscii v) = some decoded
      ∧ canonicalJSON decoded = canonicalJson v
      ∧ canonicalJSONRawDEL decoded = canonicalJsonRawDel v
      ∧ (∀ entries, decoded = .obj entries →
          (entries.map (fun e => Utf8Order.bytes e.1.toList)).Pairwise (· < ·))
      ∧ ∀ members, v = .obj members → ∃ detail,
          unmarshalDetail (dumps spacedAscii v) = some (some detail) ∧ detail.value = decoded := by
  obtain ⟨w, hw, hdecode, hnumerals⟩ := exists_decodeAny h
  have htrue : canonicalEscape true = asciiEscape := funext canonicalEscape_eq_asciiEscape
  have hfalse : canonicalEscape false = rawDelEscape := funext canonicalEscape_eq_rawDelEscape
  refine ⟨w.toMaps, hdecode, ?_, ?_, ?_, ?_⟩
  · rw [canonicalJSON, canonicalJson, canonicalJSONText_eq_write, hnumerals, htrue,
      canonicalText_eq_write]
  · rw [canonicalJSONRawDEL, canonicalJsonRawDel, canonicalJSONText_eq_write, hnumerals, hfalse,
      subRawDel_canonicalText_eq_write]
  · intro entries hentries
    exact bytes_pairwise_of_keyed (hentries ▸ JsonTree.keyed_toMaps w)
  · rintro members rfl
    have hraw : ¬(dumps spacedAscii (.obj members) = []
        ∨ dumps spacedAscii (.obj members) = ['n', 'u', 'l', 'l']) := by
      rw [dumps]
      simp
    rw [Json.tree] at hw
    obtain ⟨ws, hws, rfl⟩ := Option.map_eq_some_iff.1 hw
    refine ⟨Object.ofMembers ws, ?_, rfl⟩
    have hread := read_dumps (.obj members)
    rw [Json.tree] at hread
    rw [unmarshalDetail, if_neg hraw, decodeUseNumber, decodeMap, hread]
    exact congrArg (Option.map _) hws

/-- `1.5`. -/
def Float64.oneAndHalf : Float64 := ⟨false, 3 * 2 ^ 51, -52, by decide⟩

theorem Float64.shortest_oneAndHalf : Float64.oneAndHalf.Shortest :=
  ⟨by decide +kernel, by decide +kernel⟩

theorem canonicalJSON_eq_canonicalJson_nested :
    ∃ decoded, decodeAny (dumps spacedAscii (.obj [("é", .arr [.str "😀\x7f", .int (-12)]),
        ("a", .float (floatRepr Float64.oneAndHalf))])) = some decoded
      ∧ canonicalJSON decoded = canonicalJson (.obj [("é", .arr [.str "😀\x7f", .int (-12)]),
        ("a", .float (floatRepr Float64.oneAndHalf))]) := by
  have hpython : (Json.obj [("é", .arr [.str "😀\x7f", .int (-12)]),
      ("a", .float (floatRepr Float64.oneAndHalf))]).IsPython :=
    ⟨by decide, ⟨trivial, trivial, trivial⟩, isRepr_floatRepr Float64.shortest_oneAndHalf, trivial⟩
  obtain ⟨decoded, hdecode, hcanonical, -⟩ := canonicalJSON_eq_canonicalJson _ hpython
  exact ⟨decoded, hdecode, hcanonical⟩

end Fasten.Go
