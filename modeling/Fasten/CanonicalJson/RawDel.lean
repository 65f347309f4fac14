import Fasten.CanonicalJson.Tree

set_option autoImplicit false

/-! # DEL written raw

A verifier retries a failed check with DEL (0x7f) left raw in the hashed text. That text is what an
encoder writes that leaves DEL alone, and a value none of whose strings holds DEL has one spelling
only (`subRawDel_canonicalText`). -/

namespace Fasten

open JsonText TextCodec

/-- A row without DEL has none in any of its strings. -/
theorem not_mem_of_hasDel_false {v : Json} (h : hasDel v = false) :
    ∀ s ∈ v.strings, '\x7f' ∉ s.toList := by
  intro s hs hdel
  simp only [hasDel, List.contains_eq_mem, decide_eq_false_iff_not] at h
  rw [dumps_eq_write (show spacedUnicode.itemSep = ',' :: [' '] from rfl) rfl,
    write_eq_flatMap] at h
  refine h (List.mem_flatMap.2 ⟨.str s, (str_mem_pieces v).2 hs, ?_⟩)
  refine List.mem_cons_of_mem _ (List.mem_append_left _ (List.mem_flatMap.2 ⟨_, hdel, ?_⟩))
  decide

/-! ## Sorting keeps the strings -/

mutual

theorem mem_strings_sortKeys : ∀ (v : Json) (s : String), s ∈ v.sortKeys.strings ↔ s ∈ v.strings
  | .null, s => by simp [Json.sortKeys]
  | .bool _, s => by simp [Json.sortKeys]
  | .int _, s => by simp [Json.sortKeys]
  | .float _, s => by simp [Json.sortKeys]
  | .str _, s => by simp [Json.sortKeys]
  | .arr items, s => by
    simp only [Json.sortKeys, Json.strings]
    exact mem_stringsItems_sortKeys items s
  | .obj members, s => by
    simp only [Json.sortKeys, Json.strings]
    rw [mem_stringsMembers]
    simp only [List.mem_insertionSort]
    rw [← mem_stringsMembers]
    exact mem_stringsMembers_sortKeys members s

theorem mem_stringsItems_sortKeys : ∀ (items : List Json) (s : String),
    s ∈ stringsItems (sortKeysItems items) ↔ s ∈ stringsItems items
  | [], s => by simp [sortKeysItems]
  | v :: rest, s => by
    simp only [sortKeysItems, stringsItems, List.mem_append]
    rw [mem_strings_sortKeys v s, mem_stringsItems_sortKeys rest s]

theorem mem_stringsMembers_sortKeys : ∀ (members : List (String × Json)) (s : String),
    s ∈ stringsMembers (sortKeysMembers members) ↔ s ∈ stringsMembers members
  | [], s => by simp [sortKeysMembers]
  | (k, v) :: rest, s => by
    simp only [sortKeysMembers, stringsMembers, List.mem_cons, List.mem_append]
    rw [mem_strings_sortKeys v s, mem_stringsMembers_sortKeys rest s]

end

/-! ## Substituting DEL -/

/-- One character with DEL left raw. -/
def rawDelEscape (c : Char) : List Char := if c = '\x7f' then ['\x7f'] else asciiEscape c

theorem subRawDel_cons_of_ne {c : Char} (h : c ≠ '\\') (r : List Char) :
    subRawDel (c :: r) = c :: subRawDel r := by
  rw [subRawDel]
  · intro rest hc; exact absurd hc h
  · intro rest hc; exact absurd hc h

theorem subRawDel_append_of_no_backslash {a : List Char} (h : ∀ c ∈ a, c ≠ '\\') (r : List Char) :
    subRawDel (a ++ r) = a ++ subRawDel r := by
  induction a with
  | nil => rfl
  | cons c a ih =>
    rw [List.cons_append, subRawDel_cons_of_ne (h c (List.mem_cons_self ..)),
      ih (fun d hd => h d (List.mem_cons_of_mem _ hd)), List.cons_append]

theorem subRawDel_backslash {e : Char} (hb : e ≠ '\\') (hu : e ≠ 'u') (r : List Char) :
    subRawDel ('\\' :: e :: r) = '\\' :: e :: subRawDel r := by
  rw [subRawDel, subRawDel_cons_of_ne hb]
  · intro rest _ he; exact absurd (List.cons.inj he).1 hb
  · intro rest _ he; exact absurd (List.cons.inj he).1 hu

theorem mem_digits_ne_backslash {w n : Nat} {c : Char} (hc : c ∈ digits 16 w n) : c ≠ '\\' := by
  have hall : ∀ d < 16, Nat.digitChar d ≠ '\\' := by decide
  obtain ⟨d, hd, rfl⟩ := exists_digit_of_mem_digits (by decide) hc
  exact hall d hd

/-- Every `\uXXXX` but DEL's stays as it is. -/
theorem subRawDel_uEscape {n : Nat} (hn : n < 0x10000) (hdel : n ≠ 0x7f) (r : List Char) :
    subRawDel (uEscape n ++ r) = uEscape n ++ subRawDel r := by
  have hdigits : digits 16 4 n ≠ ['0', '0', '7', 'f'] := by
    intro h
    exact hdel (digits_inj (by decide) (by decide) (w := 4) (by omega) (by decide) h)
  simp only [uEscape, List.cons_append]
  rw [subRawDel, subRawDel_cons_of_ne (by decide),
    subRawDel_append_of_no_backslash (fun c hc => mem_digits_ne_backslash hc)]
  · intro rest _ h; simp at h
  · intro rest _ h
    simp only [List.cons.injEq, true_and] at h
    have happ : digits 16 4 n ++ r = ['0', '0', '7', 'f'] ++ rest := h
    exact hdigits (List.append_inj_left happ (by simp))

theorem subRawDel_asciiEscape (c : Char) (r : List Char) :
    subRawDel (asciiEscape c ++ r) = rawDelEscape c ++ subRawDel r := by
  by_cases hdel : c = '\x7f'
  · subst hdel
    rw [show asciiEscape '\x7f' = ['\\', 'u', '0', '0', '7', 'f'] from by decide]
    simp [subRawDel, rawDelEscape]
  · rw [rawDelEscape, if_neg hdel]
    unfold asciiEscape
    cases hs : shortEscape c with
    | some e =>
      by_cases hb : e = '\\'
      · subst hb
        simp [subRawDel]
      · exact subRawDel_backslash hb (unshortEscape_of_shortEscape hs).1 r
    | none =>
      have hbs : c ≠ '\\' := by rintro rfl; simp [shortEscape] at hs
      have hv : c.toNat < 0xd800 ∨ 0xdfff < c.toNat ∧ c.toNat < 0x110000 := c.valid
      have hne : c.toNat ≠ 0x7f := fun h => hdel (Char.toNat_inj.1 h)
      simp only
      split_ifs with hprint hbmp
      · exact subRawDel_cons_of_ne hbs r
      · exact subRawDel_uEscape hbmp hne r
      · rw [List.append_assoc, subRawDel_uEscape (by omega) (by omega),
          subRawDel_uEscape (by omega) (by omega), List.append_assoc]

theorem subRawDel_body (s r : List Char) :
    subRawDel (s.flatMap asciiEscape ++ r) = s.flatMap rawDelEscape ++ subRawDel r := by
  induction s with
  | nil => rfl
  | cons c l ih =>
    simp only [List.flatMap_cons, List.append_assoc]
    rw [subRawDel_asciiEscape, ih]

/-- A piece of a canonical text is rewritten by itself. -/
theorem subRawDel_piece (p : Piece Numeral String) (r : List Char) :
    subRawDel ((textWriter asciiEscape []).text p ++ r)
      = (textWriter rawDelEscape []).text p ++ subRawDel r := by
  cases p with
  | mark m => exact subRawDel_append_of_no_backslash (by cases m <;> simp [Writer.text, textWriter, Mark.text]) r
  | num t =>
    refine subRawDel_append_of_no_backslash (fun c hc => ?_) r
    rintro rfl
    exact absurd (t.numeric _ hc) (by decide)
  | str s =>
    simp only [Writer.text, textWriter, List.cons_append, List.append_assoc]
    rw [subRawDel_cons_of_ne (by decide), subRawDel_body, List.nil_append,
      subRawDel_cons_of_ne (by decide)]
    rfl

theorem canonicalText_eq_write (v : Json) :
    canonicalText v = write (textWriter asciiEscape []) v.sortKeys.tree :=
  dumps_eq_write rfl rfl v.sortKeys

/-- **Substituting DEL in a canonical text** is writing the value with DEL raw. -/
theorem subRawDel_canonicalText_eq_write (v : Json) :
    subRawDel (canonicalText v) = write (textWriter rawDelEscape []) v.sortKeys.tree := by
  rw [canonicalText_eq_write, write_eq_flatMap, write_eq_flatMap]
  induction pieces v.sortKeys.tree with
  | nil => rw [List.flatMap_nil, subRawDel, List.flatMap_nil]
  | cons p ps ih => rw [List.flatMap_cons, subRawDel_piece, ih, List.flatMap_cons]

/-- A value without DEL in its strings has the same text under both spellings. -/
theorem subRawDel_canonicalText {v : Json} (h : ∀ s ∈ v.strings, '\x7f' ∉ s.toList) :
    subRawDel (canonicalText v) = canonicalText v := by
  rw [subRawDel_canonicalText_eq_write, canonicalText_eq_write, write_eq_flatMap, write_eq_flatMap]
  refine List.flatMap_congr fun p hp => ?_
  cases p with
  | mark | num => rfl
  | str s =>
    have hbody : s.toList.flatMap rawDelEscape = s.toList.flatMap asciiEscape := by
      refine List.flatMap_congr fun c hc => if_neg ?_
      rintro rfl
      exact h s ((mem_strings_sortKeys v s).1 ((str_mem_pieces _).1 hp)) hc
    simp only [Writer.text, textWriter, hbody]

/-! ## Escapes -/

theorem inert_of_mem_digits {w n : Nat} {c : Char} (h : c ∈ digits 16 w n) : Inert c := by
  have hall : ∀ d < 16, Nat.digitChar d ≠ '"' ∧ Nat.digitChar d ≠ '\\' ∧ Nat.digitChar d ≠ '{'
      ∧ Nat.digitChar d ≠ '[' ∧ Nat.digitChar d ≠ '}' ∧ Nat.digitChar d ≠ ']' := by decide
  obtain ⟨d, hd, rfl⟩ := exists_digit_of_mem_digits (by decide) h
  exact hall d hd

theorem escaped_uEscape (n : Nat) : Escaped (uEscape n) :=
  .slash (by decide) fun _ hc => inert_of_mem_digits hc

theorem escaped_asciiEscape (c : Char) : Escaped (asciiEscape c) := by
  unfold asciiEscape
  cases hs : shortEscape c with
  | some e =>
    refine .slash ?_ (by simp)
    rintro rfl
    exact absurd (unshortEscape_of_shortEscape hs).2 (by simp [unshortEscape])
  | none =>
    have hq : c ≠ '"' := by rintro rfl; simp [shortEscape] at hs
    have hb : c ≠ '\\' := by rintro rfl; simp [shortEscape] at hs
    simp only
    split_ifs with hprint hbmp
    · exact .raw hq hb
    · exact escaped_uEscape _
    · exact (escaped_uEscape _).append (escaped_uEscape _)

theorem escaped_rawDelEscape (c : Char) : Escaped (rawDelEscape c) := by
  unfold rawDelEscape
  split_ifs
  · exact .raw (by decide) (by decide)
  · exact escaped_asciiEscape c

/-! ## The two accepted spellings -/

/-- The canonical text of a value, with DEL escaped or raw. -/
def Spells (text : List Char) (v : Json) : Prop :=
  text = canonicalText v ∨ text = subRawDel (canonicalText v)

end Fasten
