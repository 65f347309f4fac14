import Fasten.Lib.Like
import Fasten.PyJson
import Fasten.Store

set_option autoImplicit false

/-! # Searching the audit table

`SQLiteStore.search` (`python/fasten/store/sqlite.py`) looks for a text in the stored JSON of
`detail`, in lower case: Python lowers the text that is asked for, SQLite the column, and it lowers
ASCII only. `json.dumps` escapes whatever is not ASCII, so a text is found where it stands in the
JSON, and text outside ASCII never stands there. -/

namespace Fasten

open JsonText

/-! ## Lower case -/

/-- `str.lower`. Outside ASCII it follows tables of Unicode, which are left open. -/
structure StrLower where
  lower : List Char → List Char
  ascii : ∀ s : List Char, (∀ c ∈ s, c.toNat < 128) → lower s = s.map Char.toLower
  lowered : ∀ (s : List Char), ∀ c ∈ lower s, c.toLower = c

/-- `'A'..'Z'` and nothing else is lowered. -/
theorem toNat_toLower (c : Char) :
    c.toLower.toNat = if 65 ≤ c.toNat ∧ c.toNat ≤ 90 then c.toNat + 32 else c.toNat := by
  have hiff : (c.val ≥ 'A'.val ∧ c.val ≤ 'Z'.val) ↔ 65 ≤ c.toNat ∧ c.toNat ≤ 90 := Iff.rfl
  delta Char.toLower
  split_ifs with hval hnat hnat
  · have hsum : (c.val + ('a'.val - 'A'.val)).toNat = (c.val.toNat + 32) % 2 ^ 32 :=
      UInt32.toNat_add _ _
    have hlow : c.val.toNat ≤ 90 := hnat.2
    exact hsum.trans (Nat.mod_eq_of_lt (by omega))
  · exact absurd (hiff.1 hval) hnat
  · exact absurd (hiff.2 hnat) hval
  · rfl

theorem toNat_toLower_lt_iff (c : Char) : c.toLower.toNat < 128 ↔ c.toNat < 128 := by
  rw [toNat_toLower]
  split_ifs <;> omega

@[simp] theorem toLower_toLower (c : Char) : c.toLower.toLower = c.toLower := by
  refine Char.toNat_inj.1 ?_
  rw [toNat_toLower c.toLower, toNat_toLower c]
  split_ifs <;> omega

/-- SQLite's `lower`. -/
def sqliteLower (s : List Char) : List Char := s.map Char.toLower

/-! ## The statement -/

/-- `s.replace(old, new)` for one character. -/
def replaceChar (old : Char) (new s : List Char) : List Char :=
  s.flatMap (fun c => if c = old then new else [c])

/-- `esc`. -/
def searchEsc (lower : StrLower) (q : List Char) : List Char :=
  replaceChar '_' ['\\', '_'] (replaceChar '%' ['\\', '%']
    (replaceChar '\\' ['\\', '\\'] (lower.lower q)))

def searchPattern (lower : StrLower) (q : List Char) : List Char :=
  '%' :: (searchEsc lower q ++ ['%'])

/-- What bounds a search besides its text. -/
structure SearchWindow where
  since : String
  until_ : Option String
  tenantId : Option String

/-- The conditions of the window. An empty `until` is none. -/
def SearchWindow.holds (w : SearchWindow) (row : AuditRow) : Bool :=
  decide (w.since ≤ canonicalTs row.timestamp) &&
    (match w.until_ with
    | none => true
    | some u => u == "" || decide (canonicalTs row.timestamp ≤ u)) &&
    match w.tenantId with
    | none => true
    | some tenant => row.tenantId == some tenant

/-- The text of the column `detail`. -/
def AuditRow.detailText (row : AuditRow) : List Char :=
  dumps spacedAscii (AuditRow.optDict row.detail)

/-- `lower(detail) LIKE ? ESCAPE '\'`. -/
def detailLike (lower : StrLower) (q : List Char) (row : AuditRow) : Bool :=
  Like.like Char.toLower '\\' (searchPattern lower q) (sqliteLower row.detailText)

/-- The rows the statement selects, without its `LIMIT`. -/
def Store.searchMatches (lower : StrLower) (store : Store) (q : List Char) (w : SearchWindow) :
    List AuditRow :=
  store.rows.filter (fun r => w.holds r && detailLike lower q r)

/-- `ORDER BY timestamp DESC, monotonic_seq DESC`. -/
def newerFirst (a b : AuditRow) : Prop :=
  canonicalTs b.timestamp < canonicalTs a.timestamp ∨
    canonicalTs b.timestamp = canonicalTs a.timestamp ∧ b.monotonicSeq ≤ a.monotonicSeq

instance (a b : AuditRow) : Decidable (newerFirst a b) := inferInstanceAs (Decidable (_ ∨ _))

/-- `search`. `none` is an error: `OverflowError` for a `limit` of more than 64 bits, or SQLite's
    for a pattern of more than `maxPattern` bytes (`SQLITE_MAX_LIKE_PATTERN_LENGTH`) once there is a
    row to match it with. A negative `LIMIT` is none. -/
def Store.search (lower : StrLower) (maxPattern : Nat) (store : Store) (q : List Char)
    (w : SearchWindow) (limit : Int) : Option (List AuditRow) :=
  if limit < -maxSeq - 1 ∨ maxSeq < limit then none
  else if store.rows.any w.holds = true ∧
      maxPattern < (String.ofList (searchPattern lower q)).utf8ByteSize then none
  else
    let found := (store.searchMatches lower q w).insertionSort newerFirst
    some (if limit < 0 then found else found.take limit.toNat)

/-! ## The pattern -/

/-- The three replacements escape what `LIKE` gives a meaning, and nothing twice. -/
theorem searchEsc_eq (lower : StrLower) (q : List Char) :
    searchEsc lower q = (lower.lower q).flatMap (Like.escapeChar '\\') := by
  simp only [searchEsc, replaceChar, List.flatMap_assoc]
  refine List.flatMap_congr (fun c _ => ?_)
  by_cases hback : c = '\\'
  · simp [Like.escapeChar, hback]
  · by_cases hpercent : c = '%'
    · simp [Like.escapeChar, hpercent]
    · by_cases hunder : c = '_'
      · simp [Like.escapeChar, hunder]
      · simp [Like.escapeChar, hback, hpercent, hunder]

/-- **A row matches just when its text contains the lowered one**: `%` and `_` are nothing else than
    themselves. -/
theorem detailLike_iff (lower : StrLower) (q : List Char) (row : AuditRow) :
    detailLike lower q row = true ↔ lower.lower q <:+: sqliteLower row.detailText := by
  have hneedle : (lower.lower q).map Char.toLower = lower.lower q := by
    conv_rhs => rw [← List.map_id (lower.lower q)]
    exact List.map_congr_left (lower.lowered q)
  have htext : (sqliteLower row.detailText).map Char.toLower = sqliteLower row.detailText := by
    simp [sqliteLower]
  rw [detailLike, searchPattern, searchEsc_eq, Like.like_containing_iff _ (by decide), hneedle,
    htext]

/-! ## The JSON text -/

/-- `ensure_ascii`. -/
theorem isPlain_of_mem_asciiEscape {c d : Char} (h : d ∈ asciiEscape c) : isPlain d = true := by
  unfold asciiEscape at h
  cases hs : shortEscape c with
  | some e =>
    rw [hs, List.mem_cons, List.mem_singleton] at h
    rcases h with rfl | rfl
    · rfl
    · exact Go.isPlain_of_shortEscape hs
  | none =>
    simp only [hs] at h
    split_ifs at h with hprint hbmp
    · rw [List.mem_singleton.1 h]
      simpa [isPlain] using hprint
    · exact Go.isPlain_of_mem_uEscape h
    · exact (List.mem_append.1 h).elim Go.isPlain_of_mem_uEscape Go.isPlain_of_mem_uEscape

theorem isPlain_dumps (v : Json) : ∀ c ∈ dumps spacedAscii v, isPlain c = true := by
  rw [dumps_eq_write (show spacedAscii.itemSep = ',' :: [' '] from rfl) rfl, write_eq_flatMap]
  intro c hc
  obtain ⟨p, -, hp⟩ := List.mem_flatMap.1 hc
  cases p with
  | mark m => exact isPlain_mark (List.forall_mem_singleton.2 (by decide)) m c hp
  | num t => exact isPlain_of_isNumChar (t.numeric c hp)
  | str s =>
    simp only [Writer.text, DumpStyle.writer, textWriter, List.mem_cons, List.mem_append,
      List.mem_flatMap, List.not_mem_nil, or_false] at hp
    rcases hp with rfl | ⟨d, -, hd⟩ | rfl
    · rfl
    · exact isPlain_of_mem_asciiEscape hd
    · rfl

/-- Every string of a value stands in its text, escaped. -/
theorem body_infix_dumps (v : Json) {s : String} (h : s ∈ v.strings) :
    s.toList.flatMap asciiEscape <:+: dumps spacedAscii v := by
  rw [dumps_eq_write (show spacedAscii.itemSep = ',' :: [' '] from rfl) rfl, write_eq_flatMap]
  obtain ⟨before, after, hpieces⟩ := List.append_of_mem ((str_mem_pieces v).2 h)
  rw [hpieces, List.flatMap_append, List.flatMap_cons]
  have hbody : s.toList.flatMap asciiEscape <:+: (spacedAscii.writer [' ']).text (.str s) :=
    ⟨['"'], ['"'], by simp [Writer.text, DumpStyle.writer, textWriter, spacedAscii]⟩
  exact hbody.trans ⟨_, _, (List.append_assoc ..)⟩

/-! ## What a search finds -/

/-- A text to search for: without quotes, backslashes and control characters. -/
structure SearchText where
  text : List Char
  noQuote : '"' ∉ text
  noBackslash : '\\' ∉ text
  noControl : ∀ c ∈ text, 32 ≤ c.toNat ∧ ¬(127 ≤ c.toNat ∧ c.toNat < 160)

/-- Characters that a JSON string has as they are. -/
theorem asciiEscape_of_plain {c : Char} (hlow : 32 ≤ c.toNat) (hhigh : c.toNat < 127)
    (hquote : c ≠ '"') (hback : c ≠ '\\') : asciiEscape c = [c] := by
  have hne : ∀ d : Char, d.toNat < 32 → c ≠ d := by
    rintro d hd rfl
    omega
  have hshort : shortEscape c = none := by
    simp [shortEscape, hquote, hback, hne]
  have hprint : ' ' ≤ c ∧ c ≤ '~' := ⟨hlow, Nat.le_of_lt_succ hhigh⟩
  rw [asciiEscape, hshort]
  exact if_pos hprint

/-- A character of ASCII that is the same letter as one of the text is written as it is. -/
theorem SearchText.asciiEscape_eq (q : SearchText) {c d : Char} (hd : d ∈ q.text)
    (hc : c.toNat < 128) (hsame : c.toLower = d.toLower) : asciiEscape c = [c] := by
  have hnat : c.toLower.toNat = d.toLower.toNat := congrArg Char.toNat hsame
  have hcontrol := q.noControl d hd
  have hquote : d.toNat ≠ '"'.toNat := fun h => q.noQuote (Char.toNat_inj.1 h ▸ hd)
  have hback : d.toNat ≠ '\\'.toNat := fun h => q.noBackslash (Char.toNat_inj.1 h ▸ hd)
  rw [toNat_toLower, toNat_toLower] at hnat
  -- a capital letter lowers to no special character
  have hrange : 32 ≤ c.toNat ∧ c.toNat < 127 ∧ c.toNat ≠ 34 ∧ c.toNat ≠ 92 := by
    have h34 : '"'.toNat = 34 := rfl
    have h92 : '\\'.toNat = 92 := rfl
    split_ifs at hnat <;> omega
  exact asciiEscape_of_plain hrange.1 hrange.2.1 (fun h => hrange.2.2.1 (h ▸ rfl))
    (fun h => hrange.2.2.2 (h ▸ rfl))

/-- **A text is found wherever its letters stand in a string**, in upper or lower case, as ASCII. -/
theorem infix_detailText (lower : StrLower) (q : SearchText) (row : AuditRow) {s : String}
    (hs : s ∈ (AuditRow.optDict row.detail).strings) {part : List Char} (hpart : part <:+: s.toList)
    (hascii : ∀ c ∈ part, c.toNat < 128)
    (hsame : part.map Char.toLower = q.text.map Char.toLower) :
    lower.lower q.text <:+: sqliteLower row.detailText := by
  have hlowered : ∀ c ∈ part, ∃ d ∈ q.text, d.toLower = c.toLower := by
    intro c hc
    exact List.mem_map.1 (hsame ▸ List.mem_map_of_mem hc)
  have hquery : ∀ d ∈ q.text, d.toNat < 128 := by
    intro d hd
    obtain ⟨c, hc, hcd⟩ := List.mem_map.1 (hsame ▸ List.mem_map_of_mem hd)
    rw [← toNat_toLower_lt_iff, ← hcd, toNat_toLower_lt_iff]
    exact hascii c hc
  have hbody : part.flatMap asciiEscape = part := by
    conv_rhs => rw [← List.flatMap_singleton' part]
    refine List.flatMap_congr (fun c hc => ?_)
    obtain ⟨d, hd, hdc⟩ := hlowered c hc
    exact q.asciiEscape_eq hd (hascii c hc) hdc.symm
  have hpart : part.flatMap asciiEscape <:+: s.toList.flatMap asciiEscape := by
    obtain ⟨a, b, hab⟩ := hpart
    exact ⟨a.flatMap asciiEscape, b.flatMap asciiEscape, by rw [← hab]; simp⟩
  rw [hbody] at hpart
  rw [lower.ascii q.text hquery, ← hsame]
  exact (hpart.trans (body_infix_dumps _ hs)).map Char.toLower

/-- The text has no character outside ASCII, whatever `detail` holds. -/
theorem not_infix_detailText {needle : List Char} (row : AuditRow)
    (hneedle : ∃ c ∈ needle, 128 ≤ c.toNat) : ¬needle <:+: sqliteLower row.detailText := by
  rintro hpart
  obtain ⟨c, hc, hhigh⟩ := hneedle
  obtain ⟨d, hd, rfl⟩ := List.mem_map.1 (hpart.subset hc)
  have hplain : isPlain d = true := isPlain_dumps _ d hd
  have hlow : d.toNat < 128 := by
    have hle : d ≤ '~' := by
      simp only [isPlain, Bool.and_eq_true, decide_eq_true_eq] at hplain
      exact hplain.2
    exact Nat.lt_of_le_of_lt hle (by decide)
  rw [← toNat_toLower_lt_iff] at hlow
  omega

/-- With a limit above the number of matches a search that does not fail returns them all. -/
theorem Store.mem_search_iff (lower : StrLower) {maxPattern : Nat} {store : Store}
    {row : AuditRow} (hrow : row ∈ store.rows) {q : List Char} {w : SearchWindow}
    (hw : w.holds row = true) {limit : Int}
    (hlimit : ((store.searchMatches lower q w).length : Int) < limit) :
    (∃ found, store.search lower maxPattern q w limit = some found ∧ row ∈ found) ↔
      limit ≤ maxSeq ∧ (String.ofList (searchPattern lower q)).utf8ByteSize ≤ maxPattern ∧
        detailLike lower q row = true := by
  have hany : store.rows.any w.holds = true := List.any_eq_true.2 ⟨row, hrow, hw⟩
  have hpos : 0 ≤ limit := by omega
  have hmem : row ∈ store.searchMatches lower q w ↔ detailLike lower q row = true := by
    simp [searchMatches, hrow, hw]
  rw [search]
  split_ifs with hrange hlong hneg
  · have hbig : ¬limit ≤ maxSeq := by
      have hmax : (0 : Int) < maxSeq := by decide
      omega
    simp [hbig]
  · have htoo := hlong.2
    simp [htoo]
  · omega
  · have hfits : limit ≤ maxSeq := by omega
    have hshort : (String.ofList (searchPattern lower q)).utf8ByteSize ≤ maxPattern :=
      not_lt.1 (fun h => hlong ⟨hany, h⟩)
    have htake : ((store.searchMatches lower q w).insertionSort newerFirst).take limit.toNat
        = (store.searchMatches lower q w).insertionSort newerFirst :=
      List.take_of_length_le (by rw [List.length_insertionSort]; omega)
    simp only [Option.some.injEq, exists_eq_left', htake, List.mem_insertionSort, hmem, hfits,
      hshort, true_and]

/-- **What a search finds.** -/
theorem search_finds_iff (lower : StrLower) (maxPattern : Nat) (store : Store) (row : AuditRow)
    (hrow : row ∈ store.rows) (q : SearchText) (w : SearchWindow) (hw : w.holds row = true)
    (limit : Int) (hlimit : ((store.searchMatches lower q.text w).length : Int) < limit) :
    ((∃ found, store.search lower maxPattern q.text w limit = some found ∧ row ∈ found) ↔
      limit ≤ maxSeq ∧ (String.ofList (searchPattern lower q.text)).utf8ByteSize ≤ maxPattern ∧
        lower.lower q.text <:+: sqliteLower row.detailText) ∧
    (∀ s ∈ (AuditRow.optDict row.detail).strings, ∀ part, part <:+: s.toList →
      (∀ c ∈ part, c.toNat < 128) → part.map Char.toLower = q.text.map Char.toLower →
        lower.lower q.text <:+: sqliteLower row.detailText) ∧
    ((∃ c ∈ lower.lower q.text, 128 ≤ c.toNat) →
      ¬lower.lower q.text <:+: sqliteLower row.detailText) := by
  refine ⟨?_, ?_, not_infix_detailText row⟩
  · rw [Store.mem_search_iff lower hrow hw hlimit, detailLike_iff]
  · intro s hs part hpart hascii hsame
    exact infix_detailText lower q row hs hpart hascii hsame

/-- `str.lower` on texts that have no capital letters outside ASCII. -/
def StrLower.plain : StrLower where
  lower s := s.map Char.toLower
  ascii _ _ := rfl
  lowered s c hc := by
    obtain ⟨d, -, rfl⟩ := List.mem_map.1 hc
    exact toLower_toLower d

/-- A table with one row, whose `detail` has one member. -/
def oneDetail (value : String) : Store :=
  (Store.empty.insertRowCore
    { AuditRow.sample "evt-1" 1 with detail := some [("name", .str value)] }).1

def SearchWindow.all : SearchWindow := ⟨"", none, none⟩

theorem search_finds_percent : ∃ row ∈ (oneDetail "Up 100% now").rows, ∃ found,
    (oneDetail "Up 100% now").search .plain 50000 "100% N".toList .all 50 = some found ∧
      row ∈ found := by
  refine ⟨_, List.mem_singleton.2 rfl, ?_⟩
  refine (search_finds_iff .plain 50000 (oneDetail "Up 100% now") _ (List.mem_singleton.2 rfl)
    ⟨"100% N".toList, by simp, by simp, by simp⟩ .all (by decide) 50 (by decide)).1.2 ?_
  decide +kernel

/-- The row's only string is the text itself, and the search does not find it. -/
theorem search_misses_accent :
    (∃ row, (oneDetail "é").rows = [row] ∧ row.detail = some [("name", .str "é")] ∧
      SearchWindow.all.holds row = true) ∧
    ((oneDetail "é").search .plain 50000 "é".toList .all 50).map List.length = some 0 := by
  refine ⟨⟨_, rfl, rfl, by decide⟩, ?_⟩
  decide +kernel

end Fasten
