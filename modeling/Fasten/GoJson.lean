import Fasten.GoFloat

set_option autoImplicit false

/-! # Go JSON

`encoding/json` on the values a row's `detail` holds, the canonical JSON of `go/verify.go`, and
what decoding an encoded `detail` gives back. A Go map is the list of its entries by key, which is
the order the encoder writes them in. Strings are valid UTF-8, as the decoder leaves them. -/

namespace Fasten.Go

open JsonText

/-! ## Escapes -/

/-- One character of a string as the encoder writes it. -/
def goEscape (escapeHTML : Bool) (c : Char) : List Char :=
  match shortEscape c with
  | some e => ['\\', e]
  | none =>
    if c < ' ' ∨ (escapeHTML = true ∧ (c = '<' ∨ c = '>' ∨ c = '&'))
        ∨ c = '\u2028' ∨ c = '\u2029' then
      uEscape c.toNat
    else [c]

/-- One character under `asciiEscape`. -/
def asciiRune (escapeDEL : Bool) (c : Char) : List Char :=
  if c = '\x7f' ∧ escapeDEL = true then uEscape 0x7f
  else if c.toNat < 0x80 then [c]
  else if 0xffff < c.toNat then
    uEscape (0xd800 + (c.toNat - 0x10000) / 0x400)
      ++ uEscape (0xdc00 + (c.toNat - 0x10000) % 0x400)
  else uEscape c.toNat

def hexDigit (c : Char) : Option Nat :=
  if '0' ≤ c ∧ c ≤ '9' then some (c.toNat - '0'.toNat)
  else if 'a' ≤ c ∧ c ≤ 'f' then some (c.toNat - 'a'.toNat + 10)
  else if 'A' ≤ c ∧ c ≤ 'F' then some (c.toNat - 'A'.toNat + 10)
  else none

/-- `getu4`: the value of `\uXXXX` at the front of a text, and what follows. -/
def getu4 : List Char → Option (Nat × List Char)
  | '\\' :: 'u' :: a :: b :: c :: d :: r =>
    match hexDigit a, hexDigit b, hexDigit c, hexDigit d with
    | some a, some b, some c, some d => some (((a * 16 + b) * 16 + c) * 16 + d, r)
    | _, _, _, _ => none
  | _ => none

/-- An escaped code unit: a surrogate with its partner is one character, and one without is
    `lone`. -/
def readUnit (lone : Option Char) (s : List Char) : Option (Char × List Char) :=
  match getu4 s with
  | none => none
  | some (n, r) =>
    if n < 0xd800 ∨ 0xdfff < n then some (Char.ofNat n, r)
    else
      match getu4 r with
      | some (m, r') =>
        if n < 0xdc00 ∧ 0xdc00 ≤ m ∧ m ≤ 0xdfff then
          some (Char.ofNat (0x10000 + (n - 0xd800) * 0x400 + (m - 0xdc00)), r')
        else lone.map (·, r)
      | none => lone.map (·, r)

/-- One character of a string; `none` is a syntax error. -/
def readCharWith (lone : Option Char) : List Char → Option (Char × List Char)
  | [] => none
  | c :: r =>
    if c = '\\' then
      if r.head? = some 'u' then readUnit lone (c :: r)
      else
        match r with
        | [] => none
        | e :: r => if e = '/' then some ('/', r) else (unshortEscape e).map (·, r)
    else if c < ' ' then none
    else some (c, r)

/-- `unquote`. -/
def readChar : List Char → Option (Char × List Char) := readCharWith (some '\ufffd')

/-! ### Every escape reads back -/

theorem hexDigit_digitChar : ∀ d < 16, hexDigit (Nat.digitChar d) = some d := by decide

theorem getu4_uEscape {n : Nat} (h : n < 0x10000) (r : List Char) :
    getu4 (uEscape n ++ r) = some (n, r) := by
  rw [uEscape, digits_sixteen_four]
  simp only [List.cons_append, List.nil_append, getu4,
    hexDigit_digitChar _ (Nat.mod_lt _ (show 0 < 16 by decide)), Option.some.injEq, Prod.mk.injEq,
    and_true]
  omega

variable {lone : Option Char}

theorem readCharWith_uEscape {n : Nat} (h : n < 0xd800 ∨ 0xdfff < n ∧ n < 0x10000) (r : List Char) :
    readCharWith lone (uEscape n ++ r) = some (Char.ofNat n, r) := by
  have hunit : readCharWith lone (uEscape n ++ r) = readUnit lone (uEscape n ++ r) := rfl
  rw [hunit, readUnit, getu4_uEscape (by omega)]
  exact if_pos (by omega)

theorem readCharWith_surrogates {m n : Nat} (hm : m < 0x400) (hn : n < 0x400) (r : List Char) :
    readCharWith lone (uEscape (0xd800 + m) ++ uEscape (0xdc00 + n) ++ r)
      = some (Char.ofNat (0x10000 + m * 0x400 + n), r) := by
  rw [List.append_assoc]
  have hunit : readCharWith lone (uEscape (0xd800 + m) ++ (uEscape (0xdc00 + n) ++ r))
      = readUnit lone (uEscape (0xd800 + m) ++ (uEscape (0xdc00 + n) ++ r)) := rfl
  rw [hunit, readUnit, getu4_uEscape (by omega)]
  simp only [getu4_uEscape (show 0xdc00 + n < 0x10000 by omega)]
  rw [if_neg (by omega), if_pos (by omega)]
  simp

variable {c : Char}

theorem readCharWith_short {e : Char} (h : shortEscape c = some e) (r : List Char) :
    readCharWith lone ('\\' :: e :: r) = some (c, r) := by
  obtain ⟨hu, hun⟩ := unshortEscape_of_shortEscape h
  have hslash : e ≠ '/' := by
    intro hslash
    rw [hslash] at hun
    exact absurd hun (by simp [unshortEscape])
  simp [readCharWith, hu, hun, hslash]

/-- The texts a string may hold for a character. -/
inductive EscapeOf (c : Char) : List Char → Prop
  | raw : c ≠ '\\' → c ≠ '"' → ¬c < ' ' → EscapeOf c [c]
  | short (e : Char) : shortEscape c = some e → EscapeOf c ['\\', e]
  | unit : c.toNat ≤ 0xffff → EscapeOf c (uEscape c.toNat)
  | pair : 0xffff < c.toNat →
      EscapeOf c (uEscape (0xd800 + (c.toNat - 0x10000) / 0x400)
        ++ uEscape (0xdc00 + (c.toNat - 0x10000) % 0x400))

theorem EscapeOf.reads {text : List Char} (h : EscapeOf c text) (r : List Char) :
    readCharWith lone (text ++ r) = some (c, r) := by
  have hv : c.toNat < 0xd800 ∨ 0xdfff < c.toNat ∧ c.toNat < 0x110000 := c.valid
  cases h with
  | raw hback _ hctrl => simp [readCharWith, hback, hctrl]
  | short e he => exact readCharWith_short he r
  | unit hbmp => rw [readCharWith_uEscape (by omega), Char.ofNat_toNat]
  | pair hastral =>
    have hsum : 0x10000 + (c.toNat - 0x10000) / 0x400 * 0x400 + (c.toNat - 0x10000) % 0x400
        = c.toNat := by omega
    rw [readCharWith_surrogates (by omega) (by omega), hsum, Char.ofNat_toNat]

theorem EscapeOf.head {text : List Char} (h : EscapeOf c text) (r : List Char) :
    (text ++ r).head? ≠ some '"' := by
  cases h with
  | raw _ hquote _ => simpa using hquote
  | short e he => simp
  | unit | pair => simp [uEscape]

theorem shortEscape_eq_none (h : shortEscape c = none) : c ≠ '\\' ∧ c ≠ '"' := by
  refine ⟨fun hc => ?_, fun hc => ?_⟩
  all_goals
    rw [hc] at h
    simp [shortEscape] at h

theorem escapeOf_goEscape (escapeHTML : Bool) (c : Char) : EscapeOf c (goEscape escapeHTML c) := by
  rw [goEscape]
  cases hs : shortEscape c with
  | some e => exact .short e hs
  | none =>
    obtain ⟨hback, hquote⟩ := shortEscape_eq_none hs
    simp only
    split_ifs with hescaped
    · refine .unit ?_
      rcases hescaped with hctrl | ⟨-, rfl | rfl | rfl⟩ | rfl | rfl
      · have hlt : c.toNat < 0x20 := hctrl
        omega
      all_goals decide
    · exact .raw hback hquote (fun hctrl => hescaped (Or.inl hctrl))

/-- `asciiEscape` after the encoder. -/
def canonicalEscape (escapeDEL : Bool) (c : Char) : List Char :=
  (goEscape false c).flatMap (asciiRune escapeDEL)

theorem asciiRune_of_lt (escapeDEL : Bool) (h : c.toNat < 0x7f) : asciiRune escapeDEL c = [c] := by
  have hne : c ≠ '\x7f' := by
    intro heq
    rw [heq] at h
    exact absurd h (by decide)
  rw [asciiRune, if_neg (fun hc => hne hc.1), if_pos (by omega)]

theorem asciiRune_of_isPlain (escapeDEL : Bool) (h : isPlain c = true) :
    asciiRune escapeDEL c = [c] := by
  simp only [isPlain, Bool.and_eq_true, decide_eq_true_eq] at h
  have hle : c.toNat ≤ 0x7e := h.2
  exact asciiRune_of_lt escapeDEL (by omega)

theorem isPlain_of_mem_uEscape {n : Nat} (h : c ∈ uEscape n) : isPlain c = true := by
  rw [uEscape, List.mem_cons, List.mem_cons] at h
  rcases h with rfl | rfl | h
  · decide
  · decide
  · have hall : ∀ d < 16, isPlain (Nat.digitChar d) = true := by decide
    obtain ⟨d, hd, rfl⟩ := TextCodec.exists_digit_of_mem_digits (by decide) h
    exact hall d hd

theorem isPlain_of_shortEscape {e : Char} (h : shortEscape c = some e) : isPlain e = true := by
  unfold shortEscape at h
  split_ifs at h <;> (cases h; decide)

theorem escapeOf_asciiRune (hback : c ≠ '\\') (hquote : c ≠ '"') (hctrl : ¬c < ' ')
    (escapeDEL : Bool) : EscapeOf c (asciiRune escapeDEL c) := by
  rw [asciiRune]
  split_ifs with hdel hascii hastral
  · rw [hdel.1]
    exact .unit (by decide)
  · exact .raw hback hquote hctrl
  · exact .pair hastral
  · exact .unit (by omega)

theorem escapeOf_canonicalEscape (escapeDEL : Bool) (c : Char) :
    EscapeOf c (canonicalEscape escapeDEL c) := by
  -- an escape is plain already, so only a raw character is rewritten
  have hplain : ∀ {text : List Char}, (∀ d ∈ text, isPlain d = true) →
      text.flatMap (asciiRune escapeDEL) = text :=
    fun h => flatMap_of_plain (fun d => asciiRune_of_isPlain escapeDEL) h
  have hescape := escapeOf_goEscape false c
  rw [canonicalEscape]
  generalize goEscape false c = text at hescape
  cases hescape with
  | raw hback hquote hctrl =>
    rw [List.flatMap_singleton]
    exact escapeOf_asciiRune hback hquote hctrl escapeDEL
  | short e he =>
    rw [hplain (by simpa using ⟨by decide, isPlain_of_shortEscape he⟩)]
    exact .short e he
  | unit hbmp =>
    rw [hplain (fun d hd => isPlain_of_mem_uEscape hd)]
    exact .unit hbmp
  | pair hastral =>
    rw [hplain (fun d hd => (List.mem_append.1 hd).elim isPlain_of_mem_uEscape
      isPlain_of_mem_uEscape)]
    exact .pair hastral

/-! ## Encoding and decoding -/

/-- The escapes of `json.Marshal` and of an encoder without `SetEscapeHTML`. -/
def goEscapes (escapeHTML : Bool) : Escape readChar where
  esc := goEscape escapeHTML
  reads := fun c => (escapeOf_goEscape escapeHTML c).reads
  head := fun c => (escapeOf_goEscape escapeHTML c).head

def canonicalEscapes (escapeDEL : Bool) : Escape readChar where
  esc := canonicalEscape escapeDEL
  reads := fun c => (escapeOf_canonicalEscape escapeDEL c).reads
  head := fun c => (escapeOf_canonicalEscape escapeDEL c).head

/-- A value of Go's `any` that JSON has. -/
abbrev Value := JsonTree Num String

/-- What the encoder sees of a value. -/
def numerals (v : Value) : JsonTree Numeral String := v.map Num.numeral id

/-- `encodeJSON`. -/
def encodeJSON (v : Value) : List Char := write (textWriter (goEscape false) []) (numerals v)

def canonicalJSONText (escapeDEL : Bool) (v : Value) : List Char :=
  (encodeJSON v).flatMap (asciiRune escapeDEL)

def canonicalJSON (v : Value) : ByteArray := encode (canonicalJSONText true v)

def canonicalJSONRawDEL (v : Value) : ByteArray := encode (canonicalJSONText false v)

theorem canonicalJSONText_eq_write (escapeDEL : Bool) (v : Value) :
    canonicalJSONText escapeDEL v = write (textWriter (canonicalEscape escapeDEL) []) (numerals v) :=
  flatMap_write (fun _ => asciiRune_of_isPlain escapeDEL) (goEscape false) (by simp) (numerals v)

theorem reads_canonical (escapeDEL : Bool) :
    Reads (textReader readChar) (textWriter (canonicalEscape escapeDEL) []) id :=
  reads_textWriter (canonicalEscapes escapeDEL) (by simp)

/-- **A canonical text says what the encoder saw**, with DEL escaped or raw. -/
theorem numerals_eq_of_canonicalJSONText_eq {escapeDEL escapeDEL' : Bool} {v w : Value}
    (h : canonicalJSONText escapeDEL v = canonicalJSONText escapeDEL' w) : numerals v = numerals w := by
  rw [canonicalJSONText_eq_write, canonicalJSONText_eq_write] at h
  exact write_inj (reads_canonical escapeDEL) (reads_canonical escapeDEL') h

/-! ## Maps -/

/-- A `map[string]any` that is not nil. -/
structure Object where
  members : List (String × Value)
  keyed : (JsonTree.obj members).keyed = true

def Object.value (o : Object) : Value := .obj o.members

/-- The map a list of decoded members makes. -/
def Object.ofMembers (members : List (String × Value)) : Object :=
  ⟨JsonTree.mapOf (JsonTree.toMapsMembers members), JsonTree.keyed_toMaps (.obj members)⟩

theorem Object.ofMembers_members {members : List (String × Value)}
    (h : (JsonTree.obj members).keyed = true) : (Object.ofMembers members).value = .obj members :=
  JsonTree.toMaps_of_keyed h

/-- Decoding into a `map[string]any`, with what becomes of a number: `some none` is nil, and `none`
    an error. -/
def decodeMap (num : Numeral → Option Num) (text : List Char) : Option (Option Object) :=
  match read (textReader readChar) text with
  | some .null => some none
  | some (.obj members) =>
    (JsonTree.traverseMembers num members).map (fun members => some (Object.ofMembers members))
  | _ => none

/-- `json.Unmarshal`: numbers become float64. -/
def unmarshal : List Char → Option (Option Object) :=
  decodeMap (fun t => (float64Of t).map .float64)

/-- The decoder with `UseNumber`: numbers keep their tokens. -/
def decodeUseNumber : List Char → Option (Option Object) :=
  decodeMap (fun t =>
    if h : (parseNumber t.text).isSome = true then some (.number ⟨t, h⟩) else none)

/-- `json.Marshal` of a map; nil is `null`. -/
def marshal (detail : Option Object) : List Char :=
  match detail with
  | none => write (textWriter (goEscape true) []) .null
  | some o => write (textWriter (goEscape true) []) (numerals o.value)

theorem reads_marshal : Reads (textReader readChar) (textWriter (goEscape true) []) id :=
  reads_textWriter (goEscapes true) (by simp)

theorem unmarshal_marshal_none : unmarshal (marshal none) = some none := by
  rw [unmarshal, decodeMap, marshal, read_write reads_marshal]
  rfl

/-- A number survives the trip when its float64 is written with the same token. -/
def Survives (t : Numeral) : Prop := (float64Of t).map Float64.numeral = some t

instance (t : Numeral) : Decidable (Survives t) :=
  inferInstanceAs (Decidable (_ = some t))

theorem numerals_value (o : Object) :
    numerals o.value = .obj (JsonTree.mapMembers Num.numeral id o.members) := by
  rw [numerals, Object.value, JsonTree.map]

theorem unmarshal_marshal_some (o : Object) :
    unmarshal (marshal (some o))
      = (JsonTree.traverseMembers (fun t => (float64Of t).map Num.float64)
          (JsonTree.mapMembers Num.numeral id o.members)).map
        (fun members => some (Object.ofMembers members)) := by
  rw [unmarshal, decodeMap, marshal, read_write reads_marshal, JsonTree.map_id_id, numerals_value]

/-- **A map comes back as it was encoded exactly when each of its numbers does.** -/
theorem unmarshal_marshal_iff (o : Object) :
    (∃ o', unmarshal (marshal (some o)) = some (some o') ∧ numerals o'.value = numerals o.value)
      ↔ ∀ t ∈ (numerals o.value).nums, Survives t := by
  have hsurvive : (∀ t ∈ (numerals o.value).nums, Survives t) ↔
      ((numerals o.value).traverse (fun t => (float64Of t).map Num.float64)).map numerals
        = some (numerals o.value) := by
    have hmap : ((numerals o.value).traverse (fun t => (float64Of t).map Num.float64)).map numerals
        = _ := JsonTree.traverse_map _ Num.numeral (numerals o.value)
    rw [hmap, JsonTree.traverse_eq_some_self_iff]
    simp only [Option.map_map]
    exact Iff.rfl
  have hkeyed : (numerals o.value).keyed = true := (JsonTree.keyed_map _ _).trans o.keyed
  rw [hsurvive, unmarshal_marshal_some]
  rw [numerals_value] at hkeyed ⊢
  cases hv : JsonTree.traverseMembers (fun t => (float64Of t).map Num.float64)
      (JsonTree.mapMembers Num.numeral id o.members) with
  | none => simp [JsonTree.traverse, hv]
  | some members =>
    have htree : (JsonTree.obj (JsonTree.mapMembers Num.numeral id o.members)).traverse
        (fun t => (float64Of t).map Num.float64) = some (.obj members) := by
      rw [JsonTree.traverse, hv]
      rfl
    have hvalue := Object.ofMembers_members (JsonTree.keyed_of_traverse hkeyed htree)
    rw [htree]
    simp only [Option.map_some, Option.some.injEq, exists_eq_left', hvalue]

end Fasten.Go
