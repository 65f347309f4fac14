import Mathlib.Data.List.Sort
import Mathlib.Data.String.Basic
import Fasten.Lib.TextCodec

set_option autoImplicit false

/-! # Canonical JSON

The bytes a row is hashed over (`python/fasten/chain.py`, spec §1.2):
`json.dumps(d, sort_keys=True, separators=(',', ':'), default=str).encode()`, and the same text
with DEL left raw, as the Go SDK once wrote it. Strings hold Unicode scalar values, as they do on
the wire and in a store. -/

namespace Fasten

/-! ## Values -/

/-- The characters of a number as `json` writes it. -/
def isNumChar (c : Char) : Bool :=
  c.isDigit || c == '-' || c == '+' || c == '.' || c == 'e'

/-- A finite float, as its `repr`: `float.__repr__` gives distinct floats distinct texts, and each
    has a point or an exponent, so it is never the text of an int. -/
structure FloatRepr where
  text : List Char
  numeric : ∀ c ∈ text, isNumChar c = true
  notInt : '.' ∈ text ∨ 'e' ∈ text

theorem FloatRepr.ext_text {a b : FloatRepr} (h : a.text = b.text) : a = b := by
  cases a
  cases b
  simpa using h

/-- A value `json.loads` can return. An object is a Python `dict`: its items in insertion order. -/
inductive Json where
  | null
  | bool (b : Bool)
  | int (n : Int)
  | float (f : FloatRepr)
  | str (s : String)
  | arr (items : List Json)
  | obj (members : List (String × Json))

/-! ## Escaping -/

/-- `\uXXXX`. -/
def uEscape (n : Nat) : List Char :=
  '\\' :: 'u' :: TextCodec.digits 16 4 n

/-- The two-character escapes (`ESCAPE_DCT`). -/
def shortEscape (c : Char) : Option Char :=
  if c = '"' then some '"'
  else if c = '\\' then some '\\'
  else if c = '\n' then some 'n'
  else if c = '\r' then some 'r'
  else if c = '\t' then some 't'
  else if c = '\x08' then some 'b'
  else if c = '\x0c' then some 'f'
  else none

/-- One character under `ensure_ascii=True`: everything outside `' '..'~'` is escaped, an astral
    character as a UTF-16 surrogate pair. -/
def asciiEscape (c : Char) : List Char :=
  match shortEscape c with
  | some e => ['\\', e]
  | none =>
    if ' ' ≤ c ∧ c ≤ '~' then [c]
    else if c.toNat < 0x10000 then uEscape c.toNat
    else
      uEscape (0xd800 + (c.toNat - 0x10000) / 0x400)
        ++ uEscape (0xdc00 + (c.toNat - 0x10000) % 0x400)

/-- One character under `ensure_ascii=False`: only the control characters, `"` and `\` are
    escaped. -/
def unicodeEscape (c : Char) : List Char :=
  match shortEscape c with
  | some e => ['\\', e]
  | none => if c < ' ' then uEscape c.toNat else [c]

/-! ## Writing -/

/-- The `json.dumps` options the chain uses. -/
structure DumpStyle where
  escape : Char → List Char
  itemSep : List Char
  keySep : List Char

/-- `ensure_ascii=True, separators=(',', ':')`. -/
def compactAscii : DumpStyle := ⟨asciiEscape, [','], [':']⟩

/-- `ensure_ascii=False` with the default separators. -/
def spacedUnicode : DumpStyle := ⟨unicodeEscape, [',', ' '], [':', ' ']⟩

/-- `int.__repr__`. -/
def intText (n : Int) : List Char :=
  if n < 0 then '-' :: Nat.toDigits 10 n.natAbs else Nat.toDigits 10 n.natAbs

def strText (st : DumpStyle) (s : String) : List Char :=
  '"' :: (s.toList.flatMap st.escape ++ ['"'])

mutual

/-- `json.dumps`, before sorting. The separator is written before every item but the first. -/
def dumps (st : DumpStyle) : Json → List Char
  | .null => ['n', 'u', 'l', 'l']
  | .bool true => ['t', 'r', 'u', 'e']
  | .bool false => ['f', 'a', 'l', 's', 'e']
  | .int n => intText n
  | .float f => f.text
  | .str s => strText st s
  | .arr items => '[' :: dumpsItems st [] items
  | .obj members => '{' :: dumpsMembers st [] members

def dumpsItems (st : DumpStyle) (sep : List Char) : List Json → List Char
  | [] => [']']
  | v :: rest => sep ++ (dumps st v ++ dumpsItems st st.itemSep rest)

def dumpsMembers (st : DumpStyle) (sep : List Char) : List (String × Json) → List Char
  | [] => ['}']
  | (k, v) :: rest =>
    sep ++ (strText st k ++ (st.keySep ++ (dumps st v ++ dumpsMembers st st.itemSep rest)))

end

mutual

/-- `sort_keys=True`: the members of every object by key. Two dicts are equal in Python exactly
    when their sorted forms are the same value. -/
def Json.sortKeys : Json → Json
  | .null => .null
  | .bool b => .bool b
  | .int n => .int n
  | .float f => .float f
  | .str s => .str s
  | .arr items => .arr (sortKeysItems items)
  | .obj members => .obj ((sortKeysMembers members).insertionSort (fun a b => a.1 ≤ b.1))

def sortKeysItems : List Json → List Json
  | [] => []
  | v :: rest => v.sortKeys :: sortKeysItems rest

def sortKeysMembers : List (String × Json) → List (String × Json)
  | [] => []
  | (k, v) :: rest => (k, v.sortKeys) :: sortKeysMembers rest

end

/-! ## The hashed bytes -/

/-- `str.encode()`. -/
def encode (text : List Char) : ByteArray := (String.ofList text).toUTF8

/-- How a value is turned into hashed bytes (`_Canon`). -/
abbrev Canon := Json → ByteArray

def canonicalText (d : Json) : List Char := dumps compactAscii d.sortKeys

def canonicalJson : Canon := fun d => encode (canonicalText d)

/-- `re.sub` over `\\\\|\\u007f`: an escaped backslash is taken whole, so the text `\u007f` of a
    string stays as it is. -/
def subRawDel : List Char → List Char
  | '\\' :: '\\' :: rest => '\\' :: '\\' :: subRawDel rest
  | '\\' :: 'u' :: '0' :: '0' :: '7' :: 'f' :: rest => '\x7f' :: subRawDel rest
  | c :: rest => c :: subRawDel rest
  | [] => []

def canonicalJsonRawDel : Canon := fun d => encode (subRawDel (canonicalText d))

/-- Whether any string of the row holds DEL. -/
def hasDel (rowDict : Json) : Bool := (dumps spacedUnicode rowDict).contains '\x7f'

end Fasten
