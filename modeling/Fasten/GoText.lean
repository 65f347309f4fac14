import Fasten.Lib.Utf8

set_option autoImplicit false

/-! # Texts

What the Go SDK calls of `strings`, `unicode` and `strconv`, over the bytes of a Go string, and
Python's `str.strip`. -/

namespace Fasten

/-- `unicode.IsSpace`. -/
def isUnicodeSpace (c : Char) : Bool :=
  let n := c.toNat
  decide (0x9 ≤ n ∧ n ≤ 0xd ∨ n = 0x20 ∨ n = 0x85 ∨ n = 0xa0 ∨ n = 0x1680
    ∨ 0x2000 ≤ n ∧ n ≤ 0x200a ∨ n = 0x2028 ∨ n = 0x2029 ∨ n = 0x202f ∨ n = 0x205f ∨ n = 0x3000)

/-- Python's `str.isspace`. -/
def isPySpace (c : Char) : Bool :=
  isUnicodeSpace c || decide (0x1c ≤ c.toNat ∧ c.toNat ≤ 0x1f)

/-- Python's `str.strip`. -/
def strip (s : String) : String :=
  String.ofList ((s.toList.dropWhile isPySpace).reverse.dropWhile isPySpace).reverse

namespace Go

/-- `strings.TrimLeftFunc(s, unicode.IsSpace)`, with enough fuel for the text. -/
def trimLeft : ℕ → List UInt8 → List UInt8
  | 0, b => b
  | fuel + 1, b =>
    match Utf8.decodeChar? b with
    | some c =>
      if isUnicodeSpace c then trimLeft fuel (b.drop (String.utf8EncodeChar c).length) else b
    | none => b

/-- The runes of `unicode.IsSpace`. -/
def spaceRunes : List Char :=
  ['\t', '\n', '\x0b', '\x0c', '\r', ' ', '\u0085', '\u00a0', '\u1680', '\u2000', '\u2001', '\u2002',
    '\u2003', '\u2004', '\u2005', '\u2006', '\u2007', '\u2008', '\u2009', '\u200a', '\u2028',
    '\u2029', '\u202f', '\u205f', '\u3000']

/-- `strings.TrimRightFunc(s, unicode.IsSpace)`, with enough fuel for the text. -/
def trimRight : ℕ → List UInt8 → List UInt8
  | 0, b => b
  | fuel + 1, b =>
    match spaceRunes.find? (fun c => (String.utf8EncodeChar c).isSuffixOf b) with
    | some c => trimRight fuel (b.take (b.length - (String.utf8EncodeChar c).length))
    | none => b

/-- `strings.TrimSpace`. -/
def trimSpace (b : List UInt8) : List UInt8 := trimRight b.length (trimLeft b.length b)

def isDigitByte (b : UInt8) : Bool := decide (48 ≤ b ∧ b ≤ 57)

def decimal (ds : List UInt8) : ℕ := ds.foldl (fun n d => n * 10 + (d.toNat - 48)) 0

/-- What follows the sign. -/
def unsigned (b : List UInt8) : List UInt8 :=
  if b.head? = some 45 ∨ b.head? = some 43 then b.tail else b

/-- `strconv.Atoi` with a 64-bit `int`; `none` is its syntax or range error. -/
def atoi (b : List UInt8) : Option ℤ :=
  if unsigned b = [] ∨ (unsigned b).all isDigitByte = false then none
  else
    let n : ℤ := if b.head? = some 45 then -(decimal (unsigned b) : ℤ) else decimal (unsigned b)
    if -(2 ^ 63) ≤ n ∧ n < 2 ^ 63 then some n else none

/-- The digits of a number that is not negative, with or without a plus sign. -/
structure Spells (b : List UInt8) (n : ℕ) : Prop where
  spelled : ∃ sign ds, (sign = [] ∨ sign = [43]) ∧ ds ≠ [] ∧ ds.all isDigitByte = true
    ∧ decimal ds = n ∧ b = sign ++ ds

theorem unsigned_of_spelled {sign ds : List UInt8} (hsign : sign = [] ∨ sign = [43])
    (hne : ds ≠ []) (hall : ds.all isDigitByte = true) :
    unsigned (sign ++ ds) = ds ∧ (sign ++ ds).head? ≠ some 45 := by
  have hhead : ds.head? ≠ some 45 ∧ ds.head? ≠ some 43 := by
    cases ds with
    | nil => exact absurd rfl hne
    | cons d ds =>
      rw [List.all_cons, Bool.and_eq_true] at hall
      simp only [List.head?_cons, ne_eq, Option.some.injEq]
      constructor <;> (rintro rfl; exact absurd hall.1 (by decide))
  rcases hsign with rfl | rfl
  · rw [List.nil_append, unsigned, if_neg (by simp [hhead])]
    exact ⟨rfl, hhead.1⟩
  · exact ⟨rfl, by simp⟩

theorem Spells.decimal_unsigned {b : List UInt8} {n : ℕ} (h : Spells b n) :
    decimal (unsigned b) = n := by
  obtain ⟨sign, ds, hsign, hne, hall, hval, rfl⟩ := h.spelled
  rw [(unsigned_of_spelled hsign hne hall).1, hval]

/-- **The positive numbers that `Atoi` reads.** -/
theorem atoi_eq_some_iff {b : List UInt8} {n : ℕ} (hn : 0 < n) :
    atoi b = some (n : ℤ) ↔ Spells b n ∧ n < 2 ^ 63 := by
  constructor
  · intro h
    unfold atoi at h
    by_cases hbad : unsigned b = [] ∨ (unsigned b).all isDigitByte = false
    · rw [if_pos hbad] at h
      exact absurd h (by simp)
    · rw [if_neg hbad] at h
      rw [not_or, Bool.not_eq_false] at hbad
      simp only at h
      split_ifs at h with hminus hrange hrange
      · -- a minus sign gives no positive number
        have hneg := Option.some.inj h
        omega
      · have hval : decimal (unsigned b) = n := by exact_mod_cast Option.some.inj h
        refine ⟨⟨⟨if b.head? = some 43 then [43] else [], unsigned b, ?_, hbad.1, hbad.2, hval,
          ?_⟩⟩, ?_⟩
        · split_ifs <;> simp
        · cases b with
          | nil => rfl
          | cons c b =>
            simp only [List.head?_cons, Option.some.injEq] at hminus ⊢
            by_cases hc : c = 43
            · simp [unsigned, hc]
            · simp [unsigned, hc, hminus]
        · rw [hval] at hrange
          exact_mod_cast hrange.2
  · rintro ⟨⟨sign, ds, hsign, hne, hall, hval, rfl⟩, hlt⟩
    obtain ⟨hunsigned, hminus⟩ := unsigned_of_spelled hsign hne hall
    have hlt' : (n : ℤ) < 2 ^ 63 := by exact_mod_cast hlt
    rw [atoi, hunsigned, if_neg (by simp [hne, hall])]
    simp only [if_neg hminus, hval]
    exact if_pos ⟨by omega, hlt'⟩

/-- What an `int64` holds of a number. -/
@[irreducible] def wrap64 (n : ℤ) : ℤ := n.bmod (2 ^ 64)

theorem wrap64_eq_iff {n : ℤ} (h : 0 ≤ n) : wrap64 n = n ↔ n < 2 ^ 63 := by
  unfold wrap64
  constructor
  · intro heq
    have hlt := Int.bmod_lt (x := n) (show 0 < 2 ^ 64 by decide)
    rw [heq] at hlt
    norm_num at hlt ⊢
    omega
  · intro hlt
    refine Int.bmod_eq_of_le (by norm_num; omega) (by norm_num; omega)

end Go

end Fasten
