import Fasten.CanonicalJson.Tokens
import Fasten.Lib.JsonText

set_option autoImplicit false

/-! # Go numbers in JSON

A number token and the float64 that `encoding/json` makes of it when it decodes into an `any`:
`strconv.ParseFloat` rounds the decimal to the nearest float64, and `Marshal` writes the float64
with the fewest digits that parse to it. -/

namespace Fasten.Go

open JsonText

/-! ## Tokens -/

/-- A decimal: `coeff * 10 ^ exp`, negated or not. -/
structure Decimal where
  neg : Bool
  coeff : Nat
  exp : Int
  deriving DecidableEq

def digitsVal (s : List Char) : Nat := s.foldl (fun n c => n * 10 + (c.toNat - '0'.toNat)) 0

def parseExponent : List Char → Option Int
  | [] => some 0
  | c :: r =>
    let neg := decide (r.head? = some '-')
    let ds := if r.head? = some '-' ∨ r.head? = some '+' then r.tail else r
    if (c = 'e' ∨ c = 'E') ∧ ds ≠ [] ∧ ds.all Char.isDigit then
      some (if neg then -(digitsVal ds : Int) else digitsVal ds)
    else none

/-- The grammar of a JSON number (`isValidNumber`), with the value it stands for. -/
def parseNumber (s : List Char) : Option Decimal :=
  let neg := decide (s.head? = some '-')
  let s := if neg then s.tail else s
  let whole := s.takeWhile Char.isDigit
  let s := s.dropWhile Char.isDigit
  let point := decide (s.head? = some '.')
  let frac := if point then s.tail.takeWhile Char.isDigit else []
  let s := if point then s.tail.dropWhile Char.isDigit else s
  if whole = [] ∨ (whole.head? = some '0' ∧ whole ≠ ['0']) ∨ (point ∧ frac = []) then none
  else
    (parseExponent s).map (fun e =>
      ⟨neg, digitsVal (whole ++ frac), e - (frac.length : Int)⟩)

/-- A `json.Number`: the token as it stands in the text. -/
structure Number extends Numeral where
  valid : (parseNumber text).isSome = true
  deriving DecidableEq

/-! ## Rounding to a float64 -/

/-- A finite float64: `mant * 2 ^ exp`, negated or not. -/
structure Float64 where
  neg : Bool
  mant : Nat
  exp : Int
  range : mant < 2 ^ 53 ∧ -1074 ≤ exp ∧ exp ≤ 971
  deriving DecidableEq

def Float64.zero (neg : Bool) : Float64 := ⟨neg, 0, -1074, by decide⟩

/-- `a / b` rounded to the nearest integer, a tie to the even one. -/
def roundHalfEven (a b : Nat) : Nat :=
  if 2 * (a % b) < b then a / b
  else if b < 2 * (a % b) then a / b + 1
  else a / b + (a / b) % 2

/-- `a / b * base ^ e` as a fraction. -/
def scale (base : Nat) (e : Int) (a b : Nat) : Nat × Nat :=
  if 0 ≤ e then (a * base ^ e.toNat, b) else (a, b * base ^ (-e).toNat)

/-- The exponent of the highest power of two that is at most `a / b`. -/
def ilog2 (a b : Nat) : Int :=
  let k : Int := (Nat.log2 a : Int) - Nat.log2 b
  let (x, y) := scale 2 (-k) a b
  if y ≤ x then k else k - 1

/-- The nearest float64 to `a / b`; `none` when it is out of range. -/
def Float64.ofRatio (neg : Bool) (a b : Nat) : Option Float64 :=
  let e := max (ilog2 a b - 52) (-1074)
  let (x, y) := scale 2 (-e) a b
  let m := roundHalfEven x y
  let (m, e) := if m = 2 ^ 53 then (2 ^ 52, e + 1) else (m, e)
  if h : m < 2 ^ 53 ∧ -1074 ≤ e ∧ e ≤ 971 then some ⟨neg, m, e, h⟩ else none

def decimalDigits (n : Nat) : Nat := (Nat.toDigits 10 n).length

/-- `strconv.ParseFloat`: `none` is the range error. A decimal of at least `10 ^ 310` is out of
    range, and one below `10 ^ -330` is nearest to zero. -/
def Decimal.toFloat64 (d : Decimal) : Option Float64 :=
  if d.coeff = 0 ∨ (decimalDigits d.coeff : Int) + d.exp < -330 then some (Float64.zero d.neg)
  else if 310 < (decimalDigits d.coeff : Int) + d.exp then none
  else
    let (a, b) := scale 10 d.exp d.coeff 1
    Float64.ofRatio d.neg a b

/-! ## The shortest digits -/

def stripZeros : Nat → Nat → Int → Nat × Int
  | 0, c, e => (c, e)
  | fuel + 1, c, e => if c % 10 = 0 then stripZeros fuel (c / 10) (e + 1) else (c, e)

/-- The place of the decimal point in `a / b` before its first digit that is not zero. -/
def decimalPoint (a b : Nat) : Int :=
  if b ≤ a then decimalDigits (a / b) else 1 - (decimalDigits (b / a) : Int)

/-- The decimal of `n` digits nearest to the float64, if it parses to it. -/
def Float64.shortestOf (f : Float64) (a b n : Nat) : Option (Nat × Int) :=
  let s : Int := (n : Int) - decimalPoint a b
  let (x, y) := scale 10 s a b
  let back (c : Nat) : Bool := decide ((Decimal.mk f.neg c (-s)).toFloat64 = some f)
  let low := x / y
  match back low, back (low + 1) with
  | true, true => some (roundHalfEven x y, -s)
  | true, false => some (low, -s)
  | false, true => some (low + 1, -s)
  | false, false => none

/-- The fewest digits that parse to the float64, without zeros at the end, and the exponent of the
    last. Seventeen digits are always enough. -/
def Float64.shortest (f : Float64) : Nat × Int :=
  let (a, b) := scale 2 f.exp f.mant 1
  let (c, e) := ((List.range' 1 17).findSome? (f.shortestOf a b)).getD (a / b, 0)
  stripZeros 17 c e

/-- `strconv.AppendFloat` with `'f'`. -/
def positional (ds : List Char) (point : Int) : List Char :=
  if point ≤ 0 then '0' :: '.' :: (List.replicate (-point).toNat '0' ++ ds)
  else if (ds.length : Int) ≤ point then ds ++ List.replicate (point.toNat - ds.length) '0'
  else ds.take point.toNat ++ '.' :: ds.drop point.toNat

/-- `strconv.AppendFloat` with `'e'`, and an exponent without a leading zero. -/
def exponential (ds : List Char) (point : Int) : List Char :=
  ds.take 1 ++ (if ds.length ≤ 1 then [] else '.' :: ds.drop 1)
    ++ 'e' :: (if point - 1 < 0 then '-' else '+') :: Nat.toDigits 10 (point - 1).natAbs

/-- `floatEncoder`: with an exponent below `1e-6` and from `1e21` on. -/
def formatDigits (ds : List Char) (point : Int) : List Char :=
  if point ≤ -6 ∨ 21 < point then exponential ds point else positional ds point

/-- A float64 as `encoding/json` writes it. -/
def Float64.text (f : Float64) : List Char :=
  let ds := Nat.toDigits 10 f.shortest.1
  (if f.neg then ['-'] else [])
    ++ (if f.mant = 0 then ['0'] else formatDigits ds ((ds.length : Int) + f.shortest.2))

/-! ## A float64's text is a numeral -/

theorem isNumChar_of_mem_toDigits {n : Nat} {c : Char} (h : c ∈ Nat.toDigits 10 n) :
    JsonText.isNumChar c = true := by
  have hdigit := Nat.isDigit_of_mem_toDigits (by decide) (by decide) h
  simp [JsonText.isNumChar, hdigit]

theorem isNumChar_positional {ds : List Char} {point : Int}
    (hds : ∀ c ∈ ds, JsonText.isNumChar c = true) :
    ∀ c ∈ positional ds point, JsonText.isNumChar c = true := by
  intro c hc
  rw [positional] at hc
  split_ifs at hc
  · simp only [List.mem_cons, List.mem_append, List.mem_replicate] at hc
    rcases hc with rfl | rfl | ⟨-, rfl⟩ | hc
    · decide
    · decide
    · decide
    · exact hds c hc
  · simp only [List.mem_append, List.mem_replicate] at hc
    rcases hc with hc | ⟨-, rfl⟩
    · exact hds c hc
    · decide
  · simp only [List.mem_append, List.mem_cons] at hc
    rcases hc with hc | rfl | hc
    · exact hds c (List.mem_of_mem_take hc)
    · decide
    · exact hds c (List.mem_of_mem_drop hc)

theorem isNumChar_exponential {ds : List Char} {point : Int}
    (hds : ∀ c ∈ ds, JsonText.isNumChar c = true) :
    ∀ c ∈ exponential ds point, JsonText.isNumChar c = true := by
  intro c hc
  simp only [exponential, List.mem_append, List.mem_cons] at hc
  rcases hc with (hc | hc) | rfl | rfl | hc
  · exact hds c (List.mem_of_mem_take hc)
  · split_ifs at hc
    · exact absurd hc List.not_mem_nil
    · rcases List.mem_cons.1 hc with rfl | hc
      · decide
      · exact hds c (List.mem_of_mem_drop hc)
  · decide
  · split_ifs <;> decide
  · exact isNumChar_of_mem_toDigits hc

theorem isNumChar_formatDigits {ds : List Char} {point : Int}
    (hds : ∀ c ∈ ds, JsonText.isNumChar c = true) :
    ∀ c ∈ formatDigits ds point, JsonText.isNumChar c = true := by
  rw [formatDigits]
  split_ifs
  · exact isNumChar_exponential hds
  · exact isNumChar_positional hds

theorem formatDigits_ne_nil {ds : List Char} (hds : ds ≠ []) (point : Int) :
    formatDigits ds point ≠ [] := by
  rw [formatDigits, exponential, positional]
  split_ifs <;> simp [hds]

theorem Float64.isNumChar_text (f : Float64) : ∀ c ∈ f.text, JsonText.isNumChar c = true := by
  intro c hc
  rcases List.mem_append.1 hc with hc | hc
  · split_ifs at hc
    · rw [List.mem_singleton.1 hc]
      decide
    · exact absurd hc List.not_mem_nil
  · split_ifs at hc
    · rw [List.mem_singleton.1 hc]
      decide
    · exact isNumChar_formatDigits (fun c hc => isNumChar_of_mem_toDigits hc) c hc

theorem Float64.text_ne_nil (f : Float64) : f.text ≠ [] := by
  intro h
  have hbody := (List.append_eq_nil_iff.1 h).2
  split_ifs at hbody
  exact formatDigits_ne_nil Nat.toDigits_ne_nil _ hbody

def Float64.numeral (f : Float64) : Numeral := ⟨f.text, f.text_ne_nil, f.isNumChar_text⟩

def intNumeral (n : Int) : Numeral where
  text := intText n
  nonempty := intText_ne_nil n
  numeric := fun c hc => by
    have hnum := isNumChar_of_mem_intText hc
    simp only [Fasten.isNumChar, Bool.or_eq_true] at hnum
    simp only [JsonText.isNumChar, Bool.or_eq_true, hnum, true_or]

/-- A number of a Go `any`: `UseNumber` keeps the token, and plain decoding makes a float64. -/
inductive Num where
  | number (n : Number)
  | float64 (f : Float64)
  | int64 (n : Int)

instance : Nonempty Num := ⟨.int64 0⟩

/-- The number as it is encoded. -/
def Num.numeral : Num → Numeral
  | .number n => n.toNumeral
  | .float64 f => f.numeral
  | .int64 n => intNumeral n

/-- The float64 of a numeral; `none` when it is no JSON number or out of range. -/
def float64Of (t : Numeral) : Option Float64 := (parseNumber t.text).bind Decimal.toFloat64

end Fasten.Go
