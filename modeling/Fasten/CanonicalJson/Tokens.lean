import Fasten.CanonicalJson

set_option autoImplicit false

/-! # Tokens of a JSON text

What `json.dumps` writes for a character and for a number. -/

namespace Fasten

open TextCodec

/-! ## Escapes -/

def unshortEscape (e : Char) : Option Char :=
  if e = '"' then some '"'
  else if e = '\\' then some '\\'
  else if e = 'n' then some '\n'
  else if e = 'r' then some '\r'
  else if e = 't' then some '\t'
  else if e = 'b' then some '\x08'
  else if e = 'f' then some '\x0c'
  else none

theorem unshortEscape_of_shortEscape {c e : Char} (h : shortEscape c = some e) :
    e ≠ 'u' ∧ unshortEscape e = some c := by
  unfold shortEscape at h
  split_ifs at h with h1 h2 h3 h4 h5 h6 h7 <;>
    (simp only [Option.some.injEq] at h; subst h; subst c; decide)

theorem digits_sixteen_four (n : Nat) :
    digits 16 4 n = [Nat.digitChar (n / 16 / 16 / 16 % 16), Nat.digitChar (n / 16 / 16 % 16),
      Nat.digitChar (n / 16 % 16), Nat.digitChar (n % 16)] := by
  simp [digits]

/-! ## Number tokens -/

theorem isNumChar_of_isDigit {c : Char} (h : c.isDigit = true) : isNumChar c = true := by
  simp [isNumChar, h]

theorem isDigit_of_mem_toDigits {n : Nat} {c : Char} (h : c ∈ Nat.toDigits 10 n) :
    c.isDigit = true :=
  Nat.isDigit_of_mem_toDigits (by decide) (by decide) h

theorem isNumChar_of_mem_intText {n : Int} {c : Char} (h : c ∈ intText n) : isNumChar c = true := by
  unfold intText at h
  split_ifs at h with hn
  · rcases List.mem_cons.1 h with rfl | h
    · decide
    · exact isNumChar_of_isDigit (isDigit_of_mem_toDigits h)
  · exact isNumChar_of_isDigit (isDigit_of_mem_toDigits h)

/-- An int is written without a point and without an exponent. -/
theorem not_float_of_mem_intText {n : Int} {c : Char} (h : c ∈ intText n) : c ≠ '.' ∧ c ≠ 'e' := by
  have hcase : c = '-' ∨ c.isDigit = true := by
    unfold intText at h
    split_ifs at h with hn
    · rcases List.mem_cons.1 h with rfl | h
      · exact Or.inl rfl
      · exact Or.inr (isDigit_of_mem_toDigits h)
    · exact Or.inr (isDigit_of_mem_toDigits h)
  rcases hcase with rfl | hd
  · decide
  · constructor <;> (rintro rfl; revert hd; decide)

theorem toDigits_inj {m n : Nat} (h : Nat.toDigits 10 m = Nat.toDigits 10 n) : m = n := by
  rw [← Nat.ofDigitChars_ten_toDigits (n := m), h, Nat.ofDigitChars_ten_toDigits]

theorem toDigits_ne_minus {m n : Nat} : '-' :: Nat.toDigits 10 m ≠ Nat.toDigits 10 n := by
  intro h
  have hmem : '-' ∈ Nat.toDigits 10 n := h ▸ List.mem_cons_self ..
  exact absurd (isDigit_of_mem_toDigits hmem) (by decide)

theorem intText_inj {m n : Int} (h : intText m = intText n) : m = n := by
  unfold intText at h
  split_ifs at h with hm hn hn
  · have := toDigits_inj (List.cons.inj h).2
    omega
  · exact absurd h toDigits_ne_minus
  · exact absurd h.symm toDigits_ne_minus
  · have := toDigits_inj h
    omega

theorem intText_ne_nil (n : Int) : intText n ≠ [] := by
  unfold intText
  split_ifs
  · simp
  · exact Nat.toDigits_ne_nil

theorem FloatRepr.text_ne_nil (f : FloatRepr) : f.text ≠ [] := by
  intro h
  rcases f.notInt with hd | he
  · simp [h] at hd
  · simp [h] at he

theorem intText_ne_float (n : Int) (f : FloatRepr) : intText n ≠ f.text := by
  intro h
  rcases f.notInt with hd | he
  · exact (not_float_of_mem_intText (h ▸ hd)).1 rfl
  · exact (not_float_of_mem_intText (h ▸ he)).2 rfl

end Fasten
