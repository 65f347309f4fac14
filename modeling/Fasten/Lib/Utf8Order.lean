import Mathlib.Data.List.Lex
import Mathlib.Data.String.Basic
import Mathlib.Tactic

set_option autoImplicit false

/-! # The order of UTF-8 texts

Sorting strings by their bytes is sorting them by their characters. -/

namespace Utf8Order

/-- The bytes of a text. -/
def bytes (l : List Char) : List UInt8 := l.flatMap String.utf8EncodeChar

theorem ofNat_lt_ofNat {m n : Nat} (h : m < n) (hn : n < 256) : UInt8.ofNat m < UInt8.ofNat n := by
  rw [UInt8.lt_iff_toNat_lt, UInt8.toNat_ofNat', UInt8.toNat_ofNat']
  omega

/-- The first of two numbers that differ decides. -/
theorem cons_lt_cons {m n : Nat} {r s : List UInt8} (hle : m ≤ n) (hn : n < 256)
    (h : m = n → r < s) : UInt8.ofNat m :: r < UInt8.ofNat n :: s := by
  rcases Nat.lt_or_eq_of_le hle with hlt | rfl
  · exact List.cons_lt_cons_iff.2 (Or.inl (ofNat_lt_ofNat hlt hn))
  · exact List.cons_lt_cons_iff.2 (Or.inr ⟨rfl, h rfl⟩)

/-- The bytes of a lower character come first, whatever follows. -/
theorem utf8EncodeChar_lt {c d : Char} (h : c < d) (r s : List UInt8) :
    String.utf8EncodeChar c ++ r < String.utf8EncodeChar d ++ s := by
  have hlt : c.val.toNat < d.val.toNat := h
  have hmax : d.val.toNat < 0x110000 := by
    have hvalid : d.val.toNat < 0xd800 ∨ 0xdfff < d.val.toNat ∧ d.val.toNat < 0x110000 := d.valid
    omega
  unfold String.utf8EncodeChar
  generalize c.val.toNat = m at hlt ⊢
  generalize d.val.toNat = n at hlt hmax ⊢
  dsimp only
  -- a shorter code has a lower first byte; for codes of one length the first byte that differs
  split_ifs <;> try omega
  all_goals
    simp only [List.cons_append, List.nil_append]
    refine cons_lt_cons (by omega) (by omega) fun h₁ => ?_
    first
    | omega
    | refine cons_lt_cons (by omega) (by omega) fun h₂ => ?_
      first
      | omega
      | refine cons_lt_cons (by omega) (by omega) fun h₃ => ?_
        first
        | omega
        | exact cons_lt_cons (by omega) (by omega) fun h₄ => (by omega)

theorem utf8EncodeChar_ne_nil (c : Char) : String.utf8EncodeChar c ≠ [] := by
  unfold String.utf8EncodeChar
  dsimp only
  split_ifs <;> simp

theorem bytes_lt_bytes {l m : List Char} (h : l < m) : bytes l < bytes m := by
  induction l generalizing m with
  | nil =>
    cases m with
    | nil => exact absurd h (lt_irrefl _)
    | cons d m =>
      have hne : bytes (d :: m) ≠ [] := by
        rw [bytes, List.flatMap_cons]
        exact List.append_ne_nil_of_left_ne_nil (utf8EncodeChar_ne_nil d) _
      cases hb : bytes (d :: m) with
      | nil => exact absurd hb hne
      | cons b rest => exact List.nil_lt_cons b rest
  | cons c l ih =>
    cases m with
    | nil => exact absurd h (List.not_lt_nil _)
    | cons d m =>
      rw [bytes, bytes, List.flatMap_cons, List.flatMap_cons]
      rcases List.cons_lt_cons_iff.1 h with hcd | ⟨rfl, hlm⟩
      · exact utf8EncodeChar_lt hcd _ _
      · exact List.append_left_lt (ih hlm)

/-- **Byte order is character order.** -/
theorem bytes_lt_bytes_iff {l m : List Char} : bytes l < bytes m ↔ l < m := by
  refine ⟨fun h => ?_, bytes_lt_bytes⟩
  rcases lt_trichotomy l m with hlt | rfl | hgt
  · exact hlt
  · exact absurd h (List.lt_irrefl _)
  · exact absurd h (List.lt_asymm (bytes_lt_bytes hgt))

end Utf8Order
