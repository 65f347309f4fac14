import Mathlib.Data.List.Basic
import Mathlib.Tactic

set_option autoImplicit false

/-! # Reading encoded texts back

Facts about encoders into `List Char` that decide what an encoded text says about its source: a
token of one character class can be cut off at the first character outside the class, and
fixed-width digit blocks are injective and order preserving. -/

namespace TextCodec

/-! ## Tokens cut off by a character class -/

/-- `r` is empty or starts with a character outside the class `p`. -/
def StopsAt (p : Char → Bool) (r : List Char) : Prop :=
  ∀ c ∈ r.head?, p c = false

theorem StopsAt.cons {p : Char → Bool} {c : Char} (h : p c = false) (r : List Char) :
    StopsAt p (c :: r) := by
  intro d hd
  simp only [List.head?_cons, Option.mem_def, Option.some.injEq] at hd
  exact hd ▸ h

theorem takeWhile_append_of_stopsAt {p : Char → Bool} {a r : List Char}
    (ha : ∀ c ∈ a, p c = true) (hr : StopsAt p r) : (a ++ r).takeWhile p = a := by
  rw [List.takeWhile_append_of_pos ha]
  cases r with
  | nil => simp
  | cons c r => simp [hr c (by simp)]

/-- Two tokens of one class, each followed by something outside it, are equal when the texts are. -/
theorem append_inj_of_stopsAt {p : Char → Bool} {a b r s : List Char}
    (ha : ∀ c ∈ a, p c = true) (hb : ∀ c ∈ b, p c = true) (hr : StopsAt p r) (hs : StopsAt p s)
    (h : a ++ r = b ++ s) : a = b ∧ r = s := by
  have hab : a = b := by
    rw [← takeWhile_append_of_stopsAt ha hr, h, takeWhile_append_of_stopsAt hb hs]
  subst hab
  exact ⟨rfl, List.append_cancel_left h⟩

/-! ## Fixed-width digits -/

/-- The `w` lowest base-`b` digits of `n`, most significant first. -/
def digits (b : Nat) : Nat → Nat → List Char
  | 0, _ => []
  | w + 1, n => digits b w (n / b) ++ [Nat.digitChar (n % b)]

@[simp] theorem length_digits (b w n : Nat) : (digits b w n).length = w := by
  induction w generalizing n with
  | zero => rfl
  | succ w ih => simp [digits, ih]

/-- A fact about every digit holds of every character of a digit block. -/
theorem exists_digit_of_mem_digits {b : Nat} (hb : 0 < b) {w n : Nat} {c : Char}
    (h : c ∈ digits b w n) : ∃ d < b, c = Nat.digitChar d := by
  induction w generalizing n with
  | zero => simp [digits] at h
  | succ w ih =>
    simp only [digits, List.mem_append, List.mem_singleton] at h
    rcases h with h | h
    · exact ih h
    · exact ⟨n % b, Nat.mod_lt n hb, h⟩

theorem digitChar_inj {i j : Nat} (hi : i < 16) (hj : j < 16)
    (h : Nat.digitChar i = Nat.digitChar j) : i = j := by
  have hall : ∀ i < 16, ∀ j < 16, Nat.digitChar i = Nat.digitChar j → i = j := by decide
  exact hall i hi j hj h

theorem digits_inj {b : Nat} (hb : 0 < b) (hb16 : b ≤ 16) {w : Nat} :
    ∀ {m n : Nat}, m < b ^ w → n < b ^ w → digits b w m = digits b w n → m = n := by
  induction w with
  | zero => intro m n hm hn _; simp at hm hn; omega
  | succ w ih =>
    intro m n hm hn h
    simp only [digits] at h
    obtain ⟨hhi, hlo⟩ := List.append_inj' h rfl
    have hdiv : m / b = n / b :=
      ih (Nat.div_lt_of_lt_mul (by rwa [pow_succ, Nat.mul_comm] at hm))
        (Nat.div_lt_of_lt_mul (by rwa [pow_succ, Nat.mul_comm] at hn)) hhi
    have hmod : m % b = n % b := by
      refine digitChar_inj ?_ ?_ (by simpa using hlo)
      · exact lt_of_lt_of_le (Nat.mod_lt m hb) hb16
      · exact lt_of_lt_of_le (Nat.mod_lt n hb) hb16
    rw [← Nat.div_add_mod m b, ← Nat.div_add_mod n b, hdiv, hmod]

theorem digitChar_lt_digitChar {i j : Nat} (hj : j < 16) (h : i < j) :
    Nat.digitChar i < Nat.digitChar j := by
  have hall : ∀ j < 16, ∀ i < j, Nat.digitChar i < Nat.digitChar j := by decide
  exact hall j hj i h

/-- Two texts of equal length whose order is decided before what follows them. -/
theorem append_lt_append_of_lt {a b : List Char} (hlen : a.length = b.length) (h : a < b)
    (r s : List Char) : a ++ r < b ++ s := by
  induction a generalizing b with
  | nil =>
    cases b with
    | nil => exact absurd h (List.lt_irrefl _)
    | cons d b => simp at hlen
  | cons c a ih =>
    cases b with
    | nil => simp at hlen
    | cons d b =>
      simp only [List.length_cons, Nat.add_right_cancel_iff] at hlen
      rcases List.cons_lt_cons_iff.1 h with hcd | ⟨rfl, hab⟩
      · exact List.cons_lt_cons_iff.2 (Or.inl hcd)
      · exact List.cons_lt_cons_iff.2 (Or.inr ⟨rfl, ih hlen hab⟩)

theorem append_lt_append_left {r s : List Char} (a : List Char) (h : r < s) : a ++ r < a ++ s := by
  induction a with
  | nil => exact h
  | cons c a ih => exact List.cons_lt_cons_iff.2 (Or.inr ⟨rfl, ih⟩)

theorem digits_lt_digits {b : Nat} (hb : 0 < b) (hb16 : b ≤ 16) {w : Nat} :
    ∀ {m n : Nat}, n < b ^ w → m < n → digits b w m < digits b w n := by
  induction w with
  | zero => intro m n hn hmn; simp at hn; omega
  | succ w ih =>
    intro m n hn hmn
    simp only [digits]
    have hn' : n / b < b ^ w := Nat.div_lt_of_lt_mul (by rwa [pow_succ, Nat.mul_comm] at hn)
    rcases Nat.lt_or_ge (m / b) (n / b) with hlt | hge
    · exact append_lt_append_of_lt (by simp) (ih hn' hlt) _ _
    · have heq : m / b = n / b := le_antisymm (Nat.div_le_div_right hmn.le) hge
      have hmod : m % b < n % b := by
        have h1 := Nat.div_add_mod m b
        have h2 := Nat.div_add_mod n b
        rw [heq] at h1
        omega
      rw [heq]
      refine append_lt_append_left _ (List.cons_lt_cons_iff.2 (Or.inl ?_))
      exact digitChar_lt_digitChar (lt_of_lt_of_le (Nat.mod_lt n hb) hb16) hmod

/-! ## Reading fixed-width decimals -/

/-- The value of an ASCII digit. -/
def digitVal (c : Char) : Option Nat :=
  if '0' ≤ c ∧ c ≤ '9' then some (c.toNat - '0'.toNat) else none

theorem digitVal_digitChar : ∀ d < 10, digitVal (Nat.digitChar d) = some d := by decide

def natOfDigits (s : List Char) : Option Nat :=
  s.foldlM (fun n c => (digitVal c).map (fun d => n * 10 + d)) 0

theorem natOfDigits_digits {w n : Nat} (h : n < 10 ^ w) : natOfDigits (digits 10 w n) = some n := by
  induction w generalizing n with
  | zero =>
    obtain rfl : n = 0 := by simpa using h
    rfl
  | succ w ih =>
    have hhigh : n / 10 < 10 ^ w := by
      rw [pow_succ] at h
      omega
    have hrest := ih hhigh
    rw [natOfDigits] at hrest
    rw [natOfDigits, digits, List.foldlM_append, hrest]
    simp only [List.foldlM_cons, List.foldlM_nil, digitVal_digitChar _ (Nat.mod_lt n (by decide)),
      Option.map_some, Option.bind_eq_bind, Option.bind_some, Option.pure_def, Option.some.injEq]
    omega

/-- The number in the next `w` characters, and what follows. -/
def readDigits (w : Nat) (s : List Char) : Option (Nat × List Char) :=
  if s.length < w then none else (natOfDigits (s.take w)).map (fun n => (n, s.drop w))

theorem readDigits_append {w n : Nat} (h : n < 10 ^ w) (r : List Char) :
    readDigits w (digits 10 w n ++ r) = some (n, r) := by
  simp [readDigits, natOfDigits_digits h]

/-- The decimals of a text, each of a fixed width and followed by its separator, and what is left. -/
def readFields : List (Nat × Char) → List Char → Option (List Nat × List Char)
  | [], s => some ([], s)
  | (w, sep) :: layout, s =>
    match readDigits w s with
    | some (n, c :: r) =>
      if c = sep then (readFields layout r).map (fun read => (n :: read.1, read.2)) else none
    | _ => none

theorem readFields_cons {w n : Nat} (h : n < 10 ^ w) (sep : Char) (layout : List (Nat × Char))
    (r : List Char) :
    readFields ((w, sep) :: layout) (digits 10 w n ++ sep :: r)
      = (readFields layout r).map (fun read => (n :: read.1, read.2)) := by
  rw [readFields, readDigits_append h]
  exact if_pos rfl

end TextCodec
