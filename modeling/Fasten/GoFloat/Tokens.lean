import Fasten.GoFloat

set_option autoImplicit false

/-! # The tokens of a float64

The digits and the place of the point of a number, read back from the tokens that show them:
positional or with an exponent. -/

namespace Fasten.Go

open JsonText TextCodec

/-! ## Digits -/

def AllDigits (s : List Char) : Prop := ∀ c ∈ s, c.isDigit = true

theorem AllDigits.append {s t : List Char} (hs : AllDigits s) (ht : AllDigits t) :
    AllDigits (s ++ t) :=
  fun c hc => (List.mem_append.1 hc).elim (hs c) (ht c)

theorem allDigits_toDigits (n : Nat) : AllDigits (Nat.toDigits 10 n) :=
  fun _ hc => Nat.isDigit_of_mem_toDigits (by decide) (by decide) hc

theorem allDigits_zeros (k : Nat) : AllDigits (List.replicate k '0') :=
  fun _ hc => (List.mem_replicate.1 hc).2 ▸ rfl

theorem digitsVal_eq_ofDigitChars (s : List Char) : digitsVal s = Nat.ofDigitChars 10 s 0 := by
  unfold digitsVal Nat.ofDigitChars
  simp only [Nat.mul_comm]

@[simp] theorem digitsVal_toDigits (n : Nat) : digitsVal (Nat.toDigits 10 n) = n := by
  rw [digitsVal_eq_ofDigitChars, Nat.ofDigitChars_ten_toDigits]

theorem digitsVal_concat (s : List Char) (c : Char) :
    digitsVal (s ++ [c]) = digitsVal s * 10 + (c.toNat - '0'.toNat) := by
  simp [digitsVal]

theorem digitsVal_append_zeros (s : List Char) (k : Nat) :
    digitsVal (s ++ List.replicate k '0') = digitsVal s * 10 ^ k := by
  induction k with
  | zero => simp
  | succ k ih =>
    rw [List.replicate_succ', ← List.append_assoc, digitsVal_concat, ih, Nat.sub_self,
      Nat.pow_succ]
    ring

theorem digitsVal_zeros_append (k : Nat) (s : List Char) :
    digitsVal (List.replicate k '0' ++ s) = digitsVal s := by
  have hzeros := digitsVal_append_zeros [] k
  rw [List.nil_append] at hzeros
  have hzero : digitsVal (List.replicate k '0') = 0 := by rw [hzeros]; simp [digitsVal]
  unfold digitsVal at hzero ⊢
  rw [List.foldl_append, hzero]

/-! ## The parts of a token -/

def signText (neg : Bool) : List Char := if neg then ['-'] else []

def fractionText (frac : List Char) : List Char := if frac = [] then [] else '.' :: frac

/-- The digits before the point: no zero in front of another digit. -/
structure Whole (s : List Char) : Prop where
  nonempty : s ≠ []
  digits : AllDigits s
  noZero : s.head? = some '0' → s = ['0']

/-- **A token of a sign, digits, a fraction and an exponent stands for the digits it shows.** -/
theorem parseNumber_parts (neg : Bool) {whole frac tail : List Char} (hwhole : Whole whole)
    (hfrac : AllDigits frac) (htail : ∀ c ∈ tail.head?, c = 'e') :
    parseNumber (signText neg ++ (whole ++ (fractionText frac ++ tail)))
      = (parseExponent tail).map (fun e =>
          ⟨neg, digitsVal (whole ++ frac), e - (frac.length : Int)⟩) := by
  have hstop : StopsAt Char.isDigit tail := fun c hc => htail c hc ▸ rfl
  have hpoint : tail.head? ≠ some '.' := fun h => absurd (htail '.' h) (by decide)
  obtain ⟨d, r, rfl⟩ := List.exists_cons_of_ne_nil hwhole.nonempty
  have hd : d ≠ '-' := fun h => absurd (hwhole.digits d List.mem_cons_self) (by rw [h]; decide)
  have hsign : decide ((signText neg ++ (d :: r ++ (fractionText frac ++ tail))).head? = some '-')
      = neg := by
    cases neg with
    | true => rfl
    | false => simp [signText, hd]
  have hbody : (if neg = true then (signText neg ++ (d :: r ++ (fractionText frac ++ tail))).tail
      else signText neg ++ (d :: r ++ (fractionText frac ++ tail)))
      = d :: r ++ (fractionText frac ++ tail) := by
    cases neg <;> rfl
  have hafter : StopsAt Char.isDigit (fractionText frac ++ tail) := by
    unfold fractionText
    split_ifs
    · exact hstop
    · exact StopsAt.cons (by decide) _
  have hdrop : ∀ {a s : List Char}, AllDigits a → StopsAt Char.isDigit s →
      (a ++ s).dropWhile Char.isDigit = s := by
    intro a s ha hs
    have hboth := List.takeWhile_append_dropWhile (p := Char.isDigit) (l := a ++ s)
    rw [takeWhile_append_of_stopsAt ha hs] at hboth
    exact List.append_cancel_left hboth
  have hzero : ¬((d :: r).head? = some '0' ∧ d :: r ≠ ['0']) :=
    fun h => h.2 (hwhole.noZero h.1)
  unfold parseNumber
  simp only [hsign, hbody, takeWhile_append_of_stopsAt hwhole.digits hafter,
    hdrop hwhole.digits hafter]
  by_cases hf : frac = []
  · simp only [fractionText, hf, if_true, List.nil_append, hpoint, decide_false, Bool.false_eq_true,
      if_false, false_and, or_false]
    rw [if_neg (by simpa using hzero)]
  · simp only [fractionText, hf, if_false, List.cons_append, List.head?_cons, decide_true,
      if_true, List.tail_cons, takeWhile_append_of_stopsAt hfrac hstop, hdrop hfrac hstop,
      and_false, or_false]
    rw [if_neg (by simpa using hzero)]

theorem parseExponent_signed (neg : Bool) {ds : List Char} (hne : ds ≠ []) (hds : AllDigits ds) :
    parseExponent ('e' :: (if neg then '-' else '+') :: ds)
      = some (if neg then -(digitsVal ds : Int) else digitsVal ds) := by
  have hall : ds.all Char.isDigit = true := List.all_eq_true.2 hds
  cases neg <;> simp [parseExponent, hne, hall]

/-! ## The tokens of a decimal -/

theorem head?_toDigits_ne_zero {n : Nat} (h : n ≠ 0) : (Nat.toDigits 10 n).head? ≠ some '0' := by
  induction n using Nat.strongRecOn with
  | _ n ih =>
    by_cases hn : n < 10
    · have hdigit : ∀ d < 10, d ≠ 0 → Nat.digitChar d ≠ '0' := by decide
      rw [Nat.toDigits_of_lt_base hn]
      simpa using hdigit n hn h
    · rw [Nat.toDigits_of_base_le (by decide) (not_lt.1 hn),
        List.head?_append_of_ne_nil _ Nat.toDigits_ne_nil]
      exact ih (n / 10) (by omega) (by omega)

theorem whole_toDigits {n : Nat} (h : n ≠ 0) : Whole (Nat.toDigits 10 n) where
  nonempty := Nat.toDigits_ne_nil
  digits := allDigits_toDigits n
  noZero := fun hz => absurd hz (head?_toDigits_ne_zero h)

theorem whole_zero : Whole ['0'] := ⟨by decide, fun c hc => by simp_all, fun _ => rfl⟩

/-- Some of the first digits, or all of them and zeros. -/
theorem Whole.take {s : List Char} (h : Whole s) (hz : s.head? ≠ some '0') {k : Nat} (hk : 0 < k) :
    Whole (s.take k) where
  nonempty := by simp [h.nonempty, hk.ne']
  digits := fun c hc => h.digits c (List.mem_of_mem_take hc)
  noZero := fun hhead => absurd hhead (by rwa [List.head?_take, if_neg hk.ne'])

theorem Whole.append_zeros {s : List Char} (h : Whole s) (hz : s.head? ≠ some '0') (k : Nat) :
    Whole (s ++ List.replicate k '0') where
  nonempty := by simp [h.nonempty]
  digits := h.digits.append (allDigits_zeros k)
  noZero := fun hhead => absurd hhead (by rwa [List.head?_append_of_ne_nil _ h.nonempty])

section Decimal

variable (neg : Bool) {n : Nat} (hn : n ≠ 0) {point : Int}

include hn

/-- A positional token that shows a whole number. -/
theorem parseNumber_positional_whole (h : ((Nat.toDigits 10 n).length : Int) ≤ point)
    {frac : List Char} (hfrac : AllDigits frac) :
    parseNumber (signText neg ++ (positional (Nat.toDigits 10 n) point ++ fractionText frac))
      = some ⟨neg, digitsVal (Nat.toDigits 10 n
          ++ List.replicate (point.toNat - (Nat.toDigits 10 n).length) '0' ++ frac),
          -(frac.length : Int)⟩ := by
  have hlen : 0 < (Nat.toDigits 10 n).length := List.length_pos_iff.2 Nat.toDigits_ne_nil
  have hparts := parseNumber_parts neg
    ((whole_toDigits hn).append_zeros (head?_toDigits_ne_zero hn)
      (point.toNat - (Nat.toDigits 10 n).length)) hfrac (show ∀ c ∈ ([] : List Char).head?, c = 'e'
        from fun c hc => absurd hc (by simp))
  rw [positional, if_neg (by omega), if_pos h, ← List.append_nil (fractionText frac), hparts]
  simp [parseExponent]

/-- A positional token that shows a fraction. -/
theorem parseNumber_positional_fraction (h : point < ((Nat.toDigits 10 n).length : Int)) :
    parseNumber (signText neg ++ positional (Nat.toDigits 10 n) point)
      = some ⟨neg, n, point - ((Nat.toDigits 10 n).length : Int)⟩ := by
  have hnil : ∀ c ∈ ([] : List Char).head?, c = 'e' := fun c hc => absurd hc (by simp)
  rw [positional, if_neg (not_le.2 h)]
  split_ifs with hpoint
  · -- `0.` and zeros before the digits
    have hparts := parseNumber_parts neg whole_zero
      ((allDigits_zeros (-point).toNat).append (allDigits_toDigits n)) hnil
    have hne : List.replicate (-point).toNat '0' ++ Nat.toDigits 10 n ≠ [] := by
      simp [Nat.toDigits_ne_nil]
    rw [fractionText, if_neg hne, List.append_nil] at hparts
    rw [show ('0' :: '.' :: (List.replicate (-point).toNat '0' ++ Nat.toDigits 10 n))
      = ['0'] ++ '.' :: (List.replicate (-point).toNat '0' ++ Nat.toDigits 10 n) from rfl, hparts]
    have hval := digitsVal_zeros_append ((-point).toNat + 1) (Nat.toDigits 10 n)
    rw [List.replicate_succ, List.cons_append, digitsVal_toDigits] at hval
    simp only [parseExponent, Option.map_some, List.singleton_append, hval, List.length_append,
      List.length_replicate]
    congr 2
    push_cast
    omega
  · -- the point stands among the digits
    have hk : 0 < point.toNat := by omega
    have hparts := parseNumber_parts neg
      ((whole_toDigits hn).take (head?_toDigits_ne_zero hn) hk)
      (show AllDigits ((Nat.toDigits 10 n).drop point.toNat) from
        fun c hc => allDigits_toDigits n c (List.mem_of_mem_drop hc)) hnil
    have hne : (Nat.toDigits 10 n).drop point.toNat ≠ [] := by
      rw [ne_eq, List.drop_eq_nil_iff]
      omega
    rw [fractionText, if_neg hne, List.append_nil] at hparts
    rw [hparts, List.take_append_drop, digitsVal_toDigits]
    simp only [parseExponent, Option.map_some, List.length_drop]
    congr 2
    omega

/-- A token with an exponent. -/
theorem parseNumber_exponent {es : List Char} (hne : es ≠ []) (hes : AllDigits es)
    (hval : digitsVal es = (point - 1).natAbs) :
    parseNumber (signText neg ++ ((Nat.toDigits 10 n).take 1
        ++ (if (Nat.toDigits 10 n).length ≤ 1 then [] else '.' :: (Nat.toDigits 10 n).drop 1)
        ++ 'e' :: (if point - 1 < 0 then '-' else '+') :: es))
      = some ⟨neg, n, point - ((Nat.toDigits 10 n).length : Int)⟩ := by
  have hlen : 0 < (Nat.toDigits 10 n).length := List.length_pos_iff.2 Nat.toDigits_ne_nil
  have hparts := parseNumber_parts neg
    ((whole_toDigits hn).take (head?_toDigits_ne_zero hn) Nat.one_pos)
    (show AllDigits ((Nat.toDigits 10 n).drop 1) from
      fun c hc => allDigits_toDigits n c (List.mem_of_mem_drop hc))
    (show ∀ c ∈ ('e' :: (if decide (point - 1 < 0) = true then '-' else '+') :: es).head?, c = 'e'
      from fun c hc => by simpa using hc.symm)
  rw [parseExponent_signed _ hne hes, List.take_append_drop, digitsVal_toDigits] at hparts
  have hfraction : fractionText ((Nat.toDigits 10 n).drop 1)
      = if (Nat.toDigits 10 n).length ≤ 1 then [] else '.' :: (Nat.toDigits 10 n).drop 1 := by
    unfold fractionText
    simp only [List.drop_eq_nil_iff]
  rw [hfraction] at hparts
  simp only [decide_eq_true_eq] at hparts
  rw [List.append_assoc, hparts]
  simp only [Option.map_some, List.length_drop, hval]
  congr 2
  split_ifs <;> omega

end Decimal

/-! ## The digits of a float64 -/

/-- What `strconv` promises of the digits it writes: they parse to the float64, and seventeen are
    enough. -/
structure Float64.Shortest (f : Float64) : Prop where
  back : (Decimal.mk f.neg f.shortest.1 f.shortest.2).toFloat64 = some f
  few : (Nat.toDigits 10 f.shortest.1).length ≤ 17

theorem Float64.Shortest.digits_ne_zero {f : Float64} (h : f.Shortest) (hf : f.mant ≠ 0) :
    f.shortest.1 ≠ 0 := by
  intro hzero
  have hback := h.back
  rw [Decimal.toFloat64, if_pos (Or.inl hzero), Option.some.injEq] at hback
  rw [← hback] at hf
  exact hf rfl

end Fasten.Go
