import Fasten.PyJson

set_option autoImplicit false

/-! # Go's number tokens in Python

`encoding/json` and CPython show the same digits of a float64, but not always in the same notation:
Go leaves positional notation below `1e-6` and from `1e21` on, Python below `1e-4` and from `1e16`
on, and Python writes an exponent with two digits at least. A whole number of Go is an `int` in
Python. -/

namespace Fasten.Go

open JsonText

/-- The place of the decimal point before the digits of a float64: it is less than `10 ^ point` and
    at least a tenth of that. -/
def Float64.point (f : Float64) : Int := (decimalDigits f.shortest.1 : Int) + f.shortest.2

/-- Python writes the number as Go does: it is not `-0`, and not from `1e-9` up to `1e-4`. -/
def Float64.SameInPython (f : Float64) : Prop :=
  if f.mant = 0 then f.neg = false else ¬(-8 ≤ f.point ∧ f.point ≤ -4)

instance (f : Float64) : Decidable f.SameInPython := by
  unfold Float64.SameInPython
  infer_instance

/-! ## Whole numbers -/

theorem toDigits_append_zeros {n : Nat} (hn : n ≠ 0) (k : Nat) :
    Nat.toDigits 10 n ++ List.replicate k '0' = Nat.toDigits 10 (n * 10 ^ k) := by
  induction k with
  | zero => simp
  | succ k ih =>
    have hpos : 0 < n * 10 ^ k := by positivity
    have hstep := Nat.toDigits_append_toDigits (b := 10) (d := 0) (by decide) hpos (by decide)
    rw [List.replicate_succ', ← List.append_assoc, ih]
    refine hstep.trans (congrArg (Nat.toDigits 10) ?_)
    rw [Nat.pow_succ]
    ring

theorem intText_signed (neg : Bool) {n : Nat} (hn : n ≠ 0) :
    intText (if neg then -(n : Int) else n) = signText neg ++ Nat.toDigits 10 n := by
  cases neg with
  | true =>
    simp [intText, signText, hn]
  | false => simp [intText, signText]

theorem not_floating_of_allDigits {s : List Char} (h : AllDigits s) {c : Char}
    (hc : c = '.' ∨ c = 'e' ∨ c = 'E') : c ∉ s := by
  intro hmem
  rcases hc with rfl | rfl | rfl <;> exact absurd (h _ hmem) (by decide)

/-! ## Notations -/

theorem e_not_mem_positional {ds : List Char} (hds : AllDigits ds) (point : Int) :
    'e' ∉ positional ds point := by
  intro h
  have hdigit : 'e' ∉ ds := not_floating_of_allDigits hds (by simp)
  unfold positional at h
  split_ifs at h
  · simp only [List.mem_cons, List.mem_append, List.mem_replicate] at h
    rcases h with h | h | ⟨-, h⟩ | h
    · exact absurd h (by decide)
    · exact absurd h (by decide)
    · exact absurd h (by decide)
    · exact hdigit h
  · simp only [List.mem_append, List.mem_replicate] at h
    rcases h with h | ⟨-, h⟩
    · exact hdigit h
    · exact absurd h (by decide)
  · simp only [List.mem_append, List.mem_cons] at h
    rcases h with h | h | h
    · exact hdigit (List.mem_of_mem_take h)
    · exact absurd h (by decide)
    · exact hdigit (List.mem_of_mem_drop h)

theorem exponentDigits_eq_toDigits_iff (n : Nat) :
    exponentDigits n = Nat.toDigits 10 n ↔ 10 ≤ n := by
  unfold exponentDigits
  split_ifs with hn
  · rw [Nat.toDigits_of_lt_base hn]
    simp [hn]
  · simp [not_lt.1 hn]

/-- **Where the two notations are the same text**, for digits that Go does not show as a whole
    number. -/
theorem reprDigits_eq_formatDigits_iff {ds : List Char} (hds : AllDigits ds)
    (hfew : ds.length ≤ 17) {point : Int} (hwhole : (ds.length : Int) ≤ point → 21 < point) :
    reprDigits ds point = formatDigits ds point ↔ ¬(-8 ≤ point ∧ point ≤ -4) := by
  unfold reprDigits formatDigits
  by_cases hgo : point ≤ -6 ∨ 21 < point
  · -- both with an exponent, which Python pads
    rw [if_neg (by omega), if_pos hgo, exponential, List.append_cancel_left_eq, List.cons.injEq,
      List.cons.injEq, exponentDigits_eq_toDigits_iff]
    simp only [true_and]
    omega
  · rw [if_neg hgo]
    by_cases hpy : -4 < point ∧ point ≤ 16
    · rw [if_pos hpy, if_neg (by omega)]
      simp only [true_iff]
      omega
    · -- positional in Go only
      rw [if_neg hpy]
      refine iff_of_false (fun heq => e_not_mem_positional hds point (heq ▸ by simp)) ?_
      omega

/-! ## Tokens -/

section Token

variable {f : Float64}

@[simp] theorem Float64.numeral_text : f.numeral.text = f.text := rfl

theorem Float64.text_of_ne_zero (hf : f.mant ≠ 0) :
    f.text = signText f.neg ++ formatDigits (Nat.toDigits 10 f.shortest.1) f.point := by
  simp [Float64.text, hf, signText, Float64.point, decimalDigits]

theorem reprText_of_ne_zero (hf : f.mant ≠ 0) :
    reprText f = signText f.neg ++ reprDigits (Nat.toDigits 10 f.shortest.1) f.point := by
  simp [reprText, hf, Float64.point, decimalDigits]

/-- Python reads a token with a point or an exponent as the float64 it was written for. -/
theorem pyToken_floating (h : f.Shortest)
    (hparse : parseNumber f.text = some ⟨f.neg, f.shortest.1, f.shortest.2⟩)
    (hfloat : '.' ∈ f.text ∨ 'e' ∈ f.text ∨ 'E' ∈ f.text) :
    pyToken f.numeral = some (floatRepr f).numeral := by
  rw [pyToken, Json.ofNumeral, Float64.numeral_text, hparse, Option.bind_some, if_pos hfloat,
    h.back]
  rfl

/-- A token that is a whole number comes back as it was. -/
theorem pyToken_whole (h : f.Shortest) (hf : f.mant ≠ 0)
    (hwhole : ((Nat.toDigits 10 f.shortest.1).length : Int) ≤ f.point) (hpos : f.point ≤ 21) :
    pyToken f.numeral = some f.numeral := by
  have hn := h.digits_ne_zero hf
  have hlen : 0 < (Nat.toDigits 10 f.shortest.1).length := List.length_pos_iff.2 Nat.toDigits_ne_nil
  have hk := toDigits_append_zeros hn (f.point.toNat - (Nat.toDigits 10 f.shortest.1).length)
  generalize hm : f.shortest.1
    * 10 ^ (f.point.toNat - (Nat.toDigits 10 f.shortest.1).length) = m at hk
  have hm0 : m ≠ 0 := by
    rw [← hm]
    positivity
  have htext : f.text = signText f.neg ++ Nat.toDigits 10 m := by
    rw [Float64.text_of_ne_zero hf, formatDigits, if_neg (by omega), positional,
      if_neg (by omega), if_pos hwhole, hk]
  have hparse := parseNumber_positional_whole f.neg hn hwhole
    (show AllDigits [] from List.forall_mem_nil _)
  rw [show fractionText [] = [] from rfl, List.append_nil, positional, if_neg (by omega),
    if_pos hwhole, List.append_nil, hk, digitsVal_toDigits, ← htext] at hparse
  have hint : ¬('.' ∈ f.text ∨ 'e' ∈ f.text ∨ 'E' ∈ f.text) := by
    have hnot : ∀ c, c = '.' ∨ c = 'e' ∨ c = 'E' → c ∉ f.text := by
      intro c hc hmem
      rw [htext] at hmem
      rcases List.mem_append.1 hmem with hmem | hmem
      · unfold signText at hmem
        split_ifs at hmem
        · rw [List.mem_singleton.1 hmem] at hc
          exact absurd hc (by decide)
        · exact absurd hmem List.not_mem_nil
      · exact not_floating_of_allDigits (allDigits_toDigits m) hc hmem
    rintro (hc | hc | hc)
    · exact hnot '.' (by simp) hc
    · exact hnot 'e' (by simp) hc
    · exact hnot 'E' (by simp) hc
  rw [pyToken, Json.ofNumeral, Float64.numeral_text, hparse, Option.bind_some, if_neg hint,
    Option.bind_some]
  refine congrArg some (Numeral.ext_text ?_)
  exact (intText_signed f.neg hm0).trans htext.symm

theorem parseNumber_text (h : f.Shortest) (hf : f.mant ≠ 0)
    (hwhole : ((Nat.toDigits 10 f.shortest.1).length : Int) ≤ f.point → 21 < f.point) :
    parseNumber f.text = some ⟨f.neg, f.shortest.1, f.shortest.2⟩ := by
  have hn := h.digits_ne_zero hf
  have hexp : f.point - ((Nat.toDigits 10 f.shortest.1).length : Int) = f.shortest.2 := by
    rw [Float64.point, decimalDigits]
    omega
  rw [Float64.text_of_ne_zero hf, formatDigits]
  split_ifs with hgo
  · rw [exponential, parseNumber_exponent f.neg hn Nat.toDigits_ne_nil (allDigits_toDigits _)
      (digitsVal_toDigits _), hexp]
  · rw [parseNumber_positional_fraction f.neg hn (by omega), hexp]

theorem floating_text (hf : f.mant ≠ 0)
    (hwhole : ((Nat.toDigits 10 f.shortest.1).length : Int) ≤ f.point → 21 < f.point) :
    '.' ∈ f.text ∨ 'e' ∈ f.text ∨ 'E' ∈ f.text := by
  rw [Float64.text_of_ne_zero hf, formatDigits]
  split_ifs with hgo
  · exact Or.inr (Or.inl (by simp [exponential]))
  · refine Or.inl ?_
    rw [positional, if_neg (show ¬((Nat.toDigits 10 f.shortest.1).length : Int) ≤ f.point by omega)]
    split_ifs <;> simp

theorem pyToken_zero (hf : f.mant = 0) :
    pyToken f.numeral = some (Json.intNumeral 0) := by
  have htext : f.numeral.text = signText f.neg ++ ['0'] := by
    show f.text = _
    simp [Float64.text, hf, signText]
  unfold pyToken Json.ofNumeral
  rw [htext]
  cases f.neg <;> rfl

/-- **Python reads every number Go writes, and writes it as Go did exactly when the number is the
    same in Python.** -/
theorem exists_pyToken (h : f.Shortest) :
    ∃ t, pyToken f.numeral = some t ∧ (t = f.numeral ↔ f.SameInPython) := by
  have htexts : ∀ t : Numeral, t = f.numeral ↔ t.text = f.text :=
    fun t => ⟨fun heq => heq ▸ rfl, fun heq => Numeral.ext_text heq⟩
  unfold Float64.SameInPython
  by_cases hf : f.mant = 0
  · refine ⟨_, pyToken_zero hf, ?_⟩
    have htext : f.text = signText f.neg ++ ['0'] := by simp [Float64.text, hf, signText]
    rw [if_pos hf, htexts, htext, show (Json.intNumeral 0).text = ['0'] from rfl]
    cases f.neg <;> simp [signText]
  · rw [if_neg hf]
    have hlen : 0 < (Nat.toDigits 10 f.shortest.1).length :=
      List.length_pos_iff.2 Nat.toDigits_ne_nil
    by_cases hwhole : ((Nat.toDigits 10 f.shortest.1).length : Int) ≤ f.point ∧ f.point ≤ 21
    · refine ⟨_, pyToken_whole h hf hwhole.1 hwhole.2, iff_of_true rfl ?_⟩
      omega
    · have hnot : ((Nat.toDigits 10 f.shortest.1).length : Int) ≤ f.point → 21 < f.point :=
        fun hle => not_le.1 (fun hpos => hwhole ⟨hle, hpos⟩)
      refine ⟨_, pyToken_floating h (parseNumber_text h hf hnot) (floating_text hf hnot), ?_⟩
      rw [htexts, show (floatRepr f).numeral.text = reprText f from rfl, reprText_of_ne_zero hf,
        Float64.text_of_ne_zero hf, List.append_cancel_left_eq]
      exact reprDigits_eq_formatDigits_iff (allDigits_toDigits _) h.few hnot

end Token

end Fasten.Go
