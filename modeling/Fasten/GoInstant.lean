import Fasten.GoTime

set_option autoImplicit false

/-! # Go times of any year

A row's timestamps, as they decode from the wire: any RFC 3339 text decodes, and a time near the
first or the last of its four-digit years may be of another year in UTC. `canonicalTS` writes such a
year with its sign or with more digits, and `parseCanonicalTS` does not read that back. -/

namespace Fasten.Go

open TextCodec

/-- The days of a month; the calendar repeats every 400 years. -/
def daysIn (year : Int) (month : Nat) : Nat := daysInMonth (year % 400).toNat month

/-- A `time.Time` in UTC. -/
structure Instant where
  year : Int
  month : Nat
  day : Nat
  hour : Nat
  minute : Nat
  second : Nat
  nanosecond : Nat
  monthRange : 1 ≤ month ∧ month ≤ 12
  dayRange : 1 ≤ day ∧ day ≤ daysIn year month
  hourRange : hour < 24
  minuteRange : minute < 60
  secondRange : second < 60
  nanosecondRange : nanosecond < 1000000000

namespace Instant

variable (t : Instant)

def microsecond : Nat := t.nanosecond / 1000

/-- `Truncate(time.Microsecond)`. -/
def truncate : Instant :=
  { t with
    nanosecond := t.microsecond * 1000
    nanosecondRange := lt_of_le_of_lt (Nat.div_mul_le_self _ _) t.nanosecondRange }

theorem microsecond_lt : t.microsecond < 10 ^ 6 := by
  have hrange := t.nanosecondRange
  rw [microsecond]
  omega

theorem day_lt : t.day < 10 ^ 2 := by
  have hday := t.dayRange.2
  have hmax : daysIn t.year t.month ≤ 31 := by
    unfold daysIn daysInMonth
    split_ifs <;> omega
  omega

/-! ## The texts -/

end Instant

/-- `appendInt(year, 4)` without the sign. -/
def padded (n : Nat) : List Char := digits 10 (max 4 (Nat.log 10 n + 1)) n

def yearText (year : Int) : List Char :=
  if year < 0 then '-' :: padded year.natAbs else padded year.natAbs

/-- `-01-02T15:04:05`. -/
def clockText (t : Instant) : List Char :=
  '-' :: (digits 10 2 t.month ++ '-' :: (digits 10 2 t.day ++ 'T' :: (digits 10 2 t.hour
    ++ ':' :: (digits 10 2 t.minute ++ ':' :: digits 10 2 t.second))))

def Instant.canonicalTSText (t : Instant) : List Char :=
  yearText t.year ++ (clockText t ++ '.' :: (digits 10 6 t.microsecond ++ ['Z']))

/-- `canonicalTS`. -/
def Instant.canonicalTS (t : Instant) : String := String.ofList t.canonicalTSText

def Instant.pyISOFormatText (t : Instant) : List Char :=
  yearText t.year ++ (clockText t
    ++ (if t.microsecond = 0 then [] else '.' :: digits 10 6 t.microsecond)) ++ "+00:00".toList

/-- `pyISOFormat`. -/
def Instant.pyISOFormat (t : Instant) : String := String.ofList t.pyISOFormatText

def Instant.ofFields (year : Int) (month day hour minute second microsecond : Nat) :
    Option Instant :=
  if h : (1 ≤ month ∧ month ≤ 12) ∧ (1 ≤ day ∧ day ≤ daysIn year month) ∧ hour < 24
      ∧ minute < 60 ∧ second < 60 ∧ microsecond < 1000000 then
    some ⟨year, month, day, hour, minute, second, microsecond * 1000, h.1, h.2.1, h.2.2.1,
      h.2.2.2.1, h.2.2.2.2.1, by have := h.2.2.2.2.2; omega⟩
  else none

/-- `parseCanonicalTS`; `none` is the error for a text that is not in the layout. -/
def Instant.parseCanonicalTS (s : String) : Option Instant :=
  match readFields canonicalLayout (layoutText s.toList) with
  | some ([year, month, day, hour, minute, second, microsecond], []) =>
    Instant.ofFields year month day hour minute second microsecond
  | _ => none

/-! ## A text determines the time to the microsecond -/

theorem padded_inj {m n : Nat} (h : padded m = padded n) : m = n := by
  have hlen : max 4 (Nat.log 10 m + 1) = max 4 (Nat.log 10 n + 1) := by
    simpa [padded] using congrArg List.length h
  have hlt : ∀ k, k < 10 ^ max 4 (Nat.log 10 k + 1) := fun k =>
    lt_of_lt_of_le (Nat.lt_pow_succ_log_self (by decide) k)
      (Nat.pow_le_pow_right (by decide) (le_max_right _ _))
  rw [padded, padded, hlen] at h
  exact digits_inj (by decide) (by decide) (hlen ▸ hlt m) (hlt n) h

theorem exists_padded (n : Nat) : ∃ d < 10, ∃ r, padded n = Nat.digitChar d :: r := by
  have hne : padded n ≠ [] := by
    intro h
    have hlen := congrArg List.length h
    simp [padded] at hlen
  obtain ⟨c, r, hcr⟩ := List.exists_cons_of_ne_nil hne
  have hc : c ∈ digits 10 (max 4 (Nat.log 10 n + 1)) n := by
    rw [padded] at hcr
    rw [hcr]
    exact List.mem_cons_self
  obtain ⟨d, hd, rfl⟩ := exists_digit_of_mem_digits (by decide) hc
  exact ⟨d, hd, r, hcr⟩

theorem padded_ne_minus (m n : Nat) : '-' :: padded m ≠ padded n := by
  obtain ⟨d, hd, r, hr⟩ := exists_padded n
  rw [hr]
  intro h
  have hdigits : ∀ d < 10, '-' ≠ Nat.digitChar d := by decide
  exact hdigits d hd (List.cons.inj h).1

theorem yearText_inj {a b : Int} (h : yearText a = yearText b) : a = b := by
  unfold yearText at h
  split_ifs at h with ha hb hb
  · have habs := padded_inj (List.cons.inj h).2
    omega
  · exact absurd h (padded_ne_minus _ _)
  · exact absurd h.symm (padded_ne_minus _ _)
  · have habs := padded_inj h
    omega

@[simp] theorem length_clockText (t : Instant) : (clockText t).length = 15 := by
  simp [clockText]

variable {a b : Instant}

theorem clockText_inj (h : clockText a = clockText b) :
    a.month = b.month ∧ a.day = b.day ∧ a.hour = b.hour ∧ a.minute = b.minute
      ∧ a.second = b.second := by
  have hblock : ∀ {m n : Nat}, m < 10 ^ 2 → n < 10 ^ 2 → digits 10 2 m = digits 10 2 n → m = n :=
    fun hm hn => digits_inj (by decide) (by decide) hm hn
  obtain ⟨hmo, h⟩ := List.append_inj (List.cons.inj h).2 (by simp)
  obtain ⟨hd, h⟩ := List.append_inj (List.cons.inj h).2 (by simp)
  obtain ⟨hh, h⟩ := List.append_inj (List.cons.inj h).2 (by simp)
  obtain ⟨hmi, h⟩ := List.append_inj (List.cons.inj h).2 (by simp)
  have hs := (List.cons.inj h).2
  have hma := a.monthRange
  have hmb := b.monthRange
  have hha := a.hourRange
  have hhb := b.hourRange
  have hmia := a.minuteRange
  have hmib := b.minuteRange
  have hsa := a.secondRange
  have hsb := b.secondRange
  exact ⟨hblock (by omega) (by omega) hmo, hblock a.day_lt b.day_lt hd,
    hblock (by omega) (by omega) hh, hblock (by omega) (by omega) hmi,
    hblock (by omega) (by omega) hs⟩

theorem Instant.truncate_eq (hyear : yearText a.year = yearText b.year)
    (hclock : clockText a = clockText b) (hmicro : a.microsecond = b.microsecond) :
    a.truncate = b.truncate := by
  have hy := yearText_inj hyear
  obtain ⟨hmo, hd, hh, hmi, hs⟩ := clockText_inj hclock
  simp only [Instant.truncate, Instant.mk.injEq]
  exact ⟨hy, hmo, hd, hh, hmi, hs, by rw [hmicro]⟩

theorem Instant.canonicalTS_inj (h : a.canonicalTS = b.canonicalTS) : a.truncate = b.truncate := by
  have h := String.ofList_injective h
  obtain ⟨hyear, h⟩ := List.append_inj' h (by simp)
  obtain ⟨hclock, h⟩ := List.append_inj h (by simp)
  obtain ⟨hmicro, -⟩ := List.append_inj (List.cons.inj h).2 (by simp)
  exact Instant.truncate_eq hyear hclock
    (digits_inj (by decide) (by decide) a.microsecond_lt b.microsecond_lt hmicro)

/-- There is no point before the fraction. -/
theorem point_not_mem (t : Instant) : '.' ∉ yearText t.year ++ clockText t := by
  have hdigits : ∀ {w n : Nat}, '.' ∉ digits 10 w n := by
    intro w n h
    have hne : ∀ d < 10, '.' ≠ Nat.digitChar d := by decide
    obtain ⟨d, hd, hpoint⟩ := exists_digit_of_mem_digits (by decide) h
    exact hne d hd hpoint
  have hyear : '.' ∉ yearText t.year := by
    unfold yearText padded
    split_ifs
    · simp [hdigits]
    · exact hdigits
  simp [hyear, clockText, hdigits]

theorem Instant.pyISOFormat_inj (h : a.pyISOFormat = b.pyISOFormat) : a.truncate = b.truncate := by
  have h := String.ofList_injective h
  have h := List.append_cancel_right h
  rw [← List.append_assoc, ← List.append_assoc] at h
  -- the fraction is there or not, on both sides alike
  by_cases ha : a.microsecond = 0
  · by_cases hb : b.microsecond = 0
    · rw [if_pos ha, if_pos hb, List.append_nil, List.append_nil] at h
      obtain ⟨hyear, hclock⟩ := List.append_inj' h (by simp)
      exact Instant.truncate_eq hyear hclock (ha.trans hb.symm)
    · rw [if_pos ha, if_neg hb, List.append_nil] at h
      refine absurd ?_ (point_not_mem a)
      rw [h]
      simp
  · by_cases hb : b.microsecond = 0
    · rw [if_neg ha, if_pos hb, List.append_nil] at h
      refine absurd ?_ (point_not_mem b)
      rw [← h]
      simp
    · rw [if_neg ha, if_neg hb] at h
      obtain ⟨h, hfraction⟩ := List.append_inj' h (by simp)
      obtain ⟨hyear, hclock⟩ := List.append_inj' h (by simp)
      exact Instant.truncate_eq hyear hclock (digits_inj (by decide) (by decide) a.microsecond_lt
        b.microsecond_lt (List.cons.inj hfraction).2)

/-- One spelling ends in the offset, the other in `Z`. -/
theorem Instant.pyISOFormat_ne_canonicalTS (a b : Instant) : a.pyISOFormat ≠ b.canonicalTS := by
  intro h
  have h := String.ofList_injective h
  have hlast : a.pyISOFormatText.getLast? = some '0' :=
    List.getLast?_append_of_ne_nil _ (by decide)
  rw [h, Instant.canonicalTSText, ← List.append_assoc, ← List.cons_append, ← List.append_assoc,
    List.getLast?_concat] at hlast
  exact absurd hlast (by decide)

theorem Instant.microsecond_truncate (t : Instant) : t.truncate.microsecond = t.microsecond :=
  Nat.mul_div_cancel _ (by decide)

@[simp] theorem Instant.canonicalTS_truncate (t : Instant) :
    t.truncate.canonicalTS = t.canonicalTS := by
  simp only [Instant.canonicalTS, Instant.canonicalTSText, Instant.microsecond_truncate]
  rfl

@[simp] theorem Instant.pyISOFormat_truncate (t : Instant) :
    t.truncate.pyISOFormat = t.pyISOFormat := by
  simp only [Instant.pyISOFormat, Instant.pyISOFormatText, Instant.microsecond_truncate]
  rfl

theorem Instant.canonicalTS_congr (h : a.truncate = b.truncate) :
    a.canonicalTS = b.canonicalTS := by
  rw [← a.canonicalTS_truncate, h, b.canonicalTS_truncate]

theorem Instant.pyISOFormat_congr (h : a.truncate = b.truncate) :
    a.pyISOFormat = b.pyISOFormat := by
  rw [← a.pyISOFormat_truncate, h, b.pyISOFormat_truncate]

/-! ## Reading a text back -/

theorem padded_of_lt {n : Nat} (h : n < 10000) : padded n = digits 10 4 n := by
  have hlog : Nat.log 10 n + 1 ≤ 4 := by
    by_cases hn : n = 0
    · simp [hn]
    · exact (Nat.log_lt_iff_lt_pow (by decide) hn).2 (by omega)
  rw [padded, max_eq_left hlog]

theorem Instant.canonicalTSText_of_year {t : Instant} {y : Nat} (hyear : t.year = y)
    (hy : y < 10000) :
    t.canonicalTSText = digits 10 4 y ++ (clockText t ++ '.' :: (digits 10 6 t.microsecond
      ++ ['Z'])) := by
  rw [Instant.canonicalTSText, hyear, yearText, if_neg (by omega), Int.natAbs_natCast,
    padded_of_lt hy]

theorem layoutText_eq_self {s : List Char} (hhour : s[12]? ≠ some ':') (hpoint : s[19]? ≠ some ',') :
    layoutText s = s := by
  simp [layoutText, hhour, hpoint]

theorem Instant.layoutText_canonicalTSText {t : Instant} {y : Nat} (hyear : t.year = y)
    (hy : y < 10000) : layoutText t.canonicalTSText = t.canonicalTSText := by
  rw [Instant.canonicalTSText_of_year hyear hy]
  refine layoutText_eq_self ?_ ?_
  · have hget : (digits 10 4 y ++ (clockText t ++ '.' :: (digits 10 6 t.microsecond
        ++ ['Z'])))[12]? = (digits 10 2 t.hour)[1]? := by
      simp only [clockText, List.append_assoc, List.cons_append]
      simp
    rw [hget]
    intro h
    have hne : ∀ d < 10, ':' ≠ Nat.digitChar d := by decide
    obtain ⟨d, hd, hcolon⟩ := exists_digit_of_mem_digits (by decide) (List.mem_of_getElem? h)
    exact hne d hd hcolon
  · rw [← List.append_assoc, List.getElem?_append_right (by simp)]
    simp

/-- **A year of four digits reads back**, rounded down. -/
theorem Instant.parseCanonicalTS_canonicalTS {t : Instant} (hyear : 0 ≤ t.year ∧ t.year < 10000) :
    Instant.parseCanonicalTS t.canonicalTS = some t.truncate := by
  obtain ⟨y, hy⟩ := Int.eq_ofNat_of_zero_le hyear.1
  have hlt : y < 10000 := by omega
  have hmonth : t.month < 10 ^ 2 := by have := t.monthRange; omega
  have hhour : t.hour < 10 ^ 2 := by have := t.hourRange; omega
  have hminute : t.minute < 10 ^ 2 := by have := t.minuteRange; omega
  have hsecond : t.second < 10 ^ 2 := by have := t.secondRange; omega
  have hread : readFields canonicalLayout (layoutText t.canonicalTS.toList)
      = some ([y, t.month, t.day, t.hour, t.minute, t.second, t.microsecond], []) := by
    rw [Instant.canonicalTS, String.toList_ofList, Instant.layoutText_canonicalTSText hy hlt,
      Instant.canonicalTSText_of_year hy hlt, clockText]
    simp only [List.append_assoc, List.cons_append, canonicalLayout]
    rw [readFields_cons (show y < 10 ^ 4 from hlt), readFields_cons hmonth, readFields_cons t.day_lt,
      readFields_cons hhour, readFields_cons hminute, readFields_cons hsecond,
      readFields_cons t.microsecond_lt]
    rfl
  have hmicro : t.microsecond < 1000000 := t.microsecond_lt
  rw [Instant.parseCanonicalTS, hread]
  simp only [Instant.ofFields, ← hy]
  rw [dif_pos ⟨t.monthRange, t.dayRange, t.hourRange, t.minuteRange, t.secondRange, hmicro⟩]
  rfl

/-- The layout's corrections do not touch the year. -/
theorem take_layoutText {s : List Char} (h : 11 ≤ s.length) :
    (layoutText s).take 5 = s.take 5 := by
  have hmin : min 11 s.length = 11 := min_eq_left h
  unfold layoutText
  simp only
  split_ifs <;> simp [List.take_append, List.take_take, List.take_set, hmin, List.set_eq_of_length_le]

theorem readFields_canonicalLayout_eq_none {s : List Char}
    (h : natOfDigits (s.take 4) = none ∨ s[4]? ≠ some '-') :
    readFields canonicalLayout s = none := by
  rw [canonicalLayout, readFields, readDigits]
  split_ifs with hlen
  · rfl
  · cases hn : natOfDigits (s.take 4) with
    | none => rfl
    | some n =>
      have hfifth : (s.drop 4).head? ≠ some '-' := by
        rw [List.head?_drop]
        exact h.resolve_left (by simp [hn])
      cases hr : s.drop 4 with
      | nil => rfl
      | cons c r =>
        rw [hr] at hfifth
        exact if_neg (fun hc => hfifth (congrArg some hc))

/-- **No other year reads back.** -/
theorem Instant.parseCanonicalTS_eq_none {t : Instant} (hyear : ¬(0 ≤ t.year ∧ t.year < 10000)) :
    Instant.parseCanonicalTS t.canonicalTS = none := by
  have hlen : 11 ≤ t.canonicalTSText.length := by
    simp only [Instant.canonicalTSText, List.length_append, length_clockText]
    omega
  have htake := take_layoutText hlen
  have hfail : readFields canonicalLayout (layoutText t.canonicalTSText) = none := by
    refine readFields_canonicalLayout_eq_none ?_
    rcases lt_or_ge t.year 0 with hneg | hpos
    · -- the sign is no digit
      left
      have htake4 : (layoutText t.canonicalTSText).take 4 = t.canonicalTSText.take 4 := by
        have h4 := congrArg (List.take 4) htake
        simpa [List.take_take] using h4
      rw [htake4, Instant.canonicalTSText, yearText, if_pos hneg]
      rfl
    · -- the fifth digit stands where the dash should
      right
      have hget : (layoutText t.canonicalTSText)[4]? = t.canonicalTSText[4]? := by
        have h4 := congrArg (fun l => l[4]?) htake
        simpa using h4
      rw [hget, Instant.canonicalTSText, yearText, if_neg (by omega)]
      have hwide : 5 ≤ Nat.log 10 t.year.natAbs + 1 :=
        Nat.succ_le_succ ((Nat.le_log_iff_pow_le (by decide) (by omega)).2 (by omega))
      rw [List.getElem?_append_left (by simp [padded]; omega)]
      intro hdash
      have hne : ∀ d < 10, '-' ≠ Nat.digitChar d := by decide
      obtain ⟨d, hd, hchar⟩ := exists_digit_of_mem_digits (by decide) (List.mem_of_getElem? hdash)
      exact hne d hd hchar
  rw [Instant.parseCanonicalTS, Instant.canonicalTS, String.toList_ofList, hfail]

end Fasten.Go

namespace Fasten

/-! ## Python's texts -/

theorem daysInMonth_mod (year month : ℕ) :
    daysInMonth (year % 400) month = daysInMonth year month := by
  have hleap : isLeap (year % 400) = isLeap year := by
    have h4 : year % 400 % 4 = year % 4 := Nat.mod_mod_of_dvd _ (by decide)
    have h100 : year % 400 % 100 = year % 100 := Nat.mod_mod_of_dvd _ (by decide)
    rw [isLeap, isLeap, h4, h100, Nat.mod_mod]
  rw [daysInMonth, daysInMonth, hleap]

/-- The `time.Time` in UTC of a `datetime`. -/
def Datetime.goInstant (t : Datetime) : Go.Instant where
  year := t.year
  month := t.month
  day := t.day
  hour := t.hour
  minute := t.minute
  second := t.second
  nanosecond := t.microsecond * 1000
  monthRange := t.monthRange
  dayRange := by
    have hday := t.dayRange
    have hdays : Go.daysIn (t.year : ℤ) t.month = daysInMonth t.year t.month := by
      rw [Go.daysIn, ← daysInMonth_mod t.year]
      congr 1
    rw [hdays]
    exact hday
  hourRange := t.hourRange
  minuteRange := t.minuteRange
  secondRange := t.secondRange
  nanosecondRange := by
    have := t.microsecondRange
    omega

/-- **Go writes the same text.** -/
theorem Datetime.goInstant_canonicalTS (t : Datetime) : t.goInstant.canonicalTS = canonicalTs t := by
  have hyear := t.yearRange
  have hmicro : t.goInstant.microsecond = t.microsecond := Nat.mul_div_cancel _ (by decide)
  have htext : t.goInstant.canonicalTSText = canonicalTsText t := by
    rw [Go.Instant.canonicalTSText_of_year (show t.goInstant.year = t.year from rfl) (by omega),
      hmicro, canonicalTsText, secondsText, Go.clockText]
    simp [Datetime.goInstant]
  rw [Go.Instant.canonicalTS, htext, canonicalTs]

/-- Go reads it. -/
theorem Datetime.parseCanonicalTS_canonicalTs (t : Datetime) :
    Go.Instant.parseCanonicalTS (canonicalTs t) = some t.goInstant.truncate := by
  have hyear := t.yearRange
  rw [← t.goInstant_canonicalTS]
  refine Go.Instant.parseCanonicalTS_canonicalTS ?_
  show (0 : ℤ) ≤ t.year ∧ (t.year : ℤ) < 10000
  omega

end Fasten
