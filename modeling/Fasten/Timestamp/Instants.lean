import Mathlib.Order.Monotone.Basic
import Fasten.Timestamp

set_option autoImplicit false

/-! # Instants

A UTC instant is a number of microseconds since the year 1 began. A `datetime` spells it in the
Gregorian calendar, with leap years and months of different lengths, and is ordered like the number
it spells. -/

/-! ## Consecutive blocks of numbers

Block `i` starts at `start i` and ends where block `i + 1` starts: years and months as blocks of
days. -/

namespace Blocks

variable {start : ℕ → ℕ}

/-- The block that holds `n`, of the first `k`. -/
def index (start : ℕ → ℕ) : ℕ → ℕ → ℕ
  | 0, _ => 0
  | k + 1, n => if start k ≤ n then k else index start k n

/-- **Every number below the end of the last block is in a block.** -/
theorem index_spec {k n : ℕ} (hfirst : start 0 ≤ n) (hlast : n < start k) :
    index start k n < k ∧ start (index start k n) ≤ n ∧ n < start (index start k n + 1) := by
  induction k with
  | zero => omega
  | succ k ih =>
    rw [index]
    split_ifs with hk
    · exact ⟨k.lt_succ_self, hk, hlast⟩
    · obtain ⟨hlt, hin⟩ := ih (by omega)
      exact ⟨by omega, hin⟩

/-- A number of an earlier block is smaller. -/
theorem lt_of_block_lt (hmono : Monotone start) {i j m n : ℕ} (hij : i < j)
    (hm : m < start (i + 1)) (hn : start j ≤ n) : m < n :=
  lt_of_lt_of_le hm ((hmono hij).trans hn)

end Blocks

namespace Fasten

/-! ## Days -/

/-- The days of the first `n` years. -/
def daysOfYears (n : ℕ) : ℕ := 365 * n + n / 4 - n / 100 + n / 400

theorem isLeap_iff (year : ℕ) :
    isLeap year = true ↔ 4 ∣ year ∧ (¬100 ∣ year ∨ 400 ∣ year) := by
  simp [isLeap, Nat.dvd_iff_mod_eq_zero]

theorem daysOfYears_succ (n : ℕ) :
    daysOfYears (n + 1) = daysOfYears n + (if isLeap (n + 1) then 366 else 365) := by
  have hle : n / 100 ≤ n / 4 := Nat.div_le_div_left (by decide) (by decide)
  have h100 : 100 ∣ n + 1 → 4 ∣ n + 1 := Nat.dvd_trans (by decide)
  have h400 : 400 ∣ n + 1 → 100 ∣ n + 1 := Nat.dvd_trans (by decide)
  simp only [daysOfYears, isLeap_iff, Nat.succ_div]
  generalize n / 4 = a at hle
  generalize n / 100 = b at hle
  generalize n / 400 = c
  -- a year is divisible by 400, by 100 only, by 4 only, or by none of them
  split_ifs with h1 h2 h3 h4 <;> omega

theorem monotone_daysOfYears : Monotone daysOfYears := by
  refine monotone_nat_of_le_succ (fun n => ?_)
  rw [daysOfYears_succ]
  exact Nat.le_add_right _ _

/-- The days of the first `n` months of a year. -/
def daysOfMonths (year : ℕ) : ℕ → ℕ
  | 0 => 0
  | n + 1 => daysOfMonths year n + daysInMonth year (n + 1)

theorem monotone_daysOfMonths (year : ℕ) : Monotone (daysOfMonths year) :=
  monotone_nat_of_le_succ (fun n => Nat.le_add_right (daysOfMonths year n) _)

theorem daysOfMonths_twelve (year : ℕ) :
    daysOfMonths year 12 = if isLeap year then 366 else 365 := by
  have hfebruary : daysInMonth year 2 = if isLeap year then 29 else 28 := rfl
  have hother : ∀ m, m ≠ 2 → daysInMonth year m = daysInMonth 1 m := by
    intro m hm
    simp [daysInMonth, hm]
  simp only [daysOfMonths, Nat.reduceAdd, hfebruary]
  rw [hother 1 (by decide), hother 3 (by decide), hother 4 (by decide), hother 5 (by decide),
    hother 6 (by decide), hother 7 (by decide), hother 8 (by decide), hother 9 (by decide),
    hother 10 (by decide), hother 11 (by decide), hother 12 (by decide)]
  split_ifs <;> rfl

/-! ## The number of an instant -/

namespace Datetime

variable (t : Datetime)

/-- The days of the year before this one. -/
def yearDay : ℕ := daysOfMonths t.year (t.month - 1) + (t.day - 1)

/-- The days since the year 1 began. -/
def dayNumber : ℕ := daysOfYears (t.year - 1) + t.yearDay

/-- The microseconds of the day. -/
def dayMicros : ℕ := ((t.hour * 60 + t.minute) * 60 + t.second) * 1000000 + t.microsecond

/-- The microseconds since the year 1 began. -/
def micros : ℕ := t.dayNumber * 86400000000 + t.dayMicros

theorem dayMicros_lt : t.dayMicros < 86400000000 := by
  have hhour := t.hourRange
  have hminute := t.minuteRange
  have hsecond := t.secondRange
  have hmicrosecond := t.microsecondRange
  unfold dayMicros
  omega

theorem yearDay_mem : daysOfMonths t.year (t.month - 1) ≤ t.yearDay
    ∧ t.yearDay < daysOfMonths t.year (t.month - 1 + 1) := by
  have hmonth := t.monthRange
  have hday := t.dayRange
  have hsame : t.month - 1 + 1 = t.month := by omega
  rw [daysOfMonths, hsame, yearDay]
  omega

theorem yearDay_lt : t.yearDay < if isLeap t.year then 366 else 365 := by
  have hmonth := t.monthRange
  rw [← daysOfMonths_twelve]
  exact lt_of_lt_of_le t.yearDay_mem.2 (monotone_daysOfMonths t.year (by omega))

theorem dayNumber_mem : daysOfYears (t.year - 1) ≤ t.dayNumber
    ∧ t.dayNumber < daysOfYears (t.year - 1 + 1) := by
  have hyear := t.yearRange
  have hlt := t.yearDay_lt
  have hsame : t.year - 1 + 1 = t.year := by omega
  rw [daysOfYears_succ, hsame, dayNumber]
  omega

end Datetime

/-- The microseconds of the years 1 to 9999. -/
def microsLimit : ℕ := daysOfYears 9999 * 86400000000

theorem Datetime.micros_lt (t : Datetime) : t.micros < microsLimit := by
  have hyear := t.yearRange
  have hday : t.dayNumber < daysOfYears 9999 :=
    lt_of_lt_of_le t.dayNumber_mem.2 (monotone_daysOfYears (by omega))
  have hmicros := t.dayMicros_lt
  unfold Datetime.micros microsLimit
  omega

/-! ### Order -/

variable {a b : Datetime}

theorem Datetime.yearDay_lt_of_month (hyear : a.year = b.year) (h : a.month < b.month) :
    a.yearDay < b.yearDay := by
  have hmonth := a.monthRange
  have hin := b.yearDay_mem
  rw [← hyear] at hin
  exact Blocks.lt_of_block_lt (monotone_daysOfMonths a.year) (by omega) a.yearDay_mem.2 hin.1

theorem Datetime.dayNumber_lt_of_year (h : a.year < b.year) : a.dayNumber < b.dayNumber := by
  have hyear := a.yearRange
  exact Blocks.lt_of_block_lt monotone_daysOfYears (by omega) a.dayNumber_mem.2 b.dayNumber_mem.1

theorem Datetime.micros_lt_of_dayNumber (h : a.dayNumber < b.dayNumber) : a.micros < b.micros := by
  have ha := a.dayMicros_lt
  unfold Datetime.micros
  omega

/-- **Fields are ordered like time.** -/
theorem Datetime.micros_lt_micros (h : a < b) : a.micros < b.micros := by
  have hfields : a.fields < b.fields := h
  simp only [Datetime.fields, List.cons_lt_cons_iff, List.not_lt_nil, and_false, or_false]
    at hfields
  rcases hfields with hyear | ⟨hyear, hmonth | ⟨hmonth, hday | ⟨hday, hrest⟩⟩⟩
  · exact Datetime.micros_lt_of_dayNumber (Datetime.dayNumber_lt_of_year hyear)
  · have hlt := Datetime.yearDay_lt_of_month hyear hmonth
    refine Datetime.micros_lt_of_dayNumber ?_
    unfold Datetime.dayNumber
    rw [hyear]
    omega
  · refine Datetime.micros_lt_of_dayNumber ?_
    have hfirst := a.dayRange
    unfold Datetime.dayNumber Datetime.yearDay
    rw [hyear, hmonth]
    omega
  · have hnumber : a.dayNumber = b.dayNumber := by
      unfold Datetime.dayNumber Datetime.yearDay
      rw [hyear, hmonth, hday]
    have hmicros : a.dayMicros < b.dayMicros := by
      have ha1 := a.minuteRange
      have ha2 := a.secondRange
      have ha3 := a.microsecondRange
      unfold Datetime.dayMicros
      omega
    unfold Datetime.micros
    omega

theorem Datetime.lt_trichotomy (a b : Datetime) : a < b ∨ a = b ∨ b < a := by
  rcases Std.lt_trichotomy a.fields b.fields with h | h | h
  · exact Or.inl h
  · exact Or.inr (Or.inl (Datetime.eq_of_fields_eq h))
  · exact Or.inr (Or.inr h)

theorem Datetime.lt_iff_micros_lt : a < b ↔ a.micros < b.micros := by
  refine ⟨Datetime.micros_lt_micros, fun h => ?_⟩
  rcases Datetime.lt_trichotomy a b with hab | rfl | hba
  · exact hab
  · exact absurd h (lt_irrefl _)
  · exact absurd (Datetime.micros_lt_micros hba) (by omega)

theorem canonicalTs_lt_iff : canonicalTs a < canonicalTs b ↔ a < b := by
  refine ⟨fun h => ?_, canonicalTs_lt⟩
  rcases Datetime.lt_trichotomy a b with hab | rfl | hba
  · exact hab
  · exact absurd h (lt_irrefl _)
  · exact absurd (canonicalTs_lt hba) (lt_asymm h)

/-! ## The calendar of an instant -/

/-- A UTC instant of whole microseconds in the years 1 to 9999. -/
structure Micros where
  count : ℕ
  inRange : count < microsLimit

namespace Micros

variable (t : Micros)

def day : ℕ := t.count / 86400000000

/-- The whole years before the instant. -/
def years : ℕ := Blocks.index daysOfYears 9999 t.day

def yearDay : ℕ := t.day - daysOfYears t.years

/-- The whole months of the year before the instant. -/
def months : ℕ := Blocks.index (daysOfMonths (t.years + 1)) 12 t.yearDay

theorem years_spec : t.years < 9999 ∧ daysOfYears t.years ≤ t.day
    ∧ t.day < daysOfYears (t.years + 1) := by
  have hrange : t.day < daysOfYears 9999 := by
    have hin := t.inRange
    unfold microsLimit at hin
    unfold day
    omega
  exact Blocks.index_spec (Nat.zero_le _) hrange

theorem months_spec : t.months < 12 ∧ daysOfMonths (t.years + 1) t.months ≤ t.yearDay
    ∧ t.yearDay < daysOfMonths (t.years + 1) (t.months + 1) := by
  have hyears := t.years_spec
  have hrange : t.yearDay < daysOfMonths (t.years + 1) 12 := by
    rw [daysOfYears_succ] at hyears
    rw [daysOfMonths_twelve, yearDay]
    omega
  exact Blocks.index_spec (Nat.zero_le _) hrange

/-- The aware `datetime` in UTC at an instant. -/
def datetime : Datetime where
  year := t.years + 1
  month := t.months + 1
  day := t.yearDay - daysOfMonths (t.years + 1) t.months + 1
  hour := t.count % 86400000000 / 3600000000
  minute := t.count % 3600000000 / 60000000
  second := t.count % 60000000 / 1000000
  microsecond := t.count % 1000000
  yearRange := by have := t.years_spec; omega
  monthRange := by have := t.months_spec; omega
  dayRange := by
    have hmonths := t.months_spec
    rw [daysOfMonths] at hmonths
    omega
  hourRange := by omega
  minuteRange := by omega
  secondRange := by omega
  microsecondRange := by omega

/-- **The calendar spells the instant.** -/
theorem micros_datetime : t.datetime.micros = t.count := by
  have hyears := t.years_spec
  have hmonths := t.months_spec
  have hyearDay : t.datetime.yearDay = t.yearDay := by
    show daysOfMonths (t.years + 1) (t.months + 1 - 1)
      + (t.yearDay - daysOfMonths (t.years + 1) t.months + 1 - 1) = t.yearDay
    rw [Nat.add_sub_cancel, Nat.add_sub_cancel]
    omega
  have hday : t.datetime.dayNumber = t.day := by
    show daysOfYears (t.years + 1 - 1) + t.datetime.yearDay = t.day
    rw [Nat.add_sub_cancel, hyearDay, yearDay]
    omega
  have hmicros : t.datetime.dayMicros = t.count % 86400000000 := by
    show ((t.count % 86400000000 / 3600000000 * 60 + t.count % 3600000000 / 60000000) * 60
      + t.count % 60000000 / 1000000) * 1000000 + t.count % 1000000 = t.count % 86400000000
    omega
  rw [Datetime.micros, hday, hmicros, day]
  omega

end Micros

/-- The instant of an aware `datetime` in UTC. -/
def Datetime.instant (t : Datetime) : Micros := ⟨t.micros, t.micros_lt⟩

theorem Micros.instant_datetime (t : Micros) : t.datetime.instant = t := by
  have hcount := t.micros_datetime
  cases t
  simpa [Datetime.instant] using hcount

theorem Micros.datetime_lt_iff {t u : Micros} : t.datetime < u.datetime ↔ t.count < u.count := by
  rw [Datetime.lt_iff_micros_lt, t.micros_datetime, u.micros_datetime]

end Fasten
