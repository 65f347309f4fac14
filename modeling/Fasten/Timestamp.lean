import Mathlib.Data.String.Basic
import Fasten.Lib.TextCodec

set_option autoImplicit false

/-! # Timestamps

UTC instants of whole microseconds (`datetime`), the canonical form every SDK writes
(`python/fasten/canonical_ts.py`, spec §4.3), and the form `"1"` spelling of it that is only hashed
(`_hashed_ts`, spec §1.2). Both spellings determine the instant, no text is both, and the canonical
one is ordered like time. -/

namespace Fasten

open TextCodec

def isLeap (year : Nat) : Bool := year % 4 == 0 && (year % 100 != 0 || year % 400 == 0)

def daysInMonth (year month : Nat) : Nat :=
  if month = 2 then (if isLeap year then 29 else 28)
  else if month = 4 ∨ month = 6 ∨ month = 9 ∨ month = 11 then 30
  else 31

/-- An aware `datetime` in UTC, or a naive one, which is taken as UTC. -/
structure Datetime where
  year : Nat
  month : Nat
  day : Nat
  hour : Nat
  minute : Nat
  second : Nat
  microsecond : Nat
  yearRange : 1 ≤ year ∧ year ≤ 9999
  monthRange : 1 ≤ month ∧ month ≤ 12
  dayRange : 1 ≤ day ∧ day ≤ daysInMonth year month
  hourRange : hour < 24
  minuteRange : minute < 60
  secondRange : second < 60
  microsecondRange : microsecond < 1000000

/-- `1970-01-01T00:00:00Z`. -/
def Datetime.epoch : Datetime :=
  ⟨1970, 1, 1, 0, 0, 0, 0, by decide, by decide, by decide, by decide, by decide, by decide,
    by decide⟩

/-- The first second of 1971. -/
def Datetime.later : Datetime :=
  ⟨1971, 1, 1, 0, 0, 0, 0, by decide, Datetime.epoch.monthRange, by decide,
    Datetime.epoch.hourRange, Datetime.epoch.minuteRange, Datetime.epoch.secondRange,
    Datetime.epoch.microsecondRange⟩

theorem Datetime.day_lt (t : Datetime) : t.day < 100 := by
  have hday := t.dayRange.2
  have hmax : daysInMonth t.year t.month ≤ 31 := by
    unfold daysInMonth
    split_ifs <;> omega
  omega

/-- The fields of an instant, most significant first. -/
def Datetime.fields (t : Datetime) : List Nat :=
  [t.year, t.month, t.day, t.hour, t.minute, t.second, t.microsecond]

instance : LT Datetime := ⟨fun a b => a.fields < b.fields⟩

variable {a b : Datetime}

theorem Datetime.eq_of_fields_eq (h : a.fields = b.fields) : a = b := by
  cases a
  cases b
  simpa [Datetime.fields] using h

/-! ## The two spellings -/

/-- `YYYY-MM-DDTHH:MM:SS`. -/
def secondsText (t : Datetime) : List Char :=
  digits 10 4 t.year ++ '-' :: (digits 10 2 t.month ++ '-' :: (digits 10 2 t.day
    ++ 'T' :: (digits 10 2 t.hour ++ ':' :: (digits 10 2 t.minute
      ++ ':' :: digits 10 2 t.second))))

def canonicalTsText (t : Datetime) : List Char :=
  secondsText t ++ '.' :: (digits 10 6 t.microsecond ++ ['Z'])

def canonicalTs (t : Datetime) : String := String.ofList (canonicalTsText t)

def hashedTsText (value : List Char) : List Char :=
  if value.getLast? = some 'Z' then
    (if ".000000".toList <:+ value.dropLast then value.dropLast.take (value.dropLast.length - 7)
      else value.dropLast) ++ "+00:00".toList
  else value

/-- `_hashed_ts` on a string. -/
def hashedTs (value : String) : String := String.ofList (hashedTsText value.toList)

/-! ## Both spellings determine the instant -/

@[simp] theorem length_secondsText (t : Datetime) : (secondsText t).length = 19 := by
  simp [secondsText]

theorem secondsText_inj (h : secondsText a = secondsText b) :
    a.year = b.year ∧ a.month = b.month ∧ a.day = b.day ∧ a.hour = b.hour ∧ a.minute = b.minute
      ∧ a.second = b.second := by
  have ha := a.day_lt
  have hb := b.day_lt
  simp only [secondsText] at h
  obtain ⟨hy, h⟩ := List.append_inj h (by simp)
  obtain ⟨hmo, h⟩ := List.append_inj (List.cons.inj h).2 (by simp)
  obtain ⟨hd, h⟩ := List.append_inj (List.cons.inj h).2 (by simp)
  obtain ⟨hh, h⟩ := List.append_inj (List.cons.inj h).2 (by simp)
  obtain ⟨hmi, h⟩ := List.append_inj (List.cons.inj h).2 (by simp)
  have hs := (List.cons.inj h).2
  refine ⟨?_, ?_, ?_, ?_, ?_, ?_⟩
  · exact digits_inj (by decide) (by decide) (by have := a.yearRange; omega)
      (by have := b.yearRange; omega) hy
  · exact digits_inj (by decide) (by decide) (by have := a.monthRange; omega)
      (by have := b.monthRange; omega) hmo
  · exact digits_inj (by decide) (by decide) (by omega) (by omega) hd
  · exact digits_inj (by decide) (by decide) (by have := a.hourRange; omega)
      (by have := b.hourRange; omega) hh
  · exact digits_inj (by decide) (by decide) (by have := a.minuteRange; omega)
      (by have := b.minuteRange; omega) hmi
  · exact digits_inj (by decide) (by decide) (by have := a.secondRange; omega)
      (by have := b.secondRange; omega) hs

theorem eq_of_texts_eq (hs : secondsText a = secondsText b)
    (hu : digits 10 6 a.microsecond = digits 10 6 b.microsecond) : a = b := by
  obtain ⟨h1, h2, h3, h4, h5, h6⟩ := secondsText_inj hs
  have h7 : a.microsecond = b.microsecond :=
    digits_inj (by decide) (by decide) (w := 6) (by have := a.microsecondRange; omega)
      (by have := b.microsecondRange; omega) hu
  exact Datetime.eq_of_fields_eq (by simp [Datetime.fields, h1, h2, h3, h4, h5, h6, h7])

theorem canonicalTsText_inj (h : canonicalTsText a = canonicalTsText b) : a = b := by
  obtain ⟨hs, hrest⟩ := List.append_inj h (by simp)
  obtain ⟨hu, -⟩ := List.append_inj (List.cons.inj hrest).2 (by simp)
  exact eq_of_texts_eq hs hu

theorem canonicalTs_inj (h : canonicalTs a = canonicalTs b) : a = b :=
  canonicalTsText_inj (String.ofList_injective h)

theorem canonicalTsText_eq (t : Datetime) :
    canonicalTsText t = (secondsText t ++ '.' :: digits 10 6 t.microsecond) ++ ['Z'] := by
  simp [canonicalTsText]

theorem getLast_canonicalTsText (t : Datetime) : (canonicalTsText t).getLast? = some 'Z' := by
  rw [canonicalTsText_eq, List.getLast?_concat]

/-- `_hashed_ts` drops the microseconds exactly when they are zero. -/
theorem hashedTsText_canonical (t : Datetime) :
    hashedTsText (canonicalTsText t) =
      secondsText t ++ ((if t.microsecond = 0 then [] else '.' :: digits 10 6 t.microsecond)
        ++ "+00:00".toList) := by
  have hlast := getLast_canonicalTsText t
  have hbody : (canonicalTsText t).dropLast
      = secondsText t ++ '.' :: digits 10 6 t.microsecond := by
    rw [canonicalTsText_eq, List.dropLast_concat]
  have hzero : ".000000".toList <:+ (secondsText t ++ '.' :: digits 10 6 t.microsecond)
      ↔ t.microsecond = 0 := by
    constructor
    · rintro ⟨x, hx⟩
      have htail := (List.append_inj' hx (by simp)).2
      have hdigits : digits 10 6 t.microsecond = digits 10 6 0 := (List.cons.inj htail).2.symm
      exact digits_inj (by decide) (by decide) (by have := t.microsecondRange; omega)
        (by decide) hdigits
    · intro hz
      rw [hz]
      exact ⟨secondsText t, rfl⟩
  rw [hashedTsText, if_pos hlast, hbody]
  by_cases hz : t.microsecond = 0
  · rw [if_pos (hzero.2 hz), if_pos hz]
    simp
  · rw [if_neg (fun h => hz (hzero.1 h)), if_neg hz, List.append_assoc]

theorem hashedTsText_inj (h : hashedTsText (canonicalTsText a) = hashedTsText (canonicalTsText b)) :
    a = b := by
  rw [hashedTsText_canonical, hashedTsText_canonical] at h
  obtain ⟨hs, hrest⟩ := List.append_inj h (by simp)
  have hu := List.append_cancel_right hrest
  refine eq_of_texts_eq hs ?_
  by_cases ha : a.microsecond = 0
  · by_cases hb : b.microsecond = 0
    · rw [ha, hb]
    · simp [ha, hb] at hu
  · by_cases hb : b.microsecond = 0
    · simp [ha, hb] at hu
    · simpa [ha, hb] using hu

/-- A hashed spelling ends in the offset, a canonical one in `Z`. -/
theorem hashedTsText_ne_canonical (a b : Datetime) :
    hashedTsText (canonicalTsText a) ≠ canonicalTsText b := by
  intro h
  have hlast : (hashedTsText (canonicalTsText a)).getLast? = some '0' := by
    rw [hashedTsText_canonical, ← List.append_assoc]
    exact List.getLast?_append_of_ne_nil _ (by decide)
  rw [h, getLast_canonicalTsText] at hlast
  exact absurd hlast (by decide)

theorem hashedTs_inj (h : hashedTs (canonicalTs a) = hashedTs (canonicalTs b)) : a = b := by
  refine hashedTsText_inj (String.ofList_injective ?_)
  simpa [hashedTs, canonicalTs] using h

theorem hashedTs_ne_canonical (a b : Datetime) : hashedTs (canonicalTs a) ≠ canonicalTs b := by
  intro h
  refine hashedTsText_ne_canonical a b (String.ofList_injective ?_)
  simpa [hashedTs, canonicalTs] using h

/-! ## Text order is time order -/

theorem block_lt {w m n : Nat} (hn : n < 10 ^ w) (h : m < n) (r s : List Char) :
    digits 10 w m ++ r < digits 10 w n ++ s :=
  append_lt_append_of_lt (by simp) (digits_lt_digits (by decide) (by decide) hn h) r s

theorem block_cons_lt {w n : Nat} (c : Char) {r s : List Char} (h : r < s) :
    digits 10 w n ++ c :: r < digits 10 w n ++ c :: s :=
  append_lt_append_left _ (List.cons_lt_cons_iff.2 (Or.inr ⟨rfl, h⟩))

/-- **A later instant has the larger text.** -/
theorem canonicalTsText_lt (h : a < b) : canonicalTsText a < canonicalTsText b := by
  have hday := b.day_lt
  have hlt : a.fields < b.fields := h
  simp only [canonicalTsText, secondsText, List.append_assoc, List.cons_append]
  simp only [Datetime.fields, List.cons_lt_cons_iff, List.not_lt_nil, and_false, or_false] at hlt
  -- the first field that differs decides the order
  rcases hlt with h1 | ⟨h1, hlt⟩
  · exact block_lt (by have := b.yearRange; omega) h1 _ _
  rw [h1]
  refine block_cons_lt _ ?_
  rcases hlt with h2 | ⟨h2, hlt⟩
  · exact block_lt (by have := b.monthRange; omega) h2 _ _
  rw [h2]
  refine block_cons_lt _ ?_
  rcases hlt with h3 | ⟨h3, hlt⟩
  · exact block_lt (by omega) h3 _ _
  rw [h3]
  refine block_cons_lt _ ?_
  rcases hlt with h4 | ⟨h4, hlt⟩
  · exact block_lt (by have := b.hourRange; omega) h4 _ _
  rw [h4]
  refine block_cons_lt _ ?_
  rcases hlt with h5 | ⟨h5, hlt⟩
  · exact block_lt (by have := b.minuteRange; omega) h5 _ _
  rw [h5]
  refine block_cons_lt _ ?_
  rcases hlt with h6 | ⟨h6, h7⟩
  · exact block_lt (by have := b.secondRange; omega) h6 _ _
  rw [h6]
  exact block_cons_lt _ (block_lt (by have := b.microsecondRange; omega) h7 _ _)

theorem canonicalTs_lt (h : a < b) : canonicalTs a < canonicalTs b := by
  rw [String.lt_iff_toList_lt]
  simpa [canonicalTs] using canonicalTsText_lt h

/-! ## Reading the canonical form -/

def Datetime.ofFields (year month day hour minute second microsecond : Nat) : Option Datetime :=
  if h : (1 ≤ year ∧ year ≤ 9999) ∧ (1 ≤ month ∧ month ≤ 12)
      ∧ (1 ≤ day ∧ day ≤ daysInMonth year month) ∧ hour < 24 ∧ minute < 60 ∧ second < 60
      ∧ microsecond < 1000000 then
    some ⟨year, month, day, hour, minute, second, microsecond, h.1, h.2.1, h.2.2.1, h.2.2.2.1,
      h.2.2.2.2.1, h.2.2.2.2.2.1, h.2.2.2.2.2.2⟩
  else none

/-- The widths of the fields, each with what follows it. -/
def canonicalLayout : List (Nat × Char) :=
  [(4, '-'), (2, '-'), (2, 'T'), (2, ':'), (2, ':'), (2, '.'), (6, 'Z')]

/-- `parse_canonical`: what both its pattern and `fromisoformat` accept; `none` is the
    `ValueError`. -/
def parseCanonical (s : String) : Option Datetime :=
  match readFields canonicalLayout s.toList with
  | some ([year, month, day, hour, minute, second, microsecond], []) =>
    Datetime.ofFields year month day hour minute second microsecond
  | _ => none

/-- **Every canonical text reads as its instant.** -/
theorem parseCanonical_canonicalTs (t : Datetime) : parseCanonical (canonicalTs t) = some t := by
  have hyear : t.year < 10 ^ 4 := by have := t.yearRange; omega
  have hmonth : t.month < 10 ^ 2 := by have := t.monthRange; omega
  have hday : t.day < 10 ^ 2 := t.day_lt
  have hhour : t.hour < 10 ^ 2 := by have := t.hourRange; omega
  have hminute : t.minute < 10 ^ 2 := by have := t.minuteRange; omega
  have hsecond : t.second < 10 ^ 2 := by have := t.secondRange; omega
  have hmicrosecond : t.microsecond < 10 ^ 6 := t.microsecondRange
  have hfields : Datetime.ofFields t.year t.month t.day t.hour t.minute t.second t.microsecond
      = some t :=
    dif_pos ⟨t.yearRange, t.monthRange, t.dayRange, t.hourRange, t.minuteRange, t.secondRange,
      t.microsecondRange⟩
  have hread : readFields canonicalLayout (canonicalTs t).toList = some (t.fields, []) := by
    rw [canonicalTs, String.toList_ofList, canonicalTsText, secondsText]
    simp only [List.append_assoc, List.cons_append, canonicalLayout]
    -- each field is read off the front of what is left
    rw [readFields_cons hyear, readFields_cons hmonth, readFields_cons hday, readFields_cons hhour,
      readFields_cons hminute, readFields_cons hsecond, readFields_cons hmicrosecond]
    rfl
  rw [parseCanonical, hread]
  exact hfields

end Fasten
