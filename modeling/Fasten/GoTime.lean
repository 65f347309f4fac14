import Fasten.Timestamp

set_option autoImplicit false

/-! # Go times

A `time.Time` in UTC of the years 1 to 9999, to the nanosecond. `canonicalTS`
(`go/canonical_ts.go`) writes the microseconds, so its text reads back as the time rounded down. -/

namespace Fasten.Go

/-- A time: the microsecond it is in, and the nanoseconds since. -/
structure Time where
  micros : Datetime
  nanos : Nat
  nanosRange : nanos < 1000

theorem zero_nanosRange : 0 < 1000 := by decide

/-- `Truncate(time.Microsecond)`. -/
def Time.truncate (t : Time) : Time := ⟨t.micros, 0, zero_nanosRange⟩

instance : DecidableEq Datetime := fun a b =>
  decidable_of_iff (a.fields = b.fields) ⟨Datetime.eq_of_fields_eq, fun h => h ▸ rfl⟩

instance (a b : Datetime) : Decidable (a < b) := inferInstanceAs (Decidable (a.fields < b.fields))

/-- `a.Before(b)`. -/
instance : LT Time := ⟨fun a b => a.micros < b.micros ∨ a.micros = b.micros ∧ a.nanos < b.nanos⟩

instance (a b : Time) : Decidable (a < b) := inferInstanceAs (Decidable (_ ∨ _))

theorem Time.lt_iff {a b : Time} :
    a < b ↔ a.micros < b.micros ∨ a.micros = b.micros ∧ a.nanos < b.nanos :=
  Iff.rfl

theorem Time.lt_trans {a b c : Time} (hab : a < b) (hbc : b < c) : a < c := by
  rw [Time.lt_iff] at hab hbc ⊢
  rcases hab with hab | ⟨hab, hab'⟩
  · rcases hbc with hbc | ⟨hbc, -⟩
    · exact Or.inl (List.lt_trans (show a.micros.fields < b.micros.fields from hab) hbc)
    · exact Or.inl (hbc ▸ hab)
  · rw [hab]
    exact hbc.imp_right (fun h => ⟨h.1, hab'.trans h.2⟩)

/-- Rounding down keeps a time before a later one. -/
theorem Time.truncate_lt {a b : Time} (h : a < b) : a.truncate < b := by
  rw [Time.lt_iff] at h ⊢
  exact h.imp_right (fun h => ⟨h.1, (Nat.zero_le _).trans_lt h.2⟩)

/-! ## The canonical text -/

def canonicalTS (t : Time) : String := canonicalTs t.micros

/-- The text `time.Parse` reads the layout's fields from: it takes an hour of one digit, and a comma
    for the point before the fraction. -/
def layoutText (s : List Char) : List Char :=
  let s := if s[12]? = some ':' then s.take 11 ++ '0' :: s.drop 11 else s
  if s[19]? = some ',' then s.set 19 '.' else s

/-- `none` is the error for a text that is not in the layout, and for the year 0, which Go reads and
    a `Datetime` does not have. -/
def parseCanonicalTS (s : String) : Option Time :=
  (parseCanonical (String.ofList (layoutText s.toList))).map (fun t => ⟨t, 0, by decide⟩)

theorem layoutText_canonicalTsText (t : Datetime) :
    layoutText (canonicalTsText t) = canonicalTsText t := by
  have hhour : (canonicalTsText t)[12]? ≠ some ':' := by
    have hget : (canonicalTsText t)[12]? = (TextCodec.digits 10 2 t.hour)[1]? := by
      simp only [canonicalTsText, secondsText, List.append_assoc, List.cons_append]
      simp
    rw [hget]
    intro h
    obtain ⟨d, hd, hchar⟩ := TextCodec.exists_digit_of_mem_digits (by decide)
      (List.mem_of_getElem? h)
    interval_cases d <;> exact absurd hchar (by decide)
  have hpoint : (canonicalTsText t)[19]? = some '.' := by
    rw [canonicalTsText, List.getElem?_append_right (by simp)]
    simp
  simp [layoutText, hhour, hpoint]

/-- **A written time reads back rounded down.** -/
theorem parseCanonicalTS_canonicalTS (t : Time) :
    parseCanonicalTS (canonicalTS t) = some t.truncate := by
  have htext : String.ofList (layoutText (canonicalTS t).toList) = canonicalTs t.micros := by
    rw [canonicalTS, canonicalTs, String.toList_ofList, layoutText_canonicalTsText]
  rw [parseCanonicalTS, htext, parseCanonical_canonicalTs]
  rfl

end Fasten.Go
