import Fasten.GoInstant
import Fasten.GoStore
import Fasten.Timestamp.Instants

set_option autoImplicit false

/-! # Canonical timestamps

`canonical_ts` and `parse_canonical` of both SDKs (`python/fasten/canonical_ts.py`,
`go/canonical_ts.go`, spec §4.3) over the instants they write: one text for each instant, the same in
Python and Go, ordered like time. What compares stored timestamps as texts compares instants, as
`checkpoints_since` does and Go's `CheckpointsSince`, which parses them, does not have to. -/

namespace Fasten

open TextCodec

/-! ## The text in Python -/

/-- `isoformat(timespec="microseconds")` of an aware `datetime` in UTC. -/
def isoformat (t : Datetime) : List Char :=
  secondsText t ++ '.' :: (digits 10 6 t.microsecond ++ "+00:00".toList)

/-- `str.replace`, with enough fuel for the text. -/
def strReplace (old new : List Char) : ℕ → List Char → List Char
  | 0, s => s
  | _ + 1, [] => []
  | fuel + 1, c :: s =>
    if old <+: c :: s then new ++ strReplace old new fuel ((c :: s).drop old.length)
    else c :: strReplace old new fuel s

theorem strReplace_of_notMem {old new : List Char} {d : Char} (hd : old.head? = some d)
    {a : List Char} (ha : d ∉ a) (fuel : ℕ) (s : List Char) :
    strReplace old new (a.length + fuel) (a ++ s) = a ++ strReplace old new fuel s := by
  induction a with
  | nil => simp
  | cons c a ih =>
    rw [List.mem_cons, not_or] at ha
    have hno : ¬old <+: c :: (a ++ s) := by
      rintro ⟨rest, hrest⟩
      cases old with
      | nil => simp at hd
      | cons e old =>
        simp only [List.head?_cons, Option.some.injEq, List.cons_append,
          List.cons.injEq] at hd hrest
        exact ha.1 (hd.symm.trans hrest.1)
    rw [List.length_cons, Nat.succ_add_eq_add_succ, Nat.add_succ, List.cons_append, strReplace,
      if_neg hno, ih ha.2, List.cons_append]

theorem plus_notMem (t : Datetime) :
    '+' ∉ secondsText t ++ '.' :: digits 10 6 t.microsecond := by
  have hdigits : ∀ {w n : ℕ}, '+' ∉ digits 10 w n := by
    intro w n h
    obtain ⟨d, hd, heq⟩ := exists_digit_of_mem_digits (by decide) h
    have hall : ∀ d < 10, '+' ≠ Nat.digitChar d := by decide
    exact hall d hd heq
  simp [secondsText, hdigits]

/-- **`canonical_ts`** is `isoformat` with `Z` in the place of the offset. -/
theorem canonicalTsText_eq_replace (t : Datetime) :
    strReplace "+00:00".toList ['Z'] (isoformat t).length (isoformat t) = canonicalTsText t := by
  have hiso : isoformat t
      = (secondsText t ++ '.' :: digits 10 6 t.microsecond) ++ "+00:00".toList := by
    simp [isoformat]
  rw [hiso, List.length_append, strReplace_of_notMem rfl (plus_notMem t), canonicalTsText_eq]
  rfl

/-! ## The text in Go -/

/-- The `time.Time` in UTC at an instant. -/
def Micros.goInstant (t : Micros) : Go.Instant := t.datetime.goInstant

/-- **Go writes the same text.** -/
theorem Micros.goInstant_canonicalTS (t : Micros) :
    t.goInstant.canonicalTS = canonicalTs t.datetime := t.datetime.goInstant_canonicalTS

/-! ## Checkpoints since a cutoff -/

/-- A checkpoint that was dated with `canonical_ts`. -/
structure CanonicalCheckpoint extends Checkpoint where
  anchor : Micros
  anchored : anchoredAt = canonicalTs anchor.datetime

/-- The `time.Time` a Go cutoff is. -/
def Micros.goTime (t : Micros) : Go.Time := ⟨t.datetime, 0, Go.zero_nanosRange⟩

theorem Micros.goTime_lt_iff {t u : Micros} : t.goTime < u.goTime ↔ t.count < u.count := by
  rw [Go.Time.lt_iff, ← Micros.datetime_lt_iff]
  simp [Micros.goTime]

/-- What both keep: the checkpoints dated at the cutoff or later. -/
def keptSince (cps : List CanonicalCheckpoint) (cutoff : Micros) : List Checkpoint :=
  (cps.filter (fun cp => decide (cutoff.count ≤ cp.anchor.count))).map (·.toCheckpoint)

theorem checkpointsSince_eq (cps : List CanonicalCheckpoint) (cutoff : Micros) :
    checkpointsSince (cps.map (·.toCheckpoint)) cutoff.datetime = some (keptSince cps cutoff) := by
  have hparse : ∀ cp ∈ cps.map (·.toCheckpoint),
      (parseCanonical cp.anchoredAt).isSome = true := by
    intro cp hcp
    obtain ⟨c, -, rfl⟩ := List.mem_map.1 hcp
    rw [c.anchored, parseCanonical_canonicalTs]
    rfl
  have hkeep : ∀ c ∈ cps,
      decide (canonicalTs cutoff.datetime ≤ c.anchoredAt)
        = decide (cutoff.count ≤ c.anchor.count) := by
    intro c _
    have hiff : canonicalTs cutoff.datetime ≤ c.anchoredAt ↔ cutoff.count ≤ c.anchor.count := by
      rw [c.anchored, ← not_lt, canonicalTs_lt_iff, Micros.datetime_lt_iff, not_lt]
    exact decide_eq_decide.2 hiff
  have hfilter := List.filter_congr hkeep
  rw [checkpointsSince, if_pos hparse, keptSince, List.filter_map, ← hfilter]
  rfl

theorem Go.checkpointsSince_eq (cps : List CanonicalCheckpoint) (cutoff : Micros) :
    Go.checkpointsSince (cps.map (·.toCheckpoint)) cutoff.goTime
      = some (keptSince cps cutoff) := by
  induction cps with
  | nil => rfl
  | cons cp rest ih =>
    have hparse : Go.parseCanonicalTS cp.anchoredAt = some cp.anchor.goTime := by
      rw [cp.anchored]
      exact Go.parseCanonicalTS_canonicalTS cp.anchor.goTime
    have hiff := @Micros.goTime_lt_iff cp.anchor cutoff
    simp only [List.map_cons, Go.checkpointsSince, hparse, ih, keptSince, List.filter_cons,
      Option.bind_eq_bind, Option.bind_some, hiff]
    by_cases hlt : cp.anchor.count < cutoff.count
    · simp [hlt, not_le.2 hlt]
    · simp [hlt, not_lt.1 hlt]

/-- **Canonical timestamps are ordered and invertible**, and both SDKs keep the same checkpoints
    since a cutoff. -/
theorem canonical_timestamps (t u cutoff : Micros) (cps : List CanonicalCheckpoint) :
    (parseCanonical (canonicalTs t.datetime)).map Datetime.instant = some t
      ∧ t.goInstant.canonicalTS = canonicalTs t.datetime
      ∧ (canonicalTs t.datetime < canonicalTs u.datetime ↔ t.count < u.count)
      ∧ ∃ kept, checkpointsSince (cps.map (·.toCheckpoint)) cutoff.datetime = some kept
        ∧ Go.checkpointsSince (cps.map (·.toCheckpoint)) cutoff.goTime = some kept := by
  refine ⟨?_, t.goInstant_canonicalTS, ?_, keptSince cps cutoff, checkpointsSince_eq cps cutoff,
    Go.checkpointsSince_eq cps cutoff⟩
  · rw [parseCanonical_canonicalTs, Option.map_some, t.instant_datetime]
  · rw [canonicalTs_lt_iff, Micros.datetime_lt_iff]

end Fasten
