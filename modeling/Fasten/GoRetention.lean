import Fasten.GoText
import Fasten.GoTime
import Fasten.Timestamp.Instants

set_option autoImplicit false

/-! # Retention in Go

`parseRetentionDuration` and what `startPurger` does with its result (`go/retention.go`). The product
of the number and the unit is an `int64` of nanoseconds, so a long enough period wraps: to a negative
one, which turns the purge off, or to a short one, which deletes rows that are minutes old. -/

namespace Fasten.Go

/-! ## The setting -/

inductive RetentionUnit where
  | second
  | minute
  | hour
  | day
  deriving DecidableEq

/-- The unit as a `time.Duration`, in nanoseconds. -/
def RetentionUnit.nanos : RetentionUnit → ℕ
  | .second => 1000000000
  | .minute => 60 * 1000000000
  | .hour => 3600 * 1000000000
  | .day => 24 * 3600 * 1000000000

/-- `_retentionUnits`. -/
def retentionUnits (b : UInt8) : Option RetentionUnit :=
  if b = 's'.toUInt8 then some .second
  else if b = 'm'.toUInt8 then some .minute
  else if b = 'h'.toUInt8 then some .hour
  else if b = 'd'.toUInt8 then some .day
  else none

/-- The three errors: no unit, no integer before it, an integer that is not positive. -/
inductive RetentionError where
  | unit
  | integer
  | positive
  deriving DecidableEq

/-- `parseRetentionDuration`, over the bytes of a Go string. -/
def parseRetentionDuration (s : List UInt8) : Except RetentionError ℤ :=
  let token := trimSpace s
  if token = [] then .ok 0
  else if token.length < 2 then .error .unit
  else
    match token.getLast?.bind retentionUnits with
    | none => .error .unit
    | some unit =>
      match atoi token.dropLast with
      | none => .error .integer
      | some n => if n ≤ 0 then .error .positive else .ok (wrap64 (n * unit.nanos))

/-- An integer `n > 0` followed by one unit: the period it configures is `n` times the unit. -/
structure IsSetting (token : List UInt8) (n : ℕ) (unit : RetentionUnit) : Prop where
  spelled : ∃ number last, token = number ++ [last] ∧ Spells number n
    ∧ retentionUnits last = some unit
  positive : 0 < n

/-- What the result promises: an error, 0 for a blank string, or exactly the configured period. -/
def RetentionExact (s : List UInt8) : Prop :=
  ∀ d, parseRetentionDuration s = .ok d →
    (trimSpace s = [] ∧ d = 0) ∨ ∃ n unit, IsSetting (trimSpace s) n unit ∧ d = n * unit.nanos

/-- The configured period fits an `int64` of nanoseconds, or its number is none that `Atoi` takes. -/
def PeriodFits (s : List UInt8) : Prop :=
  ∀ n unit, IsSetting (trimSpace s) n unit → n < 2 ^ 63 → n * unit.nanos < 2 ^ 63

/-! ## What the parser accepts -/

/-- **A period is returned exactly for a setting whose number `Atoi` takes.** -/
theorem parseRetentionDuration_eq_ok_iff {s : List UInt8} (hne : trimSpace s ≠ []) {d : ℤ} :
    parseRetentionDuration s = .ok d
      ↔ ∃ n unit, IsSetting (trimSpace s) n unit ∧ n < 2 ^ 63 ∧ d = wrap64 (n * unit.nanos) := by
  unfold parseRetentionDuration
  generalize trimSpace s = token at hne
  simp only [if_neg hne]
  constructor
  · intro h
    obtain ⟨number, last, rfl⟩ : ∃ number last, token = number ++ [last] :=
      ⟨token.dropLast, token.getLast hne, (List.dropLast_append_getLast hne).symm⟩
    simp only [List.getLast?_concat, Option.bind_some, List.dropLast_concat] at h
    split_ifs at h with hlen
    cases hunit : retentionUnits last with
    | none => simp [hunit] at h
    | some unit =>
      cases hatoi : atoi number with
      | none => simp [hunit, hatoi] at h
      | some k =>
        simp only [hunit, hatoi] at h
        split_ifs at h with hk
        obtain ⟨n, rfl⟩ : ∃ n : ℕ, k = n := Int.eq_ofNat_of_zero_le (by omega)
        have hpos : 0 < n := by omega
        obtain ⟨hspells, hlt⟩ := (atoi_eq_some_iff hpos).1 hatoi
        rw [Except.ok.injEq] at h
        exact ⟨n, unit, ⟨⟨number, last, rfl, hspells, hunit⟩, hpos⟩, hlt, h.symm⟩
  · rintro ⟨n, unit, ⟨⟨number, last, rfl, hspells, hunit⟩, hpos⟩, hlt, rfl⟩
    have hatoi := (atoi_eq_some_iff hpos).2 ⟨hspells, hlt⟩
    have hlen : ¬(number ++ [last]).length < 2 := by
      obtain ⟨sign, ds, -, hds, -, -, rfl⟩ := hspells.spelled
      have hdspos := List.length_pos_iff.2 hds
      simp only [List.length_append, List.length_singleton]
      omega
    rw [if_neg hlen, List.getLast?_concat, List.dropLast_concat, Option.bind_some, hunit]
    simp only [hatoi]
    exact if_neg (by omega)

theorem IsSetting.ne_nil {token : List UInt8} {n : ℕ} {unit : RetentionUnit}
    (h : IsSetting token n unit) : token ≠ [] := by
  obtain ⟨number, last, rfl, -, -⟩ := h.spelled
  simp

/-- A text is one setting at most. -/
theorem IsSetting.unique {token : List UInt8} {n m : ℕ} {unit unit' : RetentionUnit}
    (h : IsSetting token n unit) (h' : IsSetting token m unit') : n = m ∧ unit = unit' := by
  obtain ⟨number, last, rfl, hspells, hunit⟩ := h.spelled
  obtain ⟨number', last', heq, hspells', hunit'⟩ := h'.spelled
  obtain ⟨rfl, hlast⟩ := List.append_inj' heq rfl
  obtain rfl := List.singleton_inj.1 hlast
  refine ⟨hspells.decimal_unsigned.symm.trans hspells'.decimal_unsigned, ?_⟩
  rw [hunit] at hunit'
  exact Option.some.inj hunit'

/-- The result is exact for the settings whose period fits an `int64`, and for no other. -/
theorem retentionExact_iff (s : List UInt8) : RetentionExact s ↔ PeriodFits s := by
  constructor
  · intro hexact n unit hset hlt
    have hok := (parseRetentionDuration_eq_ok_iff hset.ne_nil).2 ⟨n, unit, hset, hlt, rfl⟩
    rcases hexact _ hok with ⟨hblank, -⟩ | ⟨m, unit', hset', hwrap⟩
    · exact absurd hblank hset.ne_nil
    · obtain ⟨rfl, rfl⟩ := hset.unique hset'
      have hlt64 := (wrap64_eq_iff (by positivity)).1 hwrap
      exact_mod_cast hlt64
  · intro hfits d hok
    by_cases hblank : trimSpace s = []
    · have hzero : parseRetentionDuration s = .ok 0 := by
        rw [parseRetentionDuration]
        exact if_pos hblank
      rw [hzero, Except.ok.injEq] at hok
      exact Or.inl ⟨hblank, hok.symm⟩
    · obtain ⟨n, unit, hset, hlt, rfl⟩ := (parseRetentionDuration_eq_ok_iff hblank).1 hok
      have hfit : ((n * unit.nanos : ℕ) : ℤ) < 2 ^ 63 := by exact_mod_cast hfits n unit hset hlt
      refine Or.inr ⟨n, unit, hset, ?_⟩
      exact (wrap64_eq_iff (by positivity)).2 (by exact_mod_cast hfit)

/-! ## The purger -/

/-- A reading of the clock, in nanoseconds since the year 1 began: from every one an `int64` of
    nanoseconds leads back to the year 1 or later, and its year has four digits. -/
structure Now where
  nanos : ℕ
  late : 2 ^ 63 ≤ nanos
  early : nanos / 1000 < microsLimit

theorem Now.before_inRange (now : Now) (d : ℕ) : (now.nanos - d) / 1000 < microsLimit :=
  lt_of_le_of_lt (Nat.div_le_div_right (Nat.sub_le _ _)) now.early

/-- `now.Add(-d)`. -/
def Now.before (now : Now) (d : ℕ) : Time where
  micros := Micros.datetime ⟨(now.nanos - d) / 1000, now.before_inRange d⟩
  nanos := (now.nanos - d) % 1000
  nanosRange := Nat.mod_lt _ (by decide)

/-- One round of `startPurger`, of a stream with a store and a `redactFn`: the time before which
    details are redacted, and the text before which rows are deleted. -/
structure Fired where
  redactBefore : Option Time
  purgeBefore : Option String

def fire (now : Now) (piiRetention retention : ℤ) : Fired where
  redactBefore := if 0 < piiRetention then some (now.before piiRetention.toNat) else none
  purgeBefore := if 0 < retention then some (canonicalTS (now.before retention.toNat)) else none

/-- The rows that `Purge` deletes, by their timestamps. -/
def deleted (now : Now) (retention : ℤ) (rows : List String) : List String :=
  match (fire now 0 retention).purgeBefore with
  | some cutoff => rows.filter (fun ts => decide (ts < cutoff))
  | none => []

/-- The cutoff of a period. -/
theorem purgeBefore_eq (now : Now) {d : ℕ} (hd : 0 < d) : (fire now 0 d).purgeBefore
    = some (canonicalTs (Micros.datetime ⟨(now.nanos - d) / 1000, now.before_inRange d⟩)) := by
  have hpos : (0 : ℤ) < d := by exact_mod_cast hd
  simp only [fire, if_pos hpos, Int.toNat_natCast]
  rfl

/-- A longer period deletes no more rows. -/
theorem deleted_subset (now : Now) {d e : ℕ} (hd : 0 < d) (hde : d ≤ e) (rows : List String) :
    deleted now e rows ⊆ deleted now d rows := by
  intro ts hts
  simp only [deleted, purgeBefore_eq now hd, purgeBefore_eq now (lt_of_lt_of_le hd hde),
    List.mem_filter, decide_eq_true_eq] at hts ⊢
  refine ⟨hts.1, lt_of_lt_of_le hts.2 ?_⟩
  rw [← not_lt, canonicalTs_lt_iff, Micros.datetime_lt_iff, not_lt]
  exact Nat.div_le_div_right (Nat.sub_le_sub_left hde _)

/-- The cutoff is never later than the configured period before now. -/
def CutoffKept (s : List UInt8) : Prop :=
  ∀ d n unit, parseRetentionDuration s = .ok d → IsSetting (trimSpace s) n unit → ∀ (now : Now),
    ∃ t : Micros, (fire now 0 d).purgeBefore = some (canonicalTs t.datetime)
      ∧ t.count * 1000 + n * unit.nanos ≤ now.nanos

/-- The setting `s'` deletes no more rows than `s`, if it configures a period at least as long. -/
def LongerKeepsMore (s s' : List UInt8) : Prop :=
  ∀ d n unit e m unit', parseRetentionDuration s = .ok d → IsSetting (trimSpace s) n unit →
    parseRetentionDuration s' = .ok e → IsSetting (trimSpace s') m unit' →
    n * unit.nanos ≤ m * unit'.nanos →
      ∀ (now : Now) (rows : List String), deleted now e rows ⊆ deleted now d rows

/-- What a setting that fits is parsed as. -/
theorem PeriodFits.eq_period {s : List UInt8} (hfits : PeriodFits s) {d : ℤ}
    (hok : parseRetentionDuration s = .ok d) {n : ℕ} {unit : RetentionUnit}
    (hset : IsSetting (trimSpace s) n unit) :
    d = ((n * unit.nanos : ℕ) : ℤ) ∧ 0 < n * unit.nanos ∧ n * unit.nanos < 2 ^ 63 := by
  have hnanos : 0 < unit.nanos := by cases unit <;> decide
  rcases (retentionExact_iff s).2 hfits d hok with ⟨hblank, -⟩ | ⟨m, unit', hset', rfl⟩
  · exact absurd hblank hset.ne_nil
  · obtain ⟨rfl, rfl⟩ := hset.unique hset'
    obtain ⟨k, unit', hset', hlt, -⟩ := (parseRetentionDuration_eq_ok_iff hset.ne_nil).1 hok
    obtain ⟨rfl, rfl⟩ := hset.unique hset'
    exact ⟨by push_cast; rfl, Nat.mul_pos hset.positive hnanos, hfits n unit hset hlt⟩

/-- **Retention durations are exact if and only if the period fits an `int64`**, and then the cutoff
    is never too late and a longer setting never deletes more. -/
theorem retention_exact_iff (s : List UInt8) : (RetentionExact s ↔ PeriodFits s)
    ∧ (PeriodFits s → CutoffKept s ∧ ∀ s', PeriodFits s' → LongerKeepsMore s s') := by
  refine ⟨retentionExact_iff s, fun hfits => ⟨?_, ?_⟩⟩
  · intro d n unit hok hset now
    obtain ⟨rfl, hpos, hlt⟩ := hfits.eq_period hok hset
    refine ⟨_, purgeBefore_eq now hpos, ?_⟩
    have hle : n * unit.nanos ≤ now.nanos := hlt.le.trans now.late
    calc (now.nanos - n * unit.nanos) / 1000 * 1000 + n * unit.nanos
        ≤ now.nanos - n * unit.nanos + n * unit.nanos :=
          Nat.add_le_add_right (Nat.div_mul_le_self _ _) _
      _ = now.nanos := Nat.sub_add_cancel hle
  · intro s' hfits' d n unit e m unit' hok hset hok' hset' hle now rows
    obtain ⟨rfl, hpos, -⟩ := hfits.eq_period hok hset
    obtain ⟨rfl, -, -⟩ := hfits'.eq_period hok' hset'
    exact deleted_subset now hpos hle rows

/-- `7d`. -/
theorem retention_exact_week : RetentionExact (Utf8Order.bytes "7d".toList)
    ∧ CutoffKept (Utf8Order.bytes "7d".toList) := by
  have htrim : trimSpace (Utf8Order.bytes "7d".toList) = [55] ++ [100] := by decide +kernel
  have hset : IsSetting (trimSpace (Utf8Order.bytes "7d".toList)) 7 .day := by
    refine ⟨⟨[55], 100, htrim, ⟨[], [55], Or.inl rfl, by decide, by decide, by decide, rfl⟩, ?_⟩, ?_⟩
    · decide
    · decide
  have hfits : PeriodFits (Utf8Order.bytes "7d".toList) := by
    intro n unit hset' _
    obtain ⟨rfl, rfl⟩ := hset.unique hset'
    decide
  exact ⟨(retention_exact_iff _).1.2 hfits, ((retention_exact_iff _).2 hfits).1⟩

/-- A clock. -/
def Now.sample : Now := ⟨2 ^ 63, le_rfl, by decide +kernel⟩

/-- An hour before it. -/
def Now.sampleHourAgo : Micros := ⟨(2 ^ 63 - 3600000000000) / 1000, by decide +kernel⟩

/-- `213504d`, about 584 years, is parsed as less than half an hour: a row of an hour ago is
    deleted. -/
theorem retention_wraps :
    parseRetentionDuration (Utf8Order.bytes "213504d".toList) = .ok 1526290448384
      ∧ 213504 * RetentionUnit.day.nanos = 18446745600000000000
      ∧ deleted Now.sample 1526290448384 [canonicalTs Now.sampleHourAgo.datetime]
        = [canonicalTs Now.sampleHourAgo.datetime] := by
  refine ⟨by decide +kernel, by decide, ?_⟩
  have hcutoff : (fire Now.sample 0 1526290448384).purgeBefore = _ :=
    purgeBefore_eq Now.sample (show 0 < 1526290448384 by decide)
  have hearlier : canonicalTs Now.sampleHourAgo.datetime < canonicalTs (Micros.datetime
      ⟨(Now.sample.nanos - 1526290448384) / 1000, Now.sample.before_inRange 1526290448384⟩) := by
    rw [canonicalTs_lt_iff, Micros.datetime_lt_iff]
    decide +kernel
  rw [deleted, hcutoff]
  simp only [List.filter_cons, List.filter_nil, decide_eq_true hearlier, if_true]

end Fasten.Go
