import Mathlib.Tactic

set_option autoImplicit false

/-! # The drainer's configuration and its delays

`DrainerConfig` and `compute_backoff_val` of `fasten-core/src/drainer.rs`. A `Duration` is its number
of nanoseconds. `Duration * u32` and `Instant + Duration` panic when the result does not fit their
type, and the panic of the drain thread is `none` here. -/

namespace Fasten.Core

/-- `Duration::MAX`: `u64::MAX` seconds and 999 999 999 nanoseconds. -/
def durationMax : Nat := 2 ^ 64 * 10 ^ 9 - 1

/-- The end of `Instant`, which counts its seconds in an `i64`. -/
def instantMax : Nat := 2 ^ 63 * 10 ^ 9 - 1

/-- A reading of the monotonic clock, in the first half of its range. -/
structure Clock where
  nanos : Nat
  fits : nanos < 2 ^ 62 * 10 ^ 9
  deriving DecidableEq

def Clock.zero : Clock := ⟨0, by decide⟩

structure DrainerConfig where
  capacity : Nat
  retryInitial : Nat
  retryMax : Nat
  retryJitter : Bool
  maxAttempts : Nat
  deriving DecidableEq

/-- `DrainerConfig::default()`. -/
def DrainerConfig.default : DrainerConfig := ⟨100, 100 * 10 ^ 6, 60 * 10 ^ 9, true, 50⟩

/-- The configuration `fasten_drainer_install` makes of its arguments: `u64` milliseconds, and a
    default for each 0. -/
def installConfig (capacity retryInitialMs retryMaxMs : Fin (2 ^ 64)) (retryJitter : Bool)
    (maxAttempts : Fin (2 ^ 32)) : DrainerConfig where
  capacity := if capacity = 0 then 100 else capacity
  retryInitial := (if retryInitialMs = 0 then 100 else retryInitialMs.val) * 10 ^ 6
  retryMax := (if retryMaxMs = 0 then 60000 else retryMaxMs.val) * 10 ^ 6
  retryJitter := retryJitter
  maxAttempts := if maxAttempts = 0 then 50 else maxAttempts

/-- The factor for an attempt: `1u64 << shift`, as a `u32` that saturates. -/
def backoffFactor (attempt : Nat) : Nat := min (2 ^ min (attempt - 1) 63) (2 ^ 32 - 1)

/-- `compute_backoff_val`. `seed` is the subsecond part of the clock. -/
def computeBackoffVal (attempt initial max : Nat) (jitter : Bool) (seed : Nat) : Option Nat :=
  let base := initial * backoffFactor attempt
  if durationMax < base then none
  else
    let capped := min base max
    if !jitter then some capped
    else
      -- `as_millis() as u64`, then saturating arithmetic on `u64`
      let ms := capped / 10 ^ 6 % 2 ^ 64
      let jitterRange := ms / 5
      let j := seed % (jitterRange * 2 + 1)
      some ((min (ms + j) (2 ^ 64 - 1) - jitterRange) * 10 ^ 6)

/-- `Instant::now() + compute_backoff(..)`. -/
def backoffDeadline (cfg : DrainerConfig) (attempt : Nat) (now : Clock) (seed : Nat) : Option Nat :=
  (computeBackoffVal attempt cfg.retryInitial cfg.retryMax cfg.retryJitter seed).bind fun backoff =>
    if instantMax < now.nanos + backoff then none else some (now.nanos + backoff)

/-- No delay between two attempts overflows. -/
def DrainerConfig.BackoffFits (cfg : DrainerConfig) : Prop :=
  ∀ attempt, 1 ≤ attempt → attempt < cfg.maxAttempts →
    ∀ now seed, (backoffDeadline cfg attempt now seed).isSome

variable {attempt seed : Nat}

theorem computeBackoffVal_eq_none_iff {initial max : Nat} {jitter : Bool} :
    computeBackoffVal attempt initial max jitter seed = none
      ↔ durationMax < initial * backoffFactor attempt := by
  unfold computeBackoffVal
  dsimp only
  split_ifs with hbase <;> simp [hbase]

/-- A delay is at most the maximum, or what `u64` milliseconds hold. -/
theorem computeBackoffVal_le {initial max backoff : Nat} {jitter : Bool}
    (h : computeBackoffVal attempt initial max jitter seed = some backoff) :
    backoff ≤ max ∨ backoff ≤ 2 ^ 64 * 10 ^ 6 := by
  unfold computeBackoffVal at h
  dsimp only at h
  split_ifs at h
  · cases h
    exact Or.inl (min_le_right _ _)
  · cases h
    refine Or.inr (Nat.mul_le_mul_right _ ?_)
    have hmin := min_le_right (min (initial * backoffFactor attempt) max / 10 ^ 6 % 2 ^ 64
      + seed % (min (initial * backoffFactor attempt) max / 10 ^ 6 % 2 ^ 64 / 5 * 2 + 1)) (2 ^ 64 - 1)
    omega

/-- With delays of `u64` milliseconds only the multiplication can overflow. -/
theorem DrainerConfig.backoffFits_iff {cfg : DrainerConfig}
    (hmax : cfg.retryMax ≤ 2 ^ 64 * 10 ^ 6) :
    cfg.BackoffFits ↔ ∀ attempt, 1 ≤ attempt → attempt < cfg.maxAttempts →
      cfg.retryInitial * backoffFactor attempt ≤ durationMax := by
  refine ⟨fun h attempt h1 hlt => ?_, fun h attempt h1 hlt now seed => ?_⟩
  · by_contra hover
    have hsome := h attempt h1 hlt .zero 0
    rw [backoffDeadline, computeBackoffVal_eq_none_iff.2 (Nat.lt_of_not_le hover)] at hsome
    cases hsome
  · cases hval : computeBackoffVal attempt cfg.retryInitial cfg.retryMax cfg.retryJitter seed with
    | none => exact absurd (h attempt h1 hlt) (Nat.not_le_of_lt (computeBackoffVal_eq_none_iff.1 hval))
    | some backoff =>
      have hle : backoff ≤ 2 ^ 64 * 10 ^ 6 := by
        rcases computeBackoffVal_le hval with hle | hle
        · exact hle.trans hmax
        · exact hle
      have hnow := now.fits
      have hfits : ¬instantMax < now.nanos + backoff := by
        unfold instantMax
        omega
      rw [backoffDeadline, hval, Option.bind_some, if_neg hfits]
      rfl

theorem backoffFactor_le (attempt : Nat) : backoffFactor attempt ≤ 2 ^ 32 - 1 := min_le_right _ _

theorem DrainerConfig.backoffFits_default : DrainerConfig.default.BackoffFits := by
  refine (DrainerConfig.backoffFits_iff (by decide)).2 fun attempt _ _ => ?_
  calc DrainerConfig.default.retryInitial * backoffFactor attempt
      ≤ 100 * 10 ^ 6 * (2 ^ 32 - 1) := Nat.mul_le_mul_left _ (backoffFactor_le attempt)
    _ ≤ durationMax := by decide

/-! ## The specified delays

The specification gives the delay after a failed attempt in exact arithmetic, doubled with each attempt
up to the maximum and moved by at most a fifth when there is jitter. The factor of the code saturates
at `u32::MAX`, before the delay need have reached the maximum. -/

/-- The delay after a failed attempt, without jitter. -/
def DrainerConfig.delay (cfg : DrainerConfig) (attempt : Nat) : Nat :=
  min (cfg.retryInitial * 2 ^ (attempt - 1)) cfg.retryMax

/-- The delay the drainer waits, for a subsecond part of the clock. -/
def DrainerConfig.backoff (cfg : DrainerConfig) (attempt seed : Nat) : Option Nat :=
  computeBackoffVal attempt cfg.retryInitial cfg.retryMax cfg.retryJitter seed

structure DrainerConfig.BackoffAsSpecified (cfg : DrainerConfig) : Prop where
  total : ∀ attempt, 1 ≤ attempt → ∀ seed < 10 ^ 9, cfg.backoff attempt seed ≠ none
  eq_delay : cfg.retryJitter = false → ∀ attempt, 1 ≤ attempt → ∀ seed < 10 ^ 9,
    ∀ v ∈ cfg.backoff attempt seed, v = cfg.delay attempt
  mono : cfg.retryJitter = false → ∀ attempt later, 1 ≤ attempt → attempt ≤ later →
    ∀ seed < 10 ^ 9, ∀ seed' < 10 ^ 9, ∀ v ∈ cfg.backoff attempt seed,
      ∀ v' ∈ cfg.backoff later seed', v ≤ v'
  /-- within 20% -/
  near : cfg.retryJitter = true → ∀ attempt, 1 ≤ attempt → ∀ seed < 10 ^ 9,
    ∀ v ∈ cfg.backoff attempt seed,
      4 * cfg.delay attempt ≤ 5 * v ∧ 5 * v ≤ 6 * cfg.delay attempt

/-- The delay at the largest factor. -/
def DrainerConfig.top (cfg : DrainerConfig) : Nat := cfg.retryInitial * (2 ^ 32 - 1)

/-- The largest factor makes a `Duration`, and takes the delay as far as the maximum; with jitter the
    smallest delay at that factor may be a fifth short of it. -/
def DrainerConfig.FactorSuffices (cfg : DrainerConfig) : Prop :=
  cfg.top ≤ durationMax ∧
    if cfg.retryJitter then
      4 * cfg.retryMax ≤ 5 * ((cfg.top / 10 ^ 6 - cfg.top / 10 ^ 6 / 5) * 10 ^ 6)
    else cfg.retryMax ≤ cfg.top

instance (cfg : DrainerConfig) : Decidable cfg.FactorSuffices :=
  inferInstanceAs (Decidable (_ ∧ _))

/-- The delays are positive numbers of milliseconds, which fit `u64`. -/
structure DrainerConfig.InMillis (cfg : DrainerConfig) : Prop where
  initial_pos : 0 < cfg.retryInitial
  initial_dvd : 10 ^ 6 ∣ cfg.retryInitial
  max_dvd : 10 ^ 6 ∣ cfg.retryMax
  max_lt : cfg.retryMax < 2 ^ 64 * 10 ^ 6

theorem installConfig_inMillis (capacity retryInitialMs retryMaxMs : Fin (2 ^ 64))
    (retryJitter : Bool) (maxAttempts : Fin (2 ^ 32)) :
    (installConfig capacity retryInitialMs retryMaxMs retryJitter maxAttempts).InMillis := by
  have hmax := retryMaxMs.isLt
  refine ⟨?_, Nat.dvd_mul_left _ _, Nat.dvd_mul_left _ _, Nat.mul_lt_mul_of_pos_right ?_ (by norm_num)⟩
  · simp only [installConfig]
    split_ifs with h
    · norm_num
    · exact Nat.mul_pos (Nat.pos_of_ne_zero fun h0 => h (Fin.ext h0)) (by norm_num)
  · split_ifs
    · norm_num
    · exact hmax

theorem backoffFactor_eq_two_pow (h : attempt ≤ 32) :
    backoffFactor attempt = 2 ^ (attempt - 1) := by
  have hle : 2 ^ (attempt - 1) ≤ 2 ^ 31 := Nat.pow_le_pow_right (by norm_num) (by omega)
  rw [backoffFactor, min_eq_left (by omega : attempt - 1 ≤ 63)]
  omega

theorem backoffFactor_saturated (h : 33 ≤ attempt) : backoffFactor attempt = 2 ^ 32 - 1 := by
  have hle : 2 ^ 32 ≤ 2 ^ min (attempt - 1) 63 := Nat.pow_le_pow_right (by norm_num) (by omega)
  rw [backoffFactor]
  omega

theorem backoffFactor_le_two_pow (attempt : Nat) : backoffFactor attempt ≤ 2 ^ (attempt - 1) :=
  (min_le_left _ _).trans (Nat.pow_le_pow_right (by norm_num) (min_le_left _ _))

namespace DrainerConfig

variable {cfg : DrainerConfig}

/-- The delay before jitter, as the code computes it. -/
def capped (cfg : DrainerConfig) (attempt : Nat) : Nat :=
  min (cfg.retryInitial * backoffFactor attempt) cfg.retryMax

theorem capped_le_delay (attempt : Nat) : cfg.capped attempt ≤ cfg.delay attempt :=
  min_le_min_right _ (Nat.mul_le_mul_left _ (backoffFactor_le_two_pow attempt))

/-- The delay is the specified one, or the factor is at its largest. -/
theorem capped_eq (attempt : Nat) :
    cfg.capped attempt = cfg.delay attempt ∨ cfg.capped attempt = min cfg.top cfg.retryMax := by
  rcases Nat.lt_or_ge 32 attempt with hlt | hle
  · exact Or.inr (by rw [capped, backoffFactor_saturated hlt, top])
  · exact Or.inl (by rw [capped, backoffFactor_eq_two_pow hle, delay])

theorem delay_mono {later : Nat} (h : attempt ≤ later) : cfg.delay attempt ≤ cfg.delay later :=
  min_le_min_right _ (Nat.mul_le_mul_left _ (Nat.pow_le_pow_right (by norm_num) (by omega)))

/-- After enough attempts the delay is the maximum. -/
theorem InMillis.delay_eq_max (hcfg : cfg.InMillis) :
    cfg.delay (cfg.retryMax + 33) = cfg.retryMax := by
  refine min_eq_right ?_
  calc cfg.retryMax ≤ cfg.retryMax + 32 := Nat.le_add_right _ _
    _ ≤ 2 ^ (cfg.retryMax + 33 - 1) := Nat.lt_two_pow_self.le
    _ ≤ cfg.retryInitial * 2 ^ (cfg.retryMax + 33 - 1) :=
        Nat.le_mul_of_pos_left _ hcfg.initial_pos

theorem backoff_eq_none_iff :
    cfg.backoff attempt seed = none ↔ durationMax < cfg.retryInitial * backoffFactor attempt :=
  computeBackoffVal_eq_none_iff

theorem backoff_of_plain {v : Nat} (hjitter : cfg.retryJitter = false)
    (h : v ∈ cfg.backoff attempt seed) : v = cfg.capped attempt := by
  rw [Option.mem_def, backoff, computeBackoffVal, hjitter] at h
  dsimp only at h
  split_ifs at h with hover hplain
  · exact (Option.some.inj h).symm
  · exact absurd rfl hplain

/-- With jitter the delay is within a fifth, in whole milliseconds, of the delay without. -/
theorem InMillis.backoff_of_jitter {v : Nat} (hcfg : cfg.InMillis)
    (hjitter : cfg.retryJitter = true) (h : v ∈ cfg.backoff attempt seed) :
    ∃ ms, cfg.capped attempt = ms * 10 ^ 6 ∧ (ms - ms / 5) * 10 ^ 6 ≤ v
      ∧ v ≤ (ms + ms / 5) * 10 ^ 6 ∧ (seed = 0 → v = (ms - ms / 5) * 10 ^ 6) := by
  obtain ⟨ms, hms⟩ : 10 ^ 6 ∣ cfg.capped attempt := by
    rcases min_choice (cfg.retryInitial * backoffFactor attempt) cfg.retryMax with hmin | hmin
    · rw [capped, hmin]
      exact hcfg.initial_dvd.mul_right _
    · rw [capped, hmin]
      exact hcfg.max_dvd
  have hle : cfg.capped attempt ≤ cfg.retryMax := min_le_right _ _
  have hlt := hcfg.max_lt
  have hms64 : ms < 2 ^ 64 := by omega
  refine ⟨ms, by omega, ?_⟩
  rw [Option.mem_def, backoff, computeBackoffVal, hjitter] at h
  dsimp only at h
  split_ifs at h with hover hfalse
  · cases hfalse
  · rw [← capped, hms, Nat.mul_div_cancel_left _ (by norm_num), Nat.mod_eq_of_lt hms64] at h
    have hj : seed % (ms / 5 * 2 + 1) < ms / 5 * 2 + 1 := Nat.mod_lt _ (by omega)
    have hzero : seed = 0 → seed % (ms / 5 * 2 + 1) = 0 := fun h => by rw [h, Nat.zero_mod]
    obtain rfl := Option.some.inj h
    generalize seed % (ms / 5 * 2 + 1) = j at hj hzero ⊢
    refine ⟨by omega, by omega, fun h0 => ?_⟩
    have := hzero h0
    congr 1
    omega

/-- **The largest factor decides.** If it overflows no `Duration` and reaches the maximum, all delays
    are as specified. -/
theorem InMillis.backoffAsSpecified (hcfg : cfg.InMillis) (h : cfg.FactorSuffices) :
    cfg.BackoffAsSpecified := by
  obtain ⟨hfits, hreaches⟩ := h
  have hplain : cfg.retryJitter = false → ∀ attempt seed, ∀ v ∈ cfg.backoff attempt seed,
      v = cfg.delay attempt := by
    intro hjitter attempt seed v hv
    rw [hjitter, if_neg Bool.false_ne_true] at hreaches
    have hle := cfg.capped_le_delay attempt
    have hmax : cfg.delay attempt ≤ cfg.retryMax := min_le_right _ _
    rw [backoff_of_plain hjitter hv]
    rcases cfg.capped_eq attempt with heq | heq <;> omega
  refine ⟨fun attempt _ seed _ hnone => ?_, fun hjitter attempt _ seed _ => hplain hjitter attempt seed,
    fun hjitter attempt later _ hlater seed _ seed' _ v hv v' hv' => ?_,
    fun hjitter attempt _ seed _ v hv => ?_⟩
  · have hle : cfg.retryInitial * backoffFactor attempt ≤ cfg.top :=
      Nat.mul_le_mul_left _ (backoffFactor_le attempt)
    exact absurd (backoff_eq_none_iff.1 hnone) (by omega)
  · rw [hplain hjitter attempt seed v hv, hplain hjitter later seed' v' hv']
    exact delay_mono hlater
  · rw [hjitter, if_pos rfl] at hreaches
    obtain ⟨ms, hms, hlow, hhigh, -⟩ := hcfg.backoff_of_jitter hjitter hv
    have hle := cfg.capped_le_delay attempt
    have hmax : cfg.delay attempt ≤ cfg.retryMax := min_le_right _ _
    refine ⟨?_, by omega⟩
    rcases cfg.capped_eq attempt with heq | heq
    · omega
    · -- the largest factor: the smallest delay there is near enough to the maximum
      rcases Nat.le_total cfg.top cfg.retryMax with htop | htop
      · rw [min_eq_left htop] at heq
        have htms : cfg.top / 10 ^ 6 = ms := by omega
        rw [htms] at hreaches
        omega
      · rw [min_eq_right htop] at heq
        omega

/-- Late attempts need the largest factor to reach the maximum. -/
theorem InMillis.factorSuffices (hcfg : cfg.InMillis) (h : cfg.BackoffAsSpecified) :
    cfg.FactorSuffices := by
  have hlate : cfg.capped (cfg.retryMax + 33) = min cfg.top cfg.retryMax := by
    rw [capped, backoffFactor_saturated (Nat.le_add_left _ _), top]
  have hdelay := hcfg.delay_eq_max
  obtain ⟨v, hv⟩ := Option.ne_none_iff_exists'.1
    (h.total (cfg.retryMax + 33) (by omega) 0 (by norm_num))
  have hfits : cfg.top ≤ durationMax := by
    by_contra hover
    rw [backoff_eq_none_iff.2 ?_] at hv
    · cases hv
    · rw [backoffFactor_saturated (Nat.le_add_left _ _)]
      exact Nat.lt_of_not_le hover
  refine ⟨hfits, ?_⟩
  split_ifs with hjitter
  · obtain ⟨ms, hms, -, -, hzero⟩ := hcfg.backoff_of_jitter hjitter hv
    have hnear := (h.near hjitter _ (by omega) 0 (by norm_num) v hv).1
    have hle : ms * 10 ^ 6 ≤ cfg.top := by omega
    have hms' : ms ≤ cfg.top / 10 ^ 6 := (Nat.le_div_iff_mul_le (by norm_num)).2 hle
    have hv' := hzero rfl
    omega
  · have hplain : cfg.retryJitter = false := by simpa using hjitter
    have hexact := h.eq_delay hplain _ (by omega) 0 (by norm_num) v hv
    rw [backoff_of_plain hplain hv] at hexact
    omega

end DrainerConfig

/-- **The delays are as specified exactly if the largest factor suffices**, for every configuration
    `fasten_drainer_install` makes. -/
theorem installConfig_backoffAsSpecified_iff (capacity retryInitialMs retryMaxMs : Fin (2 ^ 64))
    (retryJitter : Bool) (maxAttempts : Fin (2 ^ 32)) :
    (installConfig capacity retryInitialMs retryMaxMs retryJitter maxAttempts).BackoffAsSpecified
      ↔ (installConfig capacity retryInitialMs retryMaxMs retryJitter maxAttempts).FactorSuffices :=
  have hcfg := installConfig_inMillis capacity retryInitialMs retryMaxMs retryJitter maxAttempts
  ⟨hcfg.factorSuffices, hcfg.backoffAsSpecified⟩

/-- The defaults of `fasten_drainer_install` satisfy it. -/
theorem installConfig_backoffAsSpecified_default :
    (installConfig 0 0 0 true 0).BackoffAsSpecified :=
  (installConfig_backoffAsSpecified_iff 0 0 0 true 0).2 (by decide)

/-- The largest first delay overflows `Duration` at the 11th attempt, though the maximum is a minute. -/
theorem installConfig_backoff_overflows :
    ¬(installConfig 0 (Fin.last _) 0 false 0).BackoffAsSpecified := by
  intro h
  exact h.total 11 (by decide) 0 (by decide) (by decide)

/-- A first delay of 1 ms never gets to a maximum of 2^33 ms. -/
example : (installConfig 0 1 (2 ^ 33) false 0).backoff 40 0
    ≠ some ((installConfig 0 1 (2 ^ 33) false 0).delay 40) := by decide

end Fasten.Core
