import Mathlib.Algebra.Order.Field.Basic
import Mathlib.Algebra.Order.Field.Rat
import Mathlib.Tactic.FieldSimp
import Mathlib.Tactic.Linarith
import Mathlib.Tactic.NormNum.GCD
import Mathlib.Tactic.Ring
import OkeOS.Pit

/-!
The clock of the timer against the time that really passes, tick by tick and over a sleep.
-/

namespace OkeOS

namespace PIT

/-- What a tick adds to the clock, in nanoseconds. -/
def tickNs (divisor : Nat) : Nat := 1000000000 / (1193182 / divisor)

/-- What passes from one tick to the next, in nanoseconds. -/
def period (divisor : Nat) : ℚ := divisor * 1000000000 / 1193182

/-- How much a tick adds too much, in 1193182nds of a nanosecond. -/
def tickError (divisor : Nat) : ℤ := 1193182 * tickNs divisor - 1000000000 * divisor

/-- After `n` ticks the clock is less than a period away from the time that has passed. -/
def Tracks (state : State) (n : Nat) : Prop :=
  |((ticks state n).timeSinceBootNs.toNat - state.timeSinceBootNs.toNat : ℚ) -
    n * period state.divisor.toNat| < period state.divisor.toNat

/-- Whatever wakes the processor, a sleep that ends does so at most one period too early. -/
def EndsInTime (state : State) (ns : UInt64) : Prop :=
  ∀ wakeups n after, sleepNs state ns wakeups = some (n, after) →
    (ns.toNat : ℚ) - n * period state.divisor.toNat ≤ period state.divisor.toNat

/-! One tick. -/

theorem tickNs_pos {divisor : Nat} (small : divisor < 2 ^ 16) (positive : 0 < divisor) :
    0 < tickNs divisor := by
  have quotient : 1193182 / divisor ≤ 1193182 := Nat.div_le_self _ _
  have large : 18 ≤ 1193182 / divisor := by
    rw [Nat.le_div_iff_mul_le positive]
    omega
  exact Nat.div_pos (by omega) (by omega)

/-- The truncated frequency is at least 18 Hz, so that a tick adds at most one part in 18 too much. -/
theorem tickNs_le {divisor : Nat} (small : divisor < 2 ^ 16) (positive : 0 < divisor) :
    18 * (1193182 * tickNs divisor) ≤ 19 * (1000000000 * divisor) := by
  obtain ⟨frequency, frequencyEq⟩ : ∃ frequency, frequency = 1193182 / divisor := ⟨_, rfl⟩
  have large : 18 ≤ frequency := by
    rw [frequencyEq, Nat.le_div_iff_mul_le positive]
    omega
  have base : 1193182 ≤ (frequency + 1) * divisor := by
    rw [frequencyEq, Nat.add_one_mul]
    have rest := Nat.div_add_mod 1193182 divisor
    have less := Nat.mod_lt 1193182 positive
    rw [Nat.mul_comm] at rest
    omega
  have product : frequency * tickNs divisor ≤ 1000000000 := by
    rw [tickNs, ← frequencyEq]
    exact Nat.mul_div_le _ _
  have slow : 18 * tickNs divisor ≤ 1000000000 :=
    (Nat.mul_le_mul_right _ large).trans product
  calc 18 * (1193182 * tickNs divisor)
      ≤ 18 * ((frequency + 1) * divisor * tickNs divisor) :=
        Nat.mul_le_mul_left _ (Nat.mul_le_mul_right _ base)
    _ = 18 * (divisor * (frequency * tickNs divisor)) + divisor * (18 * tickNs divisor) := by ring
    _ ≤ 18 * (divisor * 1000000000) + divisor * 1000000000 :=
        Nat.add_le_add (Nat.mul_le_mul_left _ (Nat.mul_le_mul_left _ product))
          (Nat.mul_le_mul_left _ slow)
    _ = 19 * (1000000000 * divisor) := by ring

theorem ticksNs_le {divisor : Nat} (n : Nat) (small : divisor < 2 ^ 16) (positive : 0 < divisor) :
    18 * (1193182 * (n * tickNs divisor)) ≤ 19 * (n * (1000000000 * divisor)) :=
  calc 18 * (1193182 * (n * tickNs divisor))
      = n * (18 * (1193182 * tickNs divisor)) := by ring
    _ ≤ n * (19 * (1000000000 * divisor)) := Nat.mul_le_mul_left n (tickNs_le small positive)
    _ = 19 * (n * (1000000000 * divisor)) := by ring

/-- No divisor of the timer divides the base frequency, so every tick is off. -/
theorem tickError_ne_zero {divisor : Nat} (small : divisor < 2 ^ 16) (positive : 0 < divisor) :
    tickError divisor ≠ 0 := by
  intro zero
  have equal : 1193182 * tickNs divisor = 1000000000 * divisor := by
    unfold tickError at zero
    omega
  have divides : 596591 ∣ 1000000000 * divisor := by
    rw [← equal]
    exact ⟨2 * tickNs divisor, by ring⟩
  have coprime : Nat.Coprime 596591 1000000000 := by norm_num
  have large := Nat.le_of_dvd positive (coprime.dvd_of_dvd_mul_left divides)
  omega

section

variable (state : State)

theorem divisor_bounds : state.divisor.toNat < 2 ^ 16 ∧ 0 < state.divisor.toNat := by
  have least := UInt16.le_iff_toNat_le.mp state.least
  have hundred : (100 : UInt16).toNat = 100 := rfl
  exact ⟨state.divisor.toNat_lt, by omega⟩

theorem tick_toNat : (tick state).timeSinceBootNs.toNat =
    (state.timeSinceBootNs.toNat + tickNs state.divisor.toNat) % 2 ^ 64 := by
  rw [tick, UInt64.toNat_add, UInt64.toNat_div, getFrequency_toNat]
  rfl

theorem ticks_divisor (n : Nat) : (ticks state n).divisor = state.divisor := by
  induction n with
  | zero => rfl
  | succ n ih => exact ih

theorem ticks_toNat (n : Nat) : (ticks state n).timeSinceBootNs.toNat =
    (state.timeSinceBootNs.toNat + n * tickNs state.divisor.toNat) % 2 ^ 64 := by
  induction n with
  | zero =>
      rw [Nat.zero_mul, Nat.add_zero]
      exact (Nat.mod_eq_of_lt state.timeSinceBootNs.toNat_lt).symm
  | succ n ih =>
      rw [ticks, tick_toNat, ih, ticks_divisor, Nat.mod_add_mod, Nat.add_one_mul, Nat.add_assoc]

theorem ticks_add (first second : Nat) :
    ticks (ticks state first) second = ticks state (first + second) := by
  induction second with
  | zero => rfl
  | succ second ih => rw [ticks, ih, Nat.add_succ, ticks]

end

/-! Many ticks. -/

/-- The comparison with the time that passes, in 1193182nds of a nanosecond. -/
theorem near_iff (increase : ℤ) (n divisor : Nat) :
    |(increase : ℚ) - n * period divisor| < period divisor ↔
      |1193182 * increase - n * (1000000000 * divisor)| < 1000000000 * (divisor : ℤ) := by
  have scaled : (increase : ℚ) - n * period divisor =
      ((1193182 * increase - n * (1000000000 * divisor) : ℤ) : ℚ) / 1193182 := by
    rw [period]
    push_cast
    field_simp
  have bound : period divisor = ((1000000000 * (divisor : ℤ) : ℤ) : ℚ) / 1193182 := by
    rw [period]
    push_cast
    ring
  rw [scaled, bound, abs_div, abs_of_pos (show (0 : ℚ) < 1193182 by norm_num),
    div_lt_div_iff_of_pos_right (by norm_num), ← Int.cast_abs, Int.cast_lt]

theorem inTime_iff (ns n divisor : Nat) :
    (ns : ℚ) - n * period divisor ≤ period divisor ↔
      1193182 * ns ≤ (n + 1) * (1000000000 * divisor) := by
  have scaled : (n * period divisor + period divisor : ℚ) =
      (((n + 1) * (1000000000 * divisor) : Nat) : ℚ) / 1193182 := by
    rw [period]
    push_cast
    ring
  rw [sub_le_iff_le_add', scaled, le_div_iff₀ (by norm_num), ← Nat.cast_ofNat, ← Nat.cast_mul,
    Nat.cast_le, Nat.mul_comm]

/-- The clock is right as long as it has not wrapped around and the errors of the ticks together
make less than a period. -/
theorem tracks_iff (state : State) (n : Nat) : Tracks state n ↔
    state.timeSinceBootNs.toNat + n * tickNs state.divisor.toNat < 2 ^ 64 ∧
      n * |tickError state.divisor.toNat| < 1000000000 * state.divisor.toNat := by
  obtain ⟨small, positive⟩ := divisor_bounds state
  have start := state.timeSinceBootNs.toNat_lt
  have increase : ((ticks state n).timeSinceBootNs.toNat - state.timeSinceBootNs.toNat : ℚ) =
      (((ticks state n).timeSinceBootNs.toNat - state.timeSinceBootNs.toNat : ℤ) : ℚ) := by
    push_cast
    rfl
  rw [Tracks, increase, near_iff, ticks_toNat]
  generalize state.timeSinceBootNs.toNat = time at start ⊢
  generalize state.divisor.toNat = divisor at small positive ⊢
  by_cases fits : time + n * tickNs divisor < 2 ^ 64
  · have sum : 1193182 * (((time + n * tickNs divisor : Nat) : ℤ) - time) -
        n * (1000000000 * divisor) = n * tickError divisor := by
      unfold tickError
      push_cast
      ring
    rw [Nat.mod_eq_of_lt fits, sum, abs_mul, Nat.abs_cast]
    exact ⟨fun near => ⟨fits, near⟩, fun both => both.2⟩
  · -- the clock has lost `2 ^ 64` nanoseconds, far more than the ticks can add too much
    constructor
    · intro near
      have ahead := ticksNs_le n small positive
      have behind := (abs_lt.mp near).1
      have wrapped := Nat.mod_add_div (time + n * tickNs divisor) (2 ^ 64)
      have above : 1 ≤ (time + n * tickNs divisor) / 2 ^ 64 := Nat.div_pos (by omega) (by decide)
      have final := Nat.mod_lt (time + n * tickNs divisor) (show 0 < 2 ^ 64 by decide)
      have product : (n : ℤ) * (1000000000 * divisor) = ((n * (1000000000 * divisor) : Nat) : ℤ) := by
        push_cast
        rfl
      rw [product] at behind
      omega
    · intro both
      exact absurd both.1 fits

/-- Whatever the divisor, the clock is off for good after some number of ticks. -/
theorem drifts (state : State) : ∃ least, ∀ n, least ≤ n → ¬Tracks state n := by
  obtain ⟨small, positive⟩ := divisor_bounds state
  refine ⟨1000000000 * state.divisor.toNat, fun n enough tracks => ?_⟩
  have error := Int.one_le_abs (tickError_ne_zero small positive)
  have less := ((tracks_iff state n).mp tracks).2
  have more : (n : ℤ) * 1 ≤ n * |tickError state.divisor.toNat| :=
    Int.mul_le_mul_of_nonneg_left error (Int.natCast_nonneg n)
  omega

/-! A sleep. -/

/-- The loop does not go on behind its deadline, whatever wakeups would come. -/
theorem sleepLoop_past {deadline : UInt64} {state : State} (past : ¬state.timeSinceBootNs < deadline)
    (passed : Nat) (wakeups : List Nat) :
    sleepLoop deadline passed state wakeups = some (passed, state) := by
  cases wakeups with
  | nil => rw [sleepLoop, if_neg past]
  | cons count wakeups => rw [sleepLoop, if_neg past]

theorem sleepLoop_ends {deadline : UInt64} {passed n : Nat} {state after : State}
    {wakeups : List Nat} (ended : sleepLoop deadline passed state wakeups = some (n, after)) :
    ∃ count, n = passed + count ∧ after = ticks state count ∧ deadline ≤ after.timeSinceBootNs := by
  induction wakeups generalizing passed state with
  | nil =>
      by_cases before : state.timeSinceBootNs < deadline
      · rw [sleepLoop, if_pos before] at ended
        cases ended
      · rw [sleepLoop_past before] at ended
        cases ended
        exact ⟨0, rfl, rfl, UInt64.not_lt.mp before⟩
  | cons count wakeups ih =>
      by_cases before : state.timeSinceBootNs < deadline
      · rw [sleepLoop, if_pos before] at ended
        obtain ⟨later, total, rfl, past⟩ := ih ended
        rw [ticks_add] at past ⊢
        exact ⟨count + later, by omega, rfl, past⟩
      · rw [sleepLoop_past before] at ended
        cases ended
        exact ⟨0, rfl, rfl, UInt64.not_lt.mp before⟩

/-- A sleep that is woken once, after the deadline. -/
theorem sleepNs_once {state : State} {ns : UInt64} {count : Nat}
    (before : state.timeSinceBootNs < state.timeSinceBootNs + ns)
    (past : state.timeSinceBootNs + ns ≤ (ticks state count).timeSinceBootNs) :
    sleepNs state ns [count] = some (count, ticks state count) := by
  rw [sleepNs, sleepLoop, if_pos before, sleepLoop_past (UInt64.not_lt.mpr past), Nat.zero_add]

theorem sleepNs_none {state : State} {ns : UInt64}
    (past : state.timeSinceBootNs + ns ≤ state.timeSinceBootNs) :
    sleepNs state ns [] = some (0, state) :=
  sleepLoop_past (UInt64.not_lt.mpr past) 0 []

/-- The ticks after which the clock has gone on by `ns`. -/
def ticksNeeded (ns divisor : Nat) : Nat := (ns + tickNs divisor - 1) / tickNs divisor

theorem ticksNeeded_le_iff {ns n divisor : Nat} (positive : 0 < tickNs divisor) :
    ticksNeeded ns divisor ≤ n ↔ ns ≤ n * tickNs divisor := by
  rw [ticksNeeded, ← Nat.lt_succ_iff, Nat.div_lt_iff_lt_mul positive, Nat.succ_mul]
  omega

section

variable (state : State) (ns : UInt64)

/-- A deadline that is not past the end of the clock. -/
theorem endsInTime_iff_fits
    (fits : state.timeSinceBootNs.toNat + ns.toNat < 2 ^ 64) : EndsInTime state ns ↔
      (state.timeSinceBootNs.toNat +
          ticksNeeded ns.toNat state.divisor.toNat * tickNs state.divisor.toNat < 2 ^ 64 →
        1193182 * ns.toNat ≤
          (ticksNeeded ns.toNat state.divisor.toNat + 1) * (1000000000 * state.divisor.toNat)) := by
  obtain ⟨small, positive⟩ := divisor_bounds state
  have tickPositive := tickNs_pos small positive
  have deadline : (state.timeSinceBootNs + ns).toNat = state.timeSinceBootNs.toNat + ns.toNat := by
    rw [UInt64.toNat_add, Nat.mod_eq_of_lt fits]
  constructor
  · intro inTime reached
    by_cases none : ns.toNat = 0
    · rw [none, Nat.mul_zero]
      exact Nat.zero_le _
    · have needed := (ticksNeeded_le_iff tickPositive).mp
        (Nat.le_refl (ticksNeeded ns.toNat state.divisor.toNat))
      have slept := @sleepNs_once state ns (ticksNeeded ns.toNat state.divisor.toNat)
        (UInt64.lt_iff_toNat_lt.mpr (by omega))
        (UInt64.le_iff_toNat_le.mpr (by rw [ticks_toNat, Nat.mod_eq_of_lt reached]; omega))
      exact (inTime_iff _ _ _).mp (inTime _ _ _ slept)
  · intro enough wakeups n after ended
    obtain ⟨count, rfl, rfl, past⟩ := sleepLoop_ends ended
    rw [UInt64.le_iff_toNat_le, deadline, ticks_toNat] at past
    rw [Nat.zero_add, inTime_iff]
    by_cases wrapped : state.timeSinceBootNs.toNat + count * tickNs state.divisor.toNat < 2 ^ 64
    · rw [Nat.mod_eq_of_lt wrapped] at past
      have least := (ticksNeeded_le_iff tickPositive).mpr (show ns.toNat ≤ count * _ by omega)
      have reached := enough (by
        have := Nat.mul_le_mul_right (tickNs state.divisor.toNat) least
        omega)
      exact reached.trans (Nat.mul_le_mul_right _ (Nat.succ_le_succ least))
    · -- the clock has gone all the way round, which takes longer than the sleep
      have ahead := ticksNs_le count small positive
      have round : 2 ^ 64 + ns.toNat ≤ count * tickNs state.divisor.toNat := by omega
      have short := ns.toNat_lt
      rw [Nat.add_one_mul count]
      omega

/-- A deadline past the end of the clock: the sleep ends at once. -/
theorem endsInTime_iff_wraps
    (wraps : 2 ^ 64 ≤ state.timeSinceBootNs.toNat + ns.toNat) : EndsInTime state ns ↔
      1193182 * ns.toNat ≤ 1000000000 * state.divisor.toNat := by
  have start := state.timeSinceBootNs.toNat_lt
  have short := ns.toNat_lt
  constructor
  · intro inTime
    have slept := @sleepNs_none state ns (UInt64.le_iff_toNat_le.mpr (by
      rw [UInt64.toNat_add]
      omega))
    have bound := (inTime_iff _ _ _).mp (inTime _ _ _ slept)
    rwa [Nat.zero_add, Nat.one_mul] at bound
  · intro enough wakeups n after _
    rw [inTime_iff, Nat.add_one_mul n]
    omega

/-- When the clock is right, and when a sleep lasts long enough. -/
theorem clock_iff : (∀ n, Tracks state n ↔
      state.timeSinceBootNs.toNat + n * tickNs state.divisor.toNat < 2 ^ 64 ∧
        n * |tickError state.divisor.toNat| < 1000000000 * state.divisor.toNat) ∧
    (EndsInTime state ns ↔
      if state.timeSinceBootNs.toNat + ns.toNat < 2 ^ 64 then
        state.timeSinceBootNs.toNat +
            ticksNeeded ns.toNat state.divisor.toNat * tickNs state.divisor.toNat < 2 ^ 64 →
          1193182 * ns.toNat ≤
            (ticksNeeded ns.toNat state.divisor.toNat + 1) * (1000000000 * state.divisor.toNat)
      else 1193182 * ns.toNat ≤ 1000000000 * state.divisor.toNat) := by
  refine ⟨tracks_iff state, ?_⟩
  split
  · rename_i fits
    exact endsInTime_iff_fits state ns fits
  · rename_i wraps
    exact endsInTime_iff_wraps state ns (Nat.not_lt.mp wraps)

end

/-- With the divisor that the kernel has for its timer the clock is off by a period after
15269 ticks, and a sleep of five seconds ends more than a period too early. -/
theorem clock_early : ¬Tracks (setDivisor boot 100) 15269 ∧
    ¬EndsInTime (setDivisor boot 100) 5000000000 := by
  constructor
  · rw [tracks_iff]
    decide
  · rw [endsInTime_iff_fits _ _ (by decide)]
    decide

end PIT

end OkeOS
