import OkeOS.PitClock

/-!
`sched/timer.h` and the sleeps of `sched/pit.cpp`.  A `Timer` measures what the ticks between its
start and its stop have added to the clock, also when the clock has wrapped around and when the
divisor has changed on the way; around a sleep it shows the time asked for.
-/

namespace OkeOS

structure Timer where
  startTime : UInt64
  endTime : UInt64
deriving DecidableEq, Repr

namespace Timer

/-- `Timer()`. -/
def new (clock : PIT.State) : Timer := { startTime := clock.timeSinceBootNs, endTime := 0 }

def start (this : Timer) (clock : PIT.State) : Timer :=
  { this with startTime := clock.timeSinceBootNs }

def stop (this : Timer) (clock : PIT.State) : Timer :=
  { this with endTime := clock.timeSinceBootNs }

def getElapsedNs (this : Timer) : UInt64 := this.endTime - this.startTime

def getElapsedMicros (this : Timer) : UInt64 := this.getElapsedNs / 1000

def getElapsedMillis (this : Timer) : UInt64 := this.getElapsedMicros / 1000

def getElapsedSeconds (this : Timer) : UInt64 := this.getElapsedMillis / 1000

end Timer

namespace PIT

def sleepMicros (state : State) (micros : UInt64) (wakeups : List Nat) : Option (Nat × State) :=
  sleepNs state (micros * 1000) wakeups

def sleepMillis (state : State) (millis : UInt64) (wakeups : List Nat) : Option (Nat × State) :=
  sleepNs state (millis * 1000000) wakeups

def sleepSeconds (state : State) (seconds : UInt64) (wakeups : List Nat) : Option (Nat × State) :=
  sleepNs state (seconds * 1000000000) wakeups

/-- What happens to the clock. -/
inductive Event where
  | tick
  | setDivisor (divisor : UInt16)
  | setFrequency (frequency : UInt64)
  | sleepNs (ns : UInt64) (wakeups : List Nat)

/-- The ticks that come during an event, and the state behind it.  A sleep may go on for ever, and
`setFrequency` divides by its argument. -/
def Event.run (state : State) : Event → Option (Nat × State)
  | .tick => some (1, PIT.tick state)
  | .setDivisor divisor => some (0, PIT.setDivisor state divisor)
  | .setFrequency frequency =>
      if frequency = 0 then none else some (0, PIT.setFrequency state frequency)
  | .sleepNs ns wakeups => PIT.sleepNs state ns wakeups

/-- The nanoseconds that all the ticks stand for, each with the divisor it came under. -/
def runAll (state : State) : List Event → Option (Nat × State)
  | [] => some (0, state)
  | event :: events => do
      let (count, next) ← event.run state
      let (ns, last) ← runAll next events
      some (count * tickNs state.divisor.toNat + ns, last)

section

variable {state after : State} {n : Nat}

theorem Event.run_clock {event : Event} (ran : event.run state = some (n, after)) :
    after.timeSinceBootNs.toNat =
      (state.timeSinceBootNs.toNat + n * tickNs state.divisor.toNat) % 2 ^ 64 := by
  have unchanged := Nat.mod_eq_of_lt state.timeSinceBootNs.toNat_lt
  cases event with
  | tick =>
      simp only [Event.run, Option.some.injEq, Prod.mk.injEq] at ran
      obtain ⟨rfl, rfl⟩ := ran
      rw [Nat.one_mul]
      exact tick_toNat state
  | setDivisor divisor =>
      simp only [Event.run, Option.some.injEq, Prod.mk.injEq] at ran
      obtain ⟨rfl, rfl⟩ := ran
      rw [Nat.zero_mul, Nat.add_zero]
      exact unchanged.symm
  | setFrequency frequency =>
      rw [Event.run, Option.ite_none_left_eq_some, Option.some.injEq, Prod.mk.injEq] at ran
      obtain ⟨_, rfl, rfl⟩ := ran
      rw [Nat.zero_mul, Nat.add_zero]
      exact unchanged.symm
  | sleepNs ns wakeups =>
      obtain ⟨count, total, rfl, _⟩ := sleepLoop_ends ran
      rw [Nat.zero_add] at total
      rw [total]
      exact ticks_toNat state count

theorem runAll_clock {events : List Event} (ran : runAll state events = some (n, after)) :
    after.timeSinceBootNs.toNat = (state.timeSinceBootNs.toNat + n) % 2 ^ 64 := by
  induction events generalizing state n with
  | nil =>
      simp only [runAll, Option.some.injEq, Prod.mk.injEq] at ran
      obtain ⟨rfl, rfl⟩ := ran
      exact (Nat.mod_eq_of_lt state.timeSinceBootNs.toNat_lt).symm
  | cons event events ih =>
      obtain ⟨⟨count, next⟩, first, ran⟩ := Option.bind_eq_some_iff.mp ran
      obtain ⟨⟨ns, last⟩, later, ran⟩ := Option.bind_eq_some_iff.mp ran
      simp only [Option.some.injEq, Prod.mk.injEq] at ran
      obtain ⟨rfl, rfl⟩ := ran
      rw [ih later, Event.run_clock first, Nat.mod_add_mod, Nat.add_assoc]

end

end PIT

/-! What a timer shows. -/

namespace Timer

/-- The timer shows `ns` nanoseconds. -/
structure Shows (this : Timer) (ns : Nat) : Prop where
  nanos : this.getElapsedNs.toNat = ns
  micros : this.getElapsedMicros.toNat = ns / 1000
  millis : this.getElapsedMillis.toNat = ns / 1000000
  seconds : this.getElapsedSeconds.toNat = ns / 1000000000

theorem shows_elapsed (this : Timer) : this.Shows this.getElapsedNs.toNat := by
  have micros : this.getElapsedMicros.toNat = this.getElapsedNs.toNat / 1000 := UInt64.toNat_div _ _
  have millis : this.getElapsedMillis.toNat = this.getElapsedMicros.toNat / 1000 :=
    UInt64.toNat_div _ _
  have seconds : this.getElapsedSeconds.toNat = this.getElapsedMillis.toNat / 1000 :=
    UInt64.toNat_div _ _
  exact ⟨rfl, micros, by rw [millis, micros, Nat.div_div_eq_div_mul],
    by rw [seconds, millis, micros, Nat.div_div_eq_div_mul, Nat.div_div_eq_div_mul]⟩

theorem elapsed_toNat (this : Timer) (first last : PIT.State) {ns : Nat}
    (clock : last.timeSinceBootNs.toNat = (first.timeSinceBootNs.toNat + ns) % 2 ^ 64) :
    ((this.start first).stop last).getElapsedNs.toNat = ns % 2 ^ 64 := by
  have bound := first.timeSinceBootNs.toNat_lt
  rw [getElapsedNs, UInt64.toNat_sub]
  simp only [start, stop]
  omega

end Timer

/-- Whatever happens between the start and the stop of a timer, it shows the time of the ticks in
between, up to the 64 bits of the clock. -/
theorem timer_measures (this : Timer) {state last : PIT.State} {events : List PIT.Event} {ns : Nat}
    (ran : PIT.runAll state events = some (ns, last)) :
    ((this.start state).stop last).Shows (ns % 2 ^ 64) := by
  rw [← this.elapsed_toNat state last (PIT.runAll_clock ran)]
  exact Timer.shows_elapsed _

/-- A tick of the divisor at boot and one of the divisor 100. -/
theorem timer_measures_twoTicks :
    ∃ last, PIT.runAll PIT.boot [.tick, .setDivisor 100, .tick] = some (55555555 + 83815, last) ∧
      (((Timer.new PIT.boot).start PIT.boot).stop last).Shows (55555555 + 83815) := by
  have ran : PIT.runAll PIT.boot [.tick, .setDivisor 100, .tick] = some (55555555 + 83815,
      PIT.tick (PIT.setDivisor (PIT.tick PIT.boot) 100)) := rfl
  exact ⟨_, ran, timer_measures (Timer.new PIT.boot) ran⟩

/-! A timer around a sleep. -/

namespace PIT

section

variable {state : State} {deadline : UInt64} {most : Nat} {wakeups : List Nat}

/-- The clock stays below its end if no wakeup comes more than `most` ticks behind the one before. -/
theorem sleepLoop_stops {divisor start : Nat} (same : state.divisor.toNat = divisor)
    (each : ∀ count ∈ wakeups, count ≤ most)
    (fits : deadline.toNat + most * tickNs divisor ≤ 2 ^ 64)
    (within : state.timeSinceBootNs.toNat < deadline.toNat + most * tickNs divisor) :
    ((∃ result, sleepLoop deadline start state wakeups = some result) ↔
        deadline.toNat ≤ state.timeSinceBootNs.toNat + wakeups.sum * tickNs divisor) ∧
      ∀ n after, sleepLoop deadline start state wakeups = some (n, after) →
        deadline.toNat ≤ after.timeSinceBootNs.toNat ∧
          after.timeSinceBootNs.toNat < deadline.toNat + most * tickNs divisor := by
  induction wakeups generalizing start state with
  | nil =>
      rw [List.sum_nil, Nat.zero_mul, Nat.add_zero]
      by_cases before : state.timeSinceBootNs < deadline
      · have beforeNat := UInt64.lt_iff_toNat_lt.mp before
        rw [sleepLoop, if_pos before]
        refine ⟨⟨?_, fun past => by omega⟩, ?_⟩
        · rintro ⟨_, ended⟩
          cases ended
        · intro _ _ ended
          cases ended
      · have past := UInt64.le_iff_toNat_le.mp (UInt64.not_lt.mp before)
        rw [sleepLoop_past before]
        refine ⟨⟨fun _ => past, fun _ => ⟨_, rfl⟩⟩, fun n after ended => ?_⟩
        cases ended
        exact ⟨past, within⟩
  | cons count wakeups ih =>
      rw [List.sum_cons, Nat.add_mul]
      by_cases before : state.timeSinceBootNs < deadline
      · have beforeNat := UInt64.lt_iff_toNat_lt.mp before
        have few := Nat.mul_le_mul_right (tickNs divisor) (each count List.mem_cons_self)
        have clock : (ticks state count).timeSinceBootNs.toNat =
            state.timeSinceBootNs.toNat + count * tickNs divisor := by
          rw [ticks_toNat, same, Nat.mod_eq_of_lt (by omega)]
        rw [sleepLoop, if_pos before]
        have rest := @ih (ticks state count) (start + count) (by rw [ticks_divisor, same])
          (fun other member => each other (List.mem_cons_of_mem _ member)) (by omega)
        rw [clock, Nat.add_assoc] at rest
        exact rest
      · have past := UInt64.le_iff_toNat_le.mp (UInt64.not_lt.mp before)
        rw [sleepLoop_past before]
        refine ⟨⟨fun _ => by omega, fun _ => ⟨_, rfl⟩⟩, fun n after ended => ?_⟩
        cases ended
        exact ⟨past, within⟩

end

/-- The sleeps of `pit.h` that count in a unit of their own. -/
inductive SleepUnit where
  | micros
  | millis
  | seconds
deriving DecidableEq, Repr

def SleepUnit.ns : SleepUnit → Nat
  | .micros => 1000
  | .millis => 1000000
  | .seconds => 1000000000

def SleepUnit.sleep : SleepUnit → State → UInt64 → List Nat → Option (Nat × State)
  | .micros => sleepMicros
  | .millis => sleepMillis
  | .seconds => sleepSeconds

def SleepUnit.elapsed : SleepUnit → Timer → UInt64
  | .micros => Timer.getElapsedMicros
  | .millis => Timer.getElapsedMillis
  | .seconds => Timer.getElapsedSeconds

theorem SleepUnit.sleep_eq (unit : SleepUnit) (state : State) {value : UInt64} (wakeups : List Nat)
    (fits : value.toNat * unit.ns < 2 ^ 64) :
    ∃ ns : UInt64, ns.toNat = value.toNat * unit.ns ∧
      unit.sleep state value wakeups = sleepNs state ns wakeups := by
  cases unit with
  | micros => exact ⟨value * 1000, (UInt64.toNat_mul _ _).trans (Nat.mod_eq_of_lt fits), rfl⟩
  | millis => exact ⟨value * 1000000, (UInt64.toNat_mul _ _).trans (Nat.mod_eq_of_lt fits), rfl⟩
  | seconds => exact ⟨value * 1000000000, (UInt64.toNat_mul _ _).trans (Nat.mod_eq_of_lt fits), rfl⟩

theorem SleepUnit.elapsed_toNat (unit : SleepUnit) {timer : Timer} {ns : Nat} (shows : timer.Shows ns) :
    (unit.elapsed timer).toNat = ns / unit.ns := by
  cases unit with
  | micros => exact shows.micros
  | millis => exact shows.millis
  | seconds => exact shows.seconds

theorem SleepUnit.ns_pos (unit : SleepUnit) : 0 < unit.ns := by
  cases unit <;> decide

end PIT

open PIT

/-- A sleep ends as soon as enough ticks have come, and a timer around it shows the time asked for
and less than the ticks of one wakeup more. -/
theorem sleep_measured (unit : SleepUnit) {state : State} {value : UInt64} {wakeups : List Nat}
    {most : Nat} (atLeast : 0 < most) (each : ∀ count ∈ wakeups, count ≤ most)
    (fits : state.timeSinceBootNs.toNat + value.toNat * unit.ns +
      most * tickNs state.divisor.toNat ≤ 2 ^ 64) :
    ((∃ result, unit.sleep state value wakeups = some result) ↔
        ticksNeeded (value.toNat * unit.ns) state.divisor.toNat ≤ wakeups.sum) ∧
      ∀ (this : Timer) n after, unit.sleep state value wakeups = some (n, after) →
        ∃ ns, ((this.start state).stop after).Shows ns ∧ value.toNat * unit.ns ≤ ns ∧
          ns < value.toNat * unit.ns + most * tickNs state.divisor.toNat ∧
          value ≤ unit.elapsed ((this.start state).stop after) := by
  obtain ⟨small, positive⟩ := divisor_bounds state
  have tickPositive := tickNs_pos small positive
  have mostTicks := Nat.mul_pos atLeast tickPositive
  obtain ⟨ns, nsEq, sleepEq⟩ := unit.sleep_eq state wakeups (show value.toNat * unit.ns < 2 ^ 64 by omega)
  have deadline : (state.timeSinceBootNs + ns).toNat =
      state.timeSinceBootNs.toNat + value.toNat * unit.ns := by
    rw [UInt64.toNat_add, nsEq, Nat.mod_eq_of_lt (by omega)]
  obtain ⟨returns, ends⟩ := @sleepLoop_stops state (state.timeSinceBootNs + ns) most wakeups _ 0 rfl
    each (by omega) (by omega)
  rw [sleepEq, sleepNs]
  constructor
  · rw [returns, deadline, ticksNeeded_le_iff tickPositive]
    omega
  · intro this n after slept
    obtain ⟨reached, soon⟩ := ends n after slept
    have word := after.timeSinceBootNs.toNat_lt
    have clock : after.timeSinceBootNs.toNat = (state.timeSinceBootNs.toNat +
        (after.timeSinceBootNs.toNat - state.timeSinceBootNs.toNat)) % 2 ^ 64 := by
      omega
    have elapsed := this.elapsed_toNat state after clock
    have shows := Timer.shows_elapsed ((this.start state).stop after)
    refine ⟨_, shows, by omega, by omega, ?_⟩
    rw [UInt64.le_iff_toNat_le, unit.elapsed_toNat shows, Nat.le_div_iff_mul_le unit.ns_pos]
    omega

/-- Five seconds after boot, with a timer interrupt each time. -/
theorem sleep_measured_fiveSeconds : ∃ n after, SleepUnit.seconds.sleep boot 5 (List.replicate 91 1) =
      some (n, after) ∧
    5 ≤ (((Timer.new boot).start boot).stop after).getElapsedSeconds := by
  have measured := @sleep_measured .seconds boot 5 (List.replicate 91 1) 1 (by decide)
    (fun count member => (List.eq_of_mem_replicate member).le) (by decide)
  obtain ⟨⟨n, after⟩, slept⟩ := measured.1.mpr (by decide)
  obtain ⟨_, _, _, _, long⟩ := measured.2 (Timer.new boot) n after slept
  exact ⟨n, after, slept, long⟩

end OkeOS
