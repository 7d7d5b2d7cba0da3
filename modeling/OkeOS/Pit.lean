import Mathlib.Tactic.Common
import OkeOS.MachineCore

/-!
The programmable interval timer of `sched/pit.cpp`: its divisor, its frequency and the clock
that it drives.
-/

namespace OkeOS

namespace PIT

def baseFrequency : UInt64 := 1193182

/-- The variables of the timer, and the bytes that have been written to ports. -/
structure State where
  timeSinceBootNs : UInt64
  divisor : UInt16
  written : List (UInt16 × UInt8)
  least : 100 ≤ divisor

def boot : State := { timeSinceBootNs := 0, divisor := 65535, written := [], least := by decide }

def outb (state : State) (port : UInt16) (value : UInt8) : State :=
  { state with written := state.written ++ [(port, value)] }

def ioWait (state : State) : State := outb state 0x80 0

/-- The first line of `setDivisor`. -/
def atLeast100 (divisor : UInt16) : UInt16 := if divisor < 100 then 100 else divisor

theorem atLeast100_toNat (divisor : UInt16) : (atLeast100 divisor).toNat = max 100 divisor.toNat := by
  rw [atLeast100]
  split
  · rename_i less
    have := UInt16.lt_iff_toNat_lt.mp less
    simp only [UInt16.reduceToNat] at this ⊢
    omega
  · rename_i notLess
    have := UInt16.le_iff_toNat_le.mp (UInt16.not_lt.mp notLess)
    simp only [UInt16.reduceToNat] at this
    omega

theorem atLeast100_least (divisor : UInt16) : 100 ≤ atLeast100 divisor := by
  rw [UInt16.le_iff_toNat_le, atLeast100_toNat]
  exact Nat.le_max_left _ _

def setDivisor (state : State) (divisor : UInt16) : State :=
  let divisor := atLeast100 divisor
  let state := { state with divisor := divisor, least := atLeast100_least _ }
  let state := outb state 0x40 (divisor &&& 0x00ff).toUInt8
  let state := ioWait state
  outb state 0x40 ((divisor &&& 0xff00) >>> 8).toUInt8

def getFrequency (state : State) : UInt64 := baseFrequency / state.divisor.toUInt64

/-- The quotient is converted to the `u16` that `setDivisor` takes.  This is for frequencies from 1
on: at 0 the division raises an exception. -/
def setFrequency (state : State) (frequency : UInt64) : State :=
  setDivisor state (baseFrequency / frequency).toUInt16

def tick (state : State) : State :=
  { state with timeSinceBootNs := state.timeSinceBootNs + 1000000000 / getFrequency state }

def ticks (state : State) : Nat → State
  | 0 => state
  | n + 1 => tick (ticks state n)

/-- The loop of `sleepNs`.  A `hlt` returns after an interrupt, with the ticks that have come in
between; the result is the number of ticks until the loop ends, with the state. -/
def sleepLoop (deadline : UInt64) (passed : Nat) (state : State) : List Nat → Option (Nat × State)
  | [] => if state.timeSinceBootNs < deadline then none else some (passed, state)
  | count :: wakeups =>
      if state.timeSinceBootNs < deadline then
        sleepLoop deadline (passed + count) (ticks state count) wakeups
      else some (passed, state)

def sleepNs (state : State) (ns : UInt64) (wakeups : List Nat) : Option (Nat × State) :=
  sleepLoop (state.timeSinceBootNs + ns) 0 state wakeups

/-! The divisor that a frequency asks for. -/

/-- What the bytes sent to the timer make up, low byte first. -/
def reloadValue (written : List (UInt16 × UInt8)) : Nat :=
  (written.filter fun byte => byte.1 = 0x40).foldr (fun byte value => byte.2.toNat + 256 * value) 0

theorem setDivisor_toNat (state : State) (divisor : UInt16) :
    (setDivisor state divisor).divisor.toNat = max 100 divisor.toNat :=
  atLeast100_toNat divisor

theorem lowByte_toNat (divisor : UInt16) : (divisor &&& 0x00ff).toUInt8.toNat = divisor.toNat % 256 := by
  have mask : divisor.toNat &&& 255 = divisor.toNat % 256 := Nat.and_two_pow_sub_one_eq_mod _ 8
  rw [UInt16.toNat_toUInt8, UInt16.toNat_and, show (0x00ff : UInt16).toNat = 255 from rfl, mask]
  omega

theorem highByte_toNat (divisor : UInt16) :
    ((divisor &&& 0xff00) >>> 8).toUInt8.toNat = divisor.toNat / 256 := by
  have bound := divisor.toNat_lt
  have shifted : (divisor.toNat &&& 65280) >>> 8 = divisor.toNat / 256 := by
    rw [Nat.shiftRight_and_distrib, Nat.shiftRight_eq_div_pow,
      show 65280 >>> 8 = 2 ^ 8 - 1 from rfl, Nat.and_two_pow_sub_one_eq_mod, Nat.mod_eq_of_lt]
    omega
  have amount : (8 : UInt16).toNat % 16 = 8 := rfl
  rw [UInt16.toNat_toUInt8, UInt16.toNat_shiftRight, UInt16.toNat_and, amount,
    show (0xff00 : UInt16).toNat = 65280 from rfl, shifted]
  omega

/-- The timer gets the divisor that is stored. -/
theorem setDivisor_programs (state : State) (divisor : UInt16) :
    ∃ sent, (setDivisor state divisor).written = state.written ++ sent ∧
      reloadValue sent = (setDivisor state divisor).divisor.toNat := by
  refine ⟨[(0x40, (atLeast100 divisor &&& 0x00ff).toUInt8), (0x80, 0),
    (0x40, ((atLeast100 divisor &&& 0xff00) >>> 8).toUInt8)], ?_, ?_⟩
  · simp [setDivisor, ioWait, outb]
  · have value (low high : UInt8) :
        reloadValue [(0x40, low), (0x80, 0), (0x40, high)] = low.toNat + 256 * high.toNat := rfl
    have stored : (setDivisor state divisor).divisor = atLeast100 divisor := rfl
    rw [value, stored, lowByte_toNat, highByte_toNat]
    omega

theorem setFrequency_toNat (state : State) (frequency : UInt64) :
    (setFrequency state frequency).divisor.toNat =
      max 100 (1193182 / frequency.toNat % 2 ^ 16) := by
  rw [setFrequency, setDivisor_toNat, UInt64.toNat_toUInt16, UInt64.toNat_div]
  rfl

theorem getFrequency_toNat (state : State) :
    (getFrequency state).toNat = 1193182 / state.divisor.toNat := by
  rw [getFrequency, UInt64.toNat_div, UInt16.toNat_toUInt64]
  rfl

/-- The quotient, kept between the divisors that the timer and the kernel allow. -/
def saturatedDivisor (frequency : Nat) : Nat := min 65535 (max 100 (1193182 / frequency))

/-- `setFrequency` stores the saturated divisor and sends it to the timer. -/
structure Saturates (state : State) (frequency : UInt64) : Prop where
  stored : (setFrequency state frequency).divisor.toNat = saturatedDivisor frequency.toNat
  programmed : ∃ sent, (setFrequency state frequency).written = state.written ++ sent ∧
    reloadValue sent = saturatedDivisor frequency.toNat

section

variable {frequency : UInt64}

theorem saturates_of_19 (state : State) (enough : 19 ≤ frequency.toNat) :
    Saturates state frequency := by
  have quotient : 1193182 / frequency.toNat ≤ 1193182 / 19 :=
    Nat.div_le_div_left enough (by decide)
  have stored : (setFrequency state frequency).divisor.toNat = saturatedDivisor frequency.toNat := by
    rw [setFrequency_toNat, saturatedDivisor, Nat.mod_eq_of_lt (by omega)]
    omega
  obtain ⟨sent, written, value⟩ := setDivisor_programs state (baseFrequency / frequency).toUInt16
  exact ⟨stored, sent, written, value.trans stored⟩

/-- Below 19 Hz the quotient does not fit 16 bits. -/
theorem saturates_iff_19 (state : State) (positive : 1 ≤ frequency.toNat) :
    Saturates state frequency ↔ 19 ≤ frequency.toNat := by
  constructor
  · intro saturates
    have truncated : ∀ frequency < 19, 1 ≤ frequency →
        max 100 (1193182 / frequency % 2 ^ 16) ≠ saturatedDivisor frequency := by decide
    by_contra less
    refine truncated frequency.toNat (by omega) positive ?_
    rw [← setFrequency_toNat state, saturates.stored]
  · exact saturates_of_19 state

theorem frequency_mono_iff_19 (state : State) (positive : 1 ≤ frequency.toNat) :
    (∀ higher, frequency ≤ higher → getFrequency (setFrequency state frequency) ≤
      getFrequency (setFrequency state higher)) ↔ 19 ≤ frequency.toNat := by
  constructor
  · intro mono
    by_contra less
    have at19 : ∀ frequency < 19, 1 ≤ frequency →
        1193182 / max 100 (1193182 / 19 % 2 ^ 16) <
          1193182 / max 100 (1193182 / frequency % 2 ^ 16) := by decide
    have step := UInt64.le_iff_toNat_le.mp (mono 19 (UInt64.le_iff_toNat_le.mpr
      (show frequency.toNat ≤ 19 by omega)))
    rw [getFrequency_toNat, getFrequency_toNat, setFrequency_toNat, setFrequency_toNat] at step
    exact absurd step (Nat.not_le.mpr (at19 frequency.toNat (by omega) positive))
  · intro enough higher above
    have aboveNat := UInt64.le_iff_toNat_le.mp above
    rw [UInt64.le_iff_toNat_le, getFrequency_toNat, getFrequency_toNat,
      (saturates_of_19 state enough).stored, (saturates_of_19 state (by omega)).stored]
    have quotients : 1193182 / higher.toNat ≤ 1193182 / frequency.toNat :=
      Nat.div_le_div_left aboveNat (by omega)
    apply Nat.div_le_div_left
    · unfold saturatedDivisor
      omega
    · unfold saturatedDivisor
      omega

/-- From 19 Hz on the divisor saturates and the frequencies are in order; below, neither is so. -/
theorem setFrequency_iff (state : State) (positive : 1 ≤ frequency) :
    (Saturates state frequency ↔ 19 ≤ frequency) ∧
      ((∀ higher, frequency ≤ higher → getFrequency (setFrequency state frequency) ≤
        getFrequency (setFrequency state higher)) ↔ 19 ≤ frequency) := by
  have positiveNat : 1 ≤ frequency.toNat := UInt64.le_iff_toNat_le.mp positive
  rw [show 19 ≤ frequency ↔ 19 ≤ frequency.toNat from UInt64.le_iff_toNat_le]
  exact ⟨saturates_iff_19 state positiveNat, frequency_mono_iff_19 state positiveNat⟩

end

theorem setFrequency_iff_hundred : Saturates boot 100 :=
  (setFrequency_iff boot (by decide)).1.mpr (by decide)

/-- A request for 18 Hz gives 1588 Hz. -/
theorem setFrequency_eighteen : ¬Saturates boot 18 ∧
    getFrequency (setFrequency boot 18) = 1588 ∧ getFrequency (setFrequency boot 19) = 19 := by
  refine ⟨fun saturates => ?_, by decide, by decide⟩
  exact absurd saturates.stored (by decide)

end PIT

end OkeOS
