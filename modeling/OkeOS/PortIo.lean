import Mathlib.Data.Nat.Find
import OkeOS.Fuel

/-!
Devices behind ports.  A device answers accesses, and between two accesses it goes on by
itself.  A driver that polls a device goes round until the device is ready.
-/

namespace PortIo

open Fuel

/-- What an access does to a device.  A read may change the device as well. -/
structure Device (δ : Type) where
  outb : δ → UInt16 → UInt8 → δ
  inb : δ → UInt16 → UInt8 × δ

/-- A device with the number of accesses so far. -/
structure Clocked (δ : Type) where
  state : δ
  now : Nat

section

variable {δ : Type}

/-- The device that takes the steps `between now` before each access. -/
def Device.clocked (device : Device δ) (between : Nat → δ → δ) : Device (Clocked δ) where
  outb clocked port value :=
    { state := device.outb (between clocked.now clocked.state) port value
      now := clocked.now + 1 }
  inb clocked port :=
    let (value, state) := device.inb (between clocked.now clocked.state) port
    (value, { state := state, now := clocked.now + 1 })

variable {ε : Type} (starved : ε) (check : δ → Bool × δ)

/-- Check until the answer is yes. -/
def await : Nat → δ → Except ε δ
  | 0, _ => .error starved
  | fuel + 1, state =>
      let (ready, state) := check state
      if ready then .ok state else await fuel state

/-- The state after checks, whatever they answer. -/
def checked : Nat → δ → δ
  | 0, state => state
  | count + 1, state => checked count (check state).2

variable {starved check}

theorem checked_succ (count : Nat) (state : δ) :
    checked check (count + 1) state = (check (checked check count state)).2 := by
  induction count generalizing state with
  | zero => rfl
  | succ count ih => exact ih (check state).2

theorem await_succ (fuel : Nat) (state : δ) :
    await starved check (fuel + 1) state =
      if (check state).1 then .ok (check state).2 else await starved check fuel (check state).2 :=
  rfl

/-- The polling ends at a check that says yes, in a state that the checks before it have kept. -/
theorem await_last (Kept : δ → Prop) {fuel : Nat} {state final : δ}
    (step : ∀ state, Kept state → Kept (check state).2) (start : Kept state)
    (run : await starved check fuel state = .ok final) :
    ∃ last, Kept last ∧ (check last).1 = true ∧ final = (check last).2 := by
  induction fuel generalizing state with
  | zero => simp [await] at run
  | succ fuel ih =>
      rw [await_succ] at run
      split at run
      · rename_i ready
        rw [Except.ok.injEq] at run
        exact ⟨state, start, ready, run.symm⟩
      · exact ih (step state start) run

/-- The fuel counts the checks up to the first that says yes. -/
theorem await_eq {count : Nat} {state : δ} (yes : (check (checked check count state)).1 = true)
    (earlier : ∀ other < count, (check (checked check other state)).1 = false) (fuel : Nat) :
    await starved check fuel state =
      if count < fuel then .ok (checked check (count + 1) state) else .error starved := by
  induction count generalizing fuel state with
  | zero =>
      cases fuel with
      | zero => rfl
      | succ fuel =>
          have ready : (check state).1 = true := yes
          rw [await_succ, if_pos ready, if_pos (by omega)]
          rfl
  | succ count ih =>
      cases fuel with
      | zero => rfl
      | succ fuel =>
          have busy : (check state).1 = false := earlier 0 (by omega)
          rw [await_succ, busy, if_neg (by decide),
            ih yes (fun other less => earlier (other + 1) (by omega)) fuel]
          simp only [Nat.add_lt_add_iff_right]
          rfl

/-- The polling ends if some check says yes. -/
theorem await_comes {state : δ} (some : ∃ count, (check (checked check count state)).1 = true) :
    ∃ final, Comes starved (fun fuel => await starved check fuel state) (.ok final) := by
  classical
  have run := @await_eq δ ε starved check (Nat.find some) state (Nat.find_spec some)
    fun other less => Bool.eq_false_iff.mpr (Nat.find_min some less)
  refine ⟨checked check (Nat.find some + 1) state, ⟨Nat.find some + 1, fun fuel enough => ?_⟩,
    fun fuel => ?_⟩
  · rw [run, if_pos (by omega)]
  · rw [run]
    split
    · exact Or.inr rfl
    · exact Or.inl rfl

/-- Otherwise it goes on for ever. -/
theorem await_never {state : δ}
    (none : ∀ count, (check (checked check count state)).1 = false) (fuel : Nat) :
    await starved check fuel state = .error starved := by
  induction fuel generalizing state with
  | zero => rfl
  | succ fuel ih =>
      have busy : (check state).1 = false := none 0
      rw [await_succ, busy]
      exact ih fun count => none (count + 1)

end

end PortIo
