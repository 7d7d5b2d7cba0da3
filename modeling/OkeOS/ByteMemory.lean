import Mathlib.Logic.Function.Basic
import Mathlib.Tactic.Ring

/-!
Byte-addressed memory with little-endian words of any width.  A memory is a
function from addresses to bytes; the lemmas say which bytes a store changes and
what a load sees after one.
-/

namespace ByteMemory

abbrev Memory := Nat → UInt8

def writeByte (memory : Memory) (address : Nat) (byte : UInt8) : Memory :=
  Function.update memory address byte

/-- The little-endian value of the `width` bytes at `address`. -/
def load (memory : Memory) (address : Nat) : Nat → Nat
  | 0 => 0
  | width + 1 => (memory address).toNat + 256 * load memory (address + 1) width

/-- Store the low `width` bytes of `value` at `address`, least significant first. -/
def store (memory : Memory) (address : Nat) : Nat → Nat → Memory
  | 0, _ => memory
  | width + 1, value =>
      store (writeByte memory address (UInt8.ofNat value)) (address + 1) width (value / 256)

/-- Set `count` bytes from `address` on to `byte`. -/
def fill (memory : Memory) (address : Nat) (byte : UInt8) : Nat → Memory
  | 0 => memory
  | count + 1 => writeByte (fill memory address byte count) (address + count) byte

theorem writeByte_same (memory : Memory) (address : Nat) (byte : UInt8) :
    writeByte memory address byte address = byte := by
  simp [writeByte]

theorem writeByte_other (memory : Memory) {address other : Nat} (byte : UInt8)
    (different : other ≠ address) :
    writeByte memory address byte other = memory other := by
  simp [writeByte, different]

theorem store_outside (memory : Memory) (address width value other : Nat)
    (outside : other < address ∨ address + width ≤ other) :
    store memory address width value other = memory other := by
  induction width generalizing memory address value with
  | zero => rfl
  | succ width ih =>
      rw [store, ih _ _ _ (by omega)]
      exact writeByte_other memory _ (by omega)

theorem fill_apply (memory : Memory) (address : Nat) (byte : UInt8) (count other : Nat) :
    fill memory address byte count other =
      if address ≤ other ∧ other < address + count then byte else memory other := by
  induction count with
  | zero =>
      rw [fill, if_neg (by omega)]
  | succ count ih =>
      rw [fill]
      by_cases last : other = address + count
      · subst last
        rw [writeByte_same, if_pos (by omega)]
      · rw [writeByte_other _ _ last, ih]
        by_cases inside : address ≤ other ∧ other < address + count
        · rw [if_pos inside, if_pos (by omega)]
        · rw [if_neg inside, if_neg (by omega)]

theorem load_congr {first second : Memory} {address width : Nat}
    (agree : ∀ other, address ≤ other → other < address + width → first other = second other) :
    load first address width = load second address width := by
  induction width generalizing address with
  | zero => rfl
  | succ width ih =>
      rw [load, load, agree address (by omega) (by omega),
        ih (fun other lower upper => agree other (by omega) (by omega))]

theorem load_lt (memory : Memory) (address width : Nat) :
    load memory address width < 256 ^ width := by
  induction width generalizing address with
  | zero => simp [load]
  | succ width ih =>
      have tail := ih (address + 1)
      have byte := (memory address).toNat_lt
      rw [load, pow_succ]
      omega

theorem load_store_same (memory : Memory) (address width value : Nat) :
    load (store memory address width value) address width = value % 256 ^ width := by
  induction width generalizing memory address value with
  | zero => simp [load, Nat.mod_one]
  | succ width ih =>
      have byte : (UInt8.ofNat value).toNat = value % 256 := by simp
      rw [store, load, ih, store_outside _ _ _ _ _ (by omega), writeByte_same, byte]
      rw [pow_succ, Nat.mul_comm (256 ^ width), Nat.mod_mul]

theorem load_store_apart (memory : Memory) (address width value other otherWidth : Nat)
    (apart : other + otherWidth ≤ address ∨ address + width ≤ other) :
    load (store memory address width value) other otherWidth = load memory other otherWidth :=
  load_congr fun target lower upper => store_outside _ _ _ _ _ (by omega)

theorem load_writeByte_apart (memory : Memory) (address : Nat) (byte : UInt8)
    (other width : Nat) (apart : other + width ≤ address ∨ address < other) :
    load (writeByte memory address byte) other width = load memory other width :=
  load_congr fun target lower upper => writeByte_other _ _ (by omega)

theorem load_zero {memory : Memory} {address width : Nat}
    (zero : ∀ other, address ≤ other → other < address + width → memory other = 0) :
    load memory address width = 0 := by
  induction width generalizing address with
  | zero => rfl
  | succ width ih =>
      rw [load, zero address (by omega) (by omega),
        ih (fun other lower upper => zero other (by omega) (by omega))]
      rfl

end ByteMemory
