import OkeOS.ByteStrings
import OkeOS.MachineCore

/-!
`memmove` of `lib/mem.cpp`, which moves byte by byte, in the order that the overlap asks for.
-/

namespace OkeOS

open ByteMemory

/-- The first rounds of the ascending loop. -/
def moveUp (mem : Memory) (dest src : Nat) : Nat → Memory
  | 0 => mem
  | i + 1 =>
      let mem := moveUp mem dest src i
      writeByte mem (add64 dest i) (mem (add64 src i))

/-- The descending loop from its counter on. -/
def moveDown (mem : Memory) (dest src : Nat) : Nat → Memory
  | 0 => mem
  | i + 1 => moveDown (writeByte mem (add64 dest i) (mem (add64 src i))) dest src i

/-- The result is `dest`, with the memory. -/
def memmove (mem : Memory) (dest src n : Nat) : Nat × Memory :=
  if src > dest then (dest, moveUp mem dest src n)
  else if src < dest then (dest, moveDown mem dest src n)
  else (dest, mem)

section

variable {dest src n : Nat}

theorem moveUp_eq (mem : Memory) (lower : dest ≤ src) (destFits : dest + n ≤ 2 ^ 64)
    (srcFits : src + n ≤ 2 ^ 64) : moveUp mem dest src n = moved mem dest src n := by
  induction n with
  | zero => exact (moved_none mem).symm
  | succ i ih =>
      have rounds := ih (by omega) (by omega)
      rw [moveUp, rounds, add64_of_lt (by omega), add64_of_lt (by omega)]
      exact moved_last mem lower

theorem moveDown_eq (mem : Memory) (higher : src ≤ dest) (destFits : dest + n ≤ 2 ^ 64)
    (srcFits : src + n ≤ 2 ^ 64) : moveDown mem dest src n = moved mem dest src n := by
  induction n generalizing mem with
  | zero => exact (moved_none mem).symm
  | succ i ih =>
      rw [moveDown, add64_of_lt (by omega), add64_of_lt (by omega), ih _ (by omega) (by omega)]
      exact moved_first mem higher

theorem memmove_eq (mem : Memory) (destFits : dest + n ≤ 2 ^ 64) (srcFits : src + n ≤ 2 ^ 64) :
    memmove mem dest src n = (dest, moved mem dest src n) := by
  rw [memmove]
  split
  · rename_i above
    rw [moveUp_eq mem (Nat.le_of_lt above) destFits srcFits]
  · split
    · rename_i below
      rw [moveDown_eq mem (Nat.le_of_lt below) destFits srcFits]
    · rename_i notAbove notBelow
      obtain rfl : src = dest := by omega
      rw [moved_same]

/-- Whatever the overlap, the bytes of the source arrive and nothing else changes. -/
theorem memmove_moves (mem : Memory) (destFits : dest + n ≤ 2 ^ 64) (srcFits : src + n ≤ 2 ^ 64) :
    (memmove mem dest src n).1 = dest ∧
      (∀ i < n, (memmove mem dest src n).2 (dest + i) = mem (src + i)) ∧
      ∀ address, address < dest ∨ dest + n ≤ address →
        (memmove mem dest src n).2 address = mem address := by
  rw [memmove_eq mem destFits srcFits]
  exact ⟨rfl, fun _ inside => moved_inside mem inside, fun _ outside => moved_outside mem outside⟩

end

/-- A move by one byte to the end of the address space: source and destination overlap. -/
theorem memmove_moves_overlap :
    (memmove UInt8.ofNat (2 ^ 64 - 3) (2 ^ 64 - 4) 3).1 = 2 ^ 64 - 3 ∧
      (memmove UInt8.ofNat (2 ^ 64 - 3) (2 ^ 64 - 4) 3).2 (2 ^ 64 - 3 + 2) =
        UInt8.ofNat (2 ^ 64 - 4 + 2) := by
  obtain ⟨result, copied, _⟩ := @memmove_moves (2 ^ 64 - 3) (2 ^ 64 - 4) 3 UInt8.ofNat (by decide)
    (by decide)
  exact ⟨result, copied 2 (by decide)⟩

end OkeOS
