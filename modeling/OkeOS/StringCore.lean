import OkeOS.MachineCore

/-!
`lib/string.cpp`: printing numbers into a buffer.  A `char` is a byte; a buffer is the list
of its bytes.
-/

namespace OkeOS

/-- A NUL-terminated string, without the terminator. -/
structure CString where
  chars : List UInt8
  noNul : 0 ∉ chars

/-- The string at the start of a buffer. -/
def CString.ofBuffer (buffer : List UInt8) : CString where
  chars := buffer.takeWhile (· ≠ 0)
  noNul := fun member => by
    have nonzero := List.all_eq_true.mp List.all_takeWhile 0 member
    simp at nonzero

def text (literal : String) : List UInt8 := literal.toList.map Char.toUInt8

def strlen (buffer : List UInt8) : Nat := (CString.ofBuffer buffer).chars.length

/-- Copy `n` bytes of `src` into `dest` at `offset`. -/
def memcpyBuffer (dest : List UInt8) (offset : Nat) (src : List UInt8) : Nat → List UInt8
  | 0 => dest
  | n + 1 => (memcpyBuffer dest offset src n).set (offset + n) (src.getD n 0)

def digitTable : List UInt8 :=
  text "zyxwvutsrqponmlkjihgfedcba9876543210123456789abcdefghijklmnopqrstuvwxyz"

theorem natAbs_tdiv_lt {base : Nat} (large : 2 ≤ base) {value : Int}
    (more : value.tdiv base ≠ 0) : (value.tdiv base).natAbs < value.natAbs := by
  have nonzero : value ≠ 0 := by
    rintro rfl
    simp at more
  have positive := Int.natAbs_pos.mpr nonzero
  rw [Int.natAbs_tdiv, Int.natAbs_natCast]
  exact Nat.div_lt_self positive large

/-- The `do` loop that writes the digits, the last digit first. -/
def digitLoop (base : Nat) (large : 2 ≤ base) (value : Int) : List UInt8 :=
  let digit := digitTable.getD (35 + value.tmod base).toNat 0
  if value.tdiv base = 0 then [digit]
  else digit :: digitLoop base large (value.tdiv base)
termination_by value.natAbs
decreasing_by exact natAbs_tdiv_lt large ‹_›

/-- The loop that turns the bytes from `low` to `ptr` around in place. -/
def invert (str : List UInt8) (low ptr : Nat) : List UInt8 :=
  if low < ptr then
    invert ((str.set low (str.getD ptr 0)).set ptr (str.getD low 0)) (low + 1) (ptr - 1)
  else str
termination_by ptr - low

/-- The bytes that `itoa` leaves at `str`, the terminator included. -/
def itoa (value base : Int) : List UInt8 :=
  if supported : 2 ≤ base ∧ base ≤ 36 then
    let sign := if value < 0 ∧ base = 10 then ['-'.toUInt8] else []
    let str := sign ++ digitLoop base.toNat (by omega) value ++ [0]
    invert str sign.length (str.length - 2)
  else [0]

/-- The bytes that `uitoa` leaves at `str`, the terminator included. -/
def uitoa (value base : Nat) : List UInt8 :=
  if supported : 2 ≤ base ∧ base ≤ 36 then
    let str := digitLoop base supported.1 value ++ [0]
    invert str 0 (str.length - 2)
  else [0]

end OkeOS
