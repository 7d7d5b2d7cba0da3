import Mathlib.Data.Nat.Bitwise
import OkeOS.PfaCore

/-!
What the operations of the frame allocator do to the bits of the bitmap, to the
counters and to the rest of memory.
-/

namespace OkeOS

open ByteMemory

namespace Bitmap

/-! One byte: the bit that `get` shifts to the top is bit `7 - i` of the byte. -/

theorem topBit_fin : ∀ (byte : Fin 256) (i : Fin 8),
    ((UInt8.ofNat byte.val <<< UInt8.ofNat i.val) >>> 7 != 0) = byte.val.testBit (7 - i.val) := by
  decide +kernel

theorem mask_fin : ∀ i j : Fin 8,
    ((0x80 : UInt8) >>> UInt8.ofNat i.val).toNat.testBit (7 - j.val) = decide (i = j) := by
  decide +kernel

theorem notMask_fin : ∀ i j : Fin 8,
    (~~~((0x80 : UInt8) >>> UInt8.ofNat i.val)).toNat.testBit (7 - j.val) = decide (i ≠ j) := by
  decide +kernel

theorem topBit (byte : UInt8) (offset : Nat) :
    ((byte <<< UInt8.ofNat (offset % 8)) >>> 7 != 0) = byte.toNat.testBit (7 - offset % 8) := by
  have bits := topBit_fin ⟨byte.toNat, byte.toNat_lt⟩ ⟨offset % 8, Nat.mod_lt _ (by decide)⟩
  simpa using bits

theorem mask (offset other : Nat) :
    ((0x80 : UInt8) >>> UInt8.ofNat (offset % 8)).toNat.testBit (7 - other % 8) =
      decide (offset % 8 = other % 8) := by
  have bits := mask_fin ⟨offset % 8, Nat.mod_lt _ (by decide)⟩ ⟨other % 8, Nat.mod_lt _ (by decide)⟩
  simpa using bits

theorem notMask (offset other : Nat) :
    (~~~((0x80 : UInt8) >>> UInt8.ofNat (offset % 8))).toNat.testBit (7 - other % 8) =
      decide (offset % 8 ≠ other % 8) := by
  have bits :=
    notMask_fin ⟨offset % 8, Nat.mod_lt _ (by decide)⟩ ⟨other % 8, Nat.mod_lt _ (by decide)⟩
  simpa using bits

/-- The bit `index` behind the start of the buffer, also where it lies behind its end. -/
def bitAt (mem : Memory) (bitmap : Bitmap) (index : Nat) : Bool :=
  (mem (bitmap.buffer + index / 8)).toNat.testBit (7 - index % 8)

variable (mem : Memory) (bitmap : Bitmap)

theorem get_eq {offset : Nat} (bound : offset ≤ mul64 bitmap.size 8) :
    bitmap.get mem offset = bitmap.bitAt mem offset := by
  rw [get, if_neg (by omega)]
  exact topBit _ _

theorem get_beyond {offset : Nat} (beyond : mul64 bitmap.size 8 < offset) :
    bitmap.get mem offset = false := by
  rw [get, if_pos (by omega)]

theorem set_beyond {offset : Nat} (value : Bool) (beyond : mul64 bitmap.size 8 < offset) :
    bitmap.set mem offset value = (false, mem) := by
  rw [set, if_pos (by omega)]

theorem set_done {offset : Nat} (value : Bool) (bound : offset ≤ mul64 bitmap.size 8) :
    (bitmap.set mem offset value).1 = true := by
  rw [set, if_neg (by omega)]

theorem set_outside {offset address : Nat} (value : Bool)
    (outside : address ≠ bitmap.buffer + offset / 8) :
    (bitmap.set mem offset value).2 address = mem address := by
  unfold set
  split
  · rfl
  · cases value with
    | false => simp [writeByte_other _ _ outside]
    | true => simp [writeByte_other _ _ outside]

theorem set_byte {offset : Nat} (value : Bool) (bound : offset ≤ mul64 bitmap.size 8)
    (other : Nat) :
    ((bitmap.set mem offset value).2 (bitmap.buffer + offset / 8)).toNat.testBit (7 - other % 8) =
      if offset % 8 = other % 8 then value
      else (mem (bitmap.buffer + offset / 8)).toNat.testBit (7 - other % 8) := by
  rw [set, if_neg (by omega)]
  cases value with
  | false =>
      simp only [Bool.false_eq_true, if_false, writeByte_same, UInt8.toNat_and, Nat.testBit_and,
        notMask]
      by_cases same : offset % 8 = other % 8 <;> simp [same]
  | true =>
      simp only [if_true, writeByte_same, UInt8.toNat_or, UInt8.toNat_and, Nat.testBit_or,
        Nat.testBit_and, notMask, mask]
      by_cases same : offset % 8 = other % 8 <;> simp [same]

theorem bitAt_set {offset : Nat} (value : Bool) (bound : offset ≤ mul64 bitmap.size 8)
    (other : Nat) :
    bitmap.bitAt (bitmap.set mem offset value).2 other =
      if other = offset then value else bitmap.bitAt mem other := by
  rw [bitAt, bitAt]
  by_cases sameByte : other / 8 = offset / 8
  · rw [sameByte, set_byte mem bitmap value bound]
    by_cases sameBit : offset % 8 = other % 8
    · rw [if_pos sameBit, if_pos (by omega)]
    · rw [if_neg sameBit, if_neg (by omega)]
  · rw [set_outside mem bitmap value (by omega), if_neg (by omega)]

theorem get_set {offset : Nat} (value : Bool) (bound : offset ≤ mul64 bitmap.size 8)
    (other : Nat) :
    bitmap.get (bitmap.set mem offset value).2 other =
      if other = offset then value else bitmap.get mem other := by
  by_cases inside : other ≤ mul64 bitmap.size 8
  · rw [get_eq _ _ inside, get_eq _ _ inside, bitAt_set _ _ _ bound]
  · rw [get_beyond _ _ (by omega), get_beyond _ _ (by omega), if_neg (by omega)]

theorem get_congr {first second : Memory} {offset : Nat}
    (same : first (bitmap.buffer + offset / 8) = second (bitmap.buffer + offset / 8)) :
    bitmap.get first offset = bitmap.get second offset := by
  simp only [get, same]

end Bitmap

namespace PageFrameAllocator

/-- The bit of frame `index`. -/
def bit (state : Phys Globals) (index : Nat) : Bool := state.globals.pfaBitmap.get state.mem index

/-- The same bit in memory, whether or not the bound check lets it through. -/
def storedBit (state : Phys Globals) (index : Nat) : Bool :=
  state.globals.pfaBitmap.bitAt state.mem index

/-- The last offset that the bound check of the bitmap lets through. -/
def limit (state : Phys Globals) : Nat := mul64 state.globals.pfaBitmap.size 8

/-- The globals with new counters and a new search hint. -/
def Globals.counted (globals : Globals) (freeMemory usedMemory bitmapIdx : Nat) : Globals :=
  { globals with freeMemory := freeMemory, usedMemory := usedMemory, bitmapIdx := bitmapIdx }

section Counted

variable (globals : Globals) (freeMemory usedMemory bitmapIdx : Nat)

@[simp] theorem counted_freeMemory :
    (globals.counted freeMemory usedMemory bitmapIdx).freeMemory = freeMemory := rfl

@[simp] theorem counted_bitmapIdx :
    (globals.counted freeMemory usedMemory bitmapIdx).bitmapIdx = bitmapIdx := rfl

@[simp] theorem counted_pfaBitmap :
    (globals.counted freeMemory usedMemory bitmapIdx).pfaBitmap = globals.pfaBitmap := rfl

@[simp] theorem counted_oomPanics :
    (globals.counted freeMemory usedMemory bitmapIdx).oomPanics = globals.oomPanics := rfl

@[simp] theorem counted_hhdmOffset :
    (globals.counted freeMemory usedMemory bitmapIdx).hhdmOffset = globals.hhdmOffset := rfl

theorem storedBit_counted (mem : Memory) (index : Nat) :
    storedBit { mem := mem, globals := globals.counted freeMemory usedMemory bitmapIdx } index =
      globals.pfaBitmap.bitAt mem index := rfl

end Counted

section LockAndFree

variable (state : Phys Globals) (addr : Nat)

theorem lockPage_eq_self (taken : bit state (addr / 4096) = true ∨ limit state < addr / 4096) :
    lockPage state addr = state := by
  rcases taken with set | beyond
  · rw [bit] at set
    rw [lockPage, if_pos set]
  · simp only [lockPage, Bitmap.get_beyond _ _ beyond, Bitmap.set_beyond _ _ true beyond]
    simp

theorem lockPage_eq (clear : bit state (addr / 4096) = false)
    (bound : addr / 4096 ≤ limit state) :
    lockPage state addr =
      { mem := (state.globals.pfaBitmap.set state.mem (addr / 4096) true).2
        globals := state.globals.counted (sub64 state.globals.freeMemory 4096)
          (add64 state.globals.usedMemory 4096) state.globals.bitmapIdx } := by
  have done := Bitmap.set_done state.mem state.globals.pfaBitmap true bound
  rw [bit] at clear
  simp only [lockPage, clear, done, Globals.counted]
  simp

theorem freePage_eq_self (clear : bit state (addr / 4096) = false) :
    freePage state addr = state := by
  rw [bit] at clear
  rw [freePage, if_pos clear]

theorem bit_bound {index : Nat} (set : bit state index = true) : index ≤ limit state := by
  by_contra beyond
  rw [bit, Bitmap.get_beyond _ _ (by rw [limit] at beyond; omega)] at set
  exact Bool.false_ne_true set

theorem freePage_eq (set : bit state (addr / 4096) = true) :
    freePage state addr =
      { mem := (state.globals.pfaBitmap.set state.mem (addr / 4096) false).2
        globals := state.globals.counted (add64 state.globals.freeMemory 4096)
          (sub64 state.globals.usedMemory 4096) (min (addr / 4096) state.globals.bitmapIdx) } := by
  have done := Bitmap.set_done state.mem state.globals.pfaBitmap false (bit_bound state set)
  have hint : (if state.globals.bitmapIdx > addr / 4096 then addr / 4096
      else state.globals.bitmapIdx) = min (addr / 4096) state.globals.bitmapIdx := by
    split <;> omega
  rw [bit] at set
  simp only [freePage, set, done, hint, Globals.counted]
  simp

/-- Locking changes neither the place of the bitmap nor the search hint. -/
theorem lockPage_globals :
    (lockPage state addr).globals.pfaBitmap = state.globals.pfaBitmap ∧
      (lockPage state addr).globals.bitmapIdx = state.globals.bitmapIdx ∧
      (lockPage state addr).globals.oomPanics = state.globals.oomPanics ∧
      (lockPage state addr).globals.hhdmOffset = state.globals.hhdmOffset := by
  by_cases taken : bit state (addr / 4096) = true ∨ limit state < addr / 4096
  · rw [lockPage_eq_self state addr taken]
    exact ⟨rfl, rfl, rfl, rfl⟩
  · rw [not_or, Bool.not_eq_true, Nat.not_lt] at taken
    rw [lockPage_eq state addr taken.1 taken.2]
    exact ⟨counted_pfaBitmap _ _ _ _, counted_bitmapIdx _ _ _ _, counted_oomPanics _ _ _ _,
      counted_hhdmOffset _ _ _ _⟩

theorem freePage_globals :
    (freePage state addr).globals.pfaBitmap = state.globals.pfaBitmap ∧
      (freePage state addr).globals.oomPanics = state.globals.oomPanics ∧
      (freePage state addr).globals.hhdmOffset = state.globals.hhdmOffset := by
  cases set : bit state (addr / 4096) with
  | false =>
      rw [freePage_eq_self state addr set]
      exact ⟨rfl, rfl, rfl⟩
  | true =>
      rw [freePage_eq state addr set]
      exact ⟨counted_pfaBitmap _ _ _ _, counted_oomPanics _ _ _ _, counted_hhdmOffset _ _ _ _⟩

theorem bit_eq_storedBit {index : Nat} (bound : index ≤ limit state) :
    bit state index = storedBit state index :=
  Bitmap.get_eq _ _ bound

theorem bit_beyond {index : Nat} (beyond : limit state < index) : bit state index = false :=
  Bitmap.get_beyond _ _ beyond

theorem storedBit_lockPage (index : Nat) :
    storedBit (lockPage state addr) index =
      (storedBit state index || decide (index = addr / 4096 ∧ index ≤ limit state)) := by
  by_cases taken : bit state (addr / 4096) = true ∨ limit state < addr / 4096
  · rw [lockPage_eq_self state addr taken]
    by_cases same : index = addr / 4096 ∧ index ≤ limit state
    · have set : storedBit state index = true := by
        rw [← bit_eq_storedBit state same.2, same.1]
        exact taken.resolve_right (by omega)
      simp [set]
    · simp [same]
  · rw [not_or, Bool.not_eq_true, Nat.not_lt] at taken
    rw [lockPage_eq state addr taken.1 taken.2, storedBit_counted, Bitmap.bitAt_set _ _ _ taken.2]
    by_cases same : index = addr / 4096
    · simp [same, taken.2]
    · simp [same, storedBit]

theorem storedBit_freePage (index : Nat) :
    storedBit (freePage state addr) index =
      (storedBit state index && !decide (index = addr / 4096 ∧ index ≤ limit state)) := by
  cases set : bit state (addr / 4096) with
  | false =>
      rw [freePage_eq_self state addr set]
      by_cases same : index = addr / 4096 ∧ index ≤ limit state
      · rw [← same.1, bit_eq_storedBit state same.2] at set
        simp [set]
      · simp [same]
  | true =>
      have bound := bit_bound state set
      rw [freePage_eq state addr set, storedBit_counted, Bitmap.bitAt_set _ _ _ bound]
      by_cases same : index = addr / 4096
      · simp [same, bound]
      · simp [same, storedBit]

theorem limit_lockPage : limit (lockPage state addr) = limit state := by
  rw [limit, limit, (lockPage_globals state addr).1]

theorem limit_freePage : limit (freePage state addr) = limit state := by
  rw [limit, limit, (freePage_globals state addr).1]

theorem bit_lockPage (index : Nat) :
    bit (lockPage state addr) index =
      (bit state index || decide (index = addr / 4096 ∧ index ≤ limit state)) := by
  by_cases bound : index ≤ limit state
  · rw [bit_eq_storedBit _ (by rwa [limit_lockPage]), storedBit_lockPage, bit_eq_storedBit _ bound]
  · rw [bit_beyond _ (by rw [limit_lockPage]; omega), bit_beyond _ (by omega)]
    simp [bound]

theorem bit_freePage (index : Nat) :
    bit (freePage state addr) index = (bit state index && decide (index ≠ addr / 4096)) := by
  by_cases bound : index ≤ limit state
  · rw [bit_eq_storedBit _ (by rwa [limit_freePage]), storedBit_freePage, bit_eq_storedBit _ bound]
    simp [bound]
  · rw [bit_beyond _ (by rw [limit_freePage]; omega), bit_beyond _ (by omega)]
    simp

theorem lockPage_mem {address : Nat}
    (outside : address ≠ state.globals.pfaBitmap.buffer + addr / 4096 / 8) :
    (lockPage state addr).mem address = state.mem address := by
  by_cases taken : bit state (addr / 4096) = true ∨ limit state < addr / 4096
  · rw [lockPage_eq_self state addr taken]
  · rw [not_or, Bool.not_eq_true, Nat.not_lt] at taken
    rw [lockPage_eq state addr taken.1 taken.2]
    exact Bitmap.set_outside _ _ _ outside

end LockAndFree

theorem limit_congr {first second : Phys Globals}
    (same : first.globals.pfaBitmap = second.globals.pfaBitmap) : limit first = limit second := by
  rw [limit, limit, same]

end PageFrameAllocator

end OkeOS
