import Mathlib.Data.Nat.Bitwise
import OkeOS.PagingCore

/-!
Page table entries as bit fields, and entries and indices as they lie in memory.
-/

namespace OkeOS

open ByteMemory

namespace PageDirectoryEntry

theorem flag_lt (flag : PtFlag) : flag.value < 64 := by
  cases flag <;> decide

theorem selector_getLsbD (flag : PtFlag) (i : Nat) :
    (1#64 <<< flag.value).getLsbD i = decide (i = flag.value) := by
  have bound := flag_lt flag
  rw [BitVec.getLsbD_shiftLeft, BitVec.getLsbD_one]
  by_cases same : i = flag.value
  · subst same
    simp [bound]
  · have outside : ¬(i < 64 ∧ ¬i < flag.value ∧ i - flag.value = 0) := by omega
    by_cases small : i < flag.value
    · simp [small, same]
    · have shifted : i - flag.value ≠ 0 := by omega
      simp [shifted, same]

theorem getLsbD_setFlag (value : BitVec 64) (flag : PtFlag) (enabled : Bool) {i : Nat}
    (bound : i < 64) :
    (setFlag value flag enabled).getLsbD i =
      if i = flag.value then enabled else value.getLsbD i := by
  cases enabled with
  | false =>
      simp only [setFlag, Bool.false_eq_true, if_false, BitVec.getLsbD_and, BitVec.getLsbD_not,
        selector_getLsbD, bound, decide_true, Bool.true_and]
      by_cases same : i = flag.value <;> simp [same]
  | true =>
      simp only [setFlag, if_true, BitVec.getLsbD_or, BitVec.getLsbD_and, BitVec.getLsbD_not,
        selector_getLsbD, bound, decide_true, Bool.true_and]
      by_cases same : i = flag.value <;> simp [same]

theorem getFlag_eq (value : BitVec 64) (flag : PtFlag) :
    getFlag value flag = value.getLsbD flag.value := by
  have bound := flag_lt flag
  have bits : value &&& 1#64 <<< flag.value =
      if value.getLsbD flag.value then 1#64 <<< flag.value else 0#64 := by
    apply BitVec.eq_of_getLsbD_eq
    intro i small
    rw [BitVec.getLsbD_and, selector_getLsbD]
    cases set : value.getLsbD flag.value with
    | false =>
        by_cases same : i = flag.value
        · simp [same, set]
        · simp [same]
    | true =>
        rw [if_pos rfl, selector_getLsbD]
        by_cases same : i = flag.value
        · simp [same, set]
        · simp [same]
  rw [getFlag]
  simp only [bits]
  cases value.getLsbD flag.value with
  | false => rfl
  | true => cases flag <;> decide

@[simp] theorem getFlag_setFlag (value : BitVec 64) (flag other : PtFlag) (enabled : Bool) :
    getFlag (setFlag value flag enabled) other =
      if other.value = flag.value then enabled else getFlag value other := by
  rw [getFlag_eq, getFlag_eq, getLsbD_setFlag _ _ _ (flag_lt other)]

theorem getAddress_setFlag (value : BitVec 64) (flag : PtFlag) (enabled : Bool)
    (outside : (0x000ffffffffff000#64).getLsbD flag.value = false) :
    getAddress (setFlag value flag enabled) = getAddress value := by
  have masked : setFlag value flag enabled &&& 0x000ffffffffff000#64 =
      value &&& 0x000ffffffffff000#64 := by
    apply BitVec.eq_of_getLsbD_eq
    intro i bound
    rw [BitVec.getLsbD_and, BitVec.getLsbD_and, getLsbD_setFlag _ _ _ bound]
    by_cases same : i = flag.value
    · rw [same, outside, Bool.and_false, Bool.and_false]
    · rw [if_neg same]
  rw [getAddress, getAddress, masked]

theorem getAddress_setAddress (value address : BitVec 64) :
    getAddress (setAddress value address) = address &&& 0x000000ffffffffff#64 := by
  have kept : (value &&& 0xfff0000000000fff#64) >>> 12 &&& 0x000000ffffffffff#64 = 0#64 := by
    rw [BitVec.ushiftRight_and_distrib, BitVec.and_assoc]
    simp
  have shifted : (address &&& 0x000000ffffffffff#64) <<< 12 >>> 12 =
      address &&& 0x000000ffffffffff#64 := by
    apply BitVec.eq_of_toNat_eq
    have small : (address &&& 0x000000ffffffffff#64).toNat < 2 ^ 40 := by
      rw [BitVec.toNat_and]
      exact Nat.lt_of_le_of_lt Nat.and_le_right (by decide)
    rw [BitVec.toNat_ushiftRight, BitVec.toNat_shiftLeft, Nat.shiftLeft_eq,
      Nat.shiftRight_eq_div_pow, Nat.mod_eq_of_lt (by omega)]
    omega
  have mask : 0x000ffffffffff000#64 >>> 12 = 0x000000ffffffffff#64 := by decide
  simp only [getAddress, setAddress]
  rw [BitVec.ushiftRight_and_distrib, BitVec.ushiftRight_or_distrib, mask, shifted,
    BitVec.and_or_distrib_right, kept, BitVec.and_assoc, BitVec.and_self]
  simp

end PageDirectoryEntry

open PageDirectoryEntry

theorem linkEntry_flags (entry : BitVec 64) (address : Nat) :
    getFlag (linkEntry entry address) .present = true ∧
      getFlag (linkEntry entry address) .readWrite = true ∧
      getFlag (linkEntry entry address) .nx = false := by
  simp [linkEntry, PtFlag.value]

theorem linkEntry_address (entry : BitVec 64) {address : Nat} (bound : address < 2 ^ 52) :
    (getAddress (linkEntry entry address)).toNat = address / 4096 := by
  have low : (BitVec.ofNat 64 address >>> 12).toNat = address / 4096 := by
    rw [BitVec.toNat_ushiftRight, BitVec.toNat_ofNat, Nat.mod_eq_of_lt (by omega),
      Nat.shiftRight_eq_div_pow]
  have mask : (0x000000ffffffffff#64).toNat = 2 ^ 40 - 1 := by decide
  simp only [linkEntry]
  rw [getAddress_setFlag _ _ _ (by decide), getAddress_setFlag _ _ _ (by decide),
    getAddress_setFlag _ _ _ (by decide), getAddress_setAddress, BitVec.toNat_and, low, mask,
    Nat.and_two_pow_sub_one_eq_mod, Nat.mod_eq_of_lt (by omega)]

theorem frame_toNat (entry : BitVec 64) :
    (getAddress entry <<< 12).toNat = (getAddress entry).toNat * 4096 := by
  have small : (getAddress entry).toNat < 2 ^ 52 := by
    rw [getAddress, BitVec.toNat_ushiftRight, Nat.shiftRight_eq_div_pow]
    have bound := (entry &&& 0x000ffffffffff000#64).isLt
    omega
  rw [BitVec.toNat_shiftLeft, Nat.shiftLeft_eq, Nat.mod_eq_of_lt (by omega)]

/-! Entries in memory. -/

theorem readEntry_writeEntry (mem : Memory) (table index : Nat) (entry : BitVec 64) :
    readEntry (writeEntry mem table index entry) table index = entry := by
  have size : (256 : Nat) ^ 8 = 2 ^ 64 := by norm_num
  rw [readEntry, writeEntry, load_store_same, size, Nat.mod_eq_of_lt entry.isLt,
    BitVec.ofNat_toNat, BitVec.setWidth_eq]

theorem readEntry_congr {first second : Memory} {table index : Nat}
    (same : ∀ address, table + 8 * index ≤ address → address < table + 8 * index + 8 →
      first address = second address) :
    readEntry first table index = readEntry second table index := by
  rw [readEntry, readEntry, load_congr same]

theorem writeEntry_outside (mem : Memory) {table index address : Nat} (entry : BitVec 64)
    (outside : address < table + 8 * index ∨ table + 8 * index + 8 ≤ address) :
    writeEntry mem table index entry address = mem address :=
  store_outside _ _ _ _ _ outside

theorem readEntry_zeros {mem : Memory} {table index : Nat}
    (zeros : ∀ address, table + 8 * index ≤ address → address < table + 8 * index + 8 →
      mem address = 0) : readEntry mem table index = 0#64 := by
  rw [readEntry, load_zero zeros]

theorem child_zero {mem : Memory} {table index : Nat}
    (zero : readEntry mem table index = 0#64) : child mem table index = none := by
  simp only [child, zero]
  decide

theorem child_congr {first second : Memory} {table index : Nat}
    (same : readEntry first table index = readEntry second table index) :
    child first table index = child second table index := by
  simp only [child, same]

/-! The indices of an address. -/

theorem indexer_eq (virt : Nat) :
    pageMapIndexerFrom virt =
      { pdpI := virt / 2 ^ 39 % 512, pdI := virt / 2 ^ 30 % 512, ptI := virt / 2 ^ 21 % 512,
        pI := virt / 2 ^ 12 % 512 } := by
  have mask (n : Nat) : n &&& 0x1ff = n % 512 := Nat.and_two_pow_sub_one_eq_mod n 9
  simp only [pageMapIndexerFrom, mask, Nat.shiftRight_eq_div_pow, Nat.div_div_eq_div_mul]
  norm_num

/-- Two addresses agree on bits 12 to 47. -/
def SamePage (first second : Nat) : Prop :=
  first / 4096 % 2 ^ 36 = second / 4096 % 2 ^ 36

instance (first second : Nat) : Decidable (SamePage first second) :=
  inferInstanceAs (Decidable (_ = _))

theorem samePage_iff (first second : Nat) :
    SamePage first second ↔ pageMapIndexerFrom first = pageMapIndexerFrom second := by
  rw [indexer_eq, indexer_eq, PageMapIndexer.mk.injEq, SamePage]
  omega

theorem index_testBit (virt shift i : Nat) :
    (virt / 2 ^ shift % 512).testBit i = (decide (i < 9) && virt.testBit (shift + i)) := by
  rw [show 512 = 2 ^ 9 from rfl, Nat.testBit_mod_two_pow, Nat.testBit_div_two_pow, Nat.add_comm i]

theorem samePage_testBit (first second : Nat) :
    SamePage first second ↔ ∀ bit, 12 ≤ bit → bit ≤ 47 → first.testBit bit = second.testBit bit := by
  have shifted (n i : Nat) :
      (n / 4096 % 2 ^ 36).testBit i = (decide (i < 36) && n.testBit (12 + i)) := by
    rw [show 4096 = 2 ^ 12 from rfl, Nat.testBit_mod_two_pow, Nat.testBit_div_two_pow,
      Nat.add_comm i]
  constructor
  · intro same bit low high
    have bits := congrArg (Nat.testBit · (bit - 12)) same
    simp only [shifted, show bit - 12 < 36 by omega, show 12 + (bit - 12) = bit by omega,
      decide_true, Bool.true_and] at bits
    exact bits
  · intro agree
    apply Nat.eq_of_testBit_eq
    intro i
    rw [shifted, shifted]
    by_cases inside : i < 36
    · rw [agree (12 + i) (by omega) (by omega)]
    · simp [inside]

end OkeOS
