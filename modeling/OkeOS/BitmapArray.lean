import OkeOS.PfaBitmap

/-!
`lib/bitmap.cpp` as an array of bits.  The bound check compares with `>` and lets one offset
too many through.
-/

namespace OkeOS

open ByteMemory

namespace Bitmap

/-- The bytes of the buffer are the same. -/
def SameBuffer (bitmap : Bitmap) (first second : Memory) : Prop :=
  ∀ i < bitmap.size, first (bitmap.buffer + i) = second (bitmap.buffer + i)

/-- At `offset` the bitmap behaves as an array of `size * 8` bits. -/
structure ArrayAt (bitmap : Bitmap) (offset : Nat) (value : Bool) : Prop where
  getReads : ∀ first second, bitmap.SameBuffer first second →
    bitmap.get first offset = bitmap.get second offset
  setReads : ∀ first second, bitmap.SameBuffer first second →
    (bitmap.set first offset value).1 = (bitmap.set second offset value).1 ∧
      bitmap.SameBuffer (bitmap.set first offset value).2 (bitmap.set second offset value).2
  setWrites : ∀ mem address, (bitmap.set mem offset value).2 address ≠ mem address →
    ∃ i < bitmap.size, address = bitmap.buffer + i
  done : ∀ mem, (bitmap.set mem offset value).1 = true ↔ offset < bitmap.size * 8
  refused : ∀ mem, bitmap.size * 8 ≤ offset → (bitmap.set mem offset value).2 = mem
  stored : ∀ mem, offset < bitmap.size * 8 →
    bitmap.get (bitmap.set mem offset value).2 offset = value
  others : ∀ mem other, offset < bitmap.size * 8 → other ≠ offset →
    bitmap.get (bitmap.set mem offset value).2 other = bitmap.get mem other
  beyond : ∀ mem, bitmap.size * 8 ≤ offset → bitmap.get mem offset = false

section

variable {bitmap : Bitmap} {offset : Nat} {value : Bool}

theorem arrayAt_inside (bound : offset ≤ mul64 bitmap.size 8) (inside : offset < bitmap.size * 8) :
    bitmap.ArrayAt offset value where
  getReads first second same := get_congr bitmap (same (offset / 8) (by omega))
  setReads first second same := by
    refine ⟨by rw [set_done _ _ _ bound, set_done _ _ _ bound], ?_⟩
    intro i iBound
    by_cases touched : i = offset / 8
    · simp only [set, if_neg (Nat.not_lt.mpr bound), touched]
      rw [same (offset / 8) (by omega)]
      cases value with
      | false => simp [writeByte_same]
      | true => simp [writeByte_same]
    · rw [set_outside _ _ _ (by omega), set_outside _ _ _ (by omega), same i iBound]
  setWrites mem address changed := by
    by_contra outside
    refine changed (set_outside mem bitmap value ?_)
    intro same
    exact outside ⟨offset / 8, by omega, same⟩
  done mem := by simp [set_done _ _ _ bound, inside]
  refused mem outside := by omega
  stored mem _ := by rw [get_set _ _ _ bound, if_pos rfl]
  others mem other _ different := by rw [get_set _ _ _ bound, if_neg different]
  beyond mem outside := by omega

theorem arrayAt_beyond (past : mul64 bitmap.size 8 < offset) (outside : bitmap.size * 8 ≤ offset) :
    bitmap.ArrayAt offset value where
  getReads first second _ := by rw [get_beyond _ _ past, get_beyond _ _ past]
  setReads first second same := by
    rw [set_beyond _ _ _ past, set_beyond _ _ _ past]
    exact ⟨rfl, same⟩
  setWrites mem address changed := by
    rw [set_beyond _ _ _ past] at changed
    exact absurd rfl changed
  done mem := by
    rw [set_beyond _ _ _ past]
    constructor
    · intro impossible
      exact absurd impossible Bool.false_ne_true
    · omega
  refused mem _ := by rw [set_beyond _ _ _ past]
  stored mem inside := by omega
  others mem other inside := by omega
  beyond mem _ := get_beyond _ _ past

/-- The offset `size * 8` is the only one that goes wrong, unless `Size * 8` wraps: then all
offsets above the wrapped product do. -/
theorem arrayAt_iff (size offset : UInt64) (buffer : Nat) (value : Bool) :
    ArrayAt { size := size.toNat, buffer := buffer } offset.toNat value ↔
      size.toNat < 2 ^ 61 ∧ offset.toNat ≠ size.toNat * 8 ∨
        2 ^ 61 ≤ size.toNat ∧ offset.toNat ≤ size.toNat * 8 % 2 ^ 64 := by
  have offsetBound := offset.toNat_lt
  have product : mul64 size.toNat 8 = size.toNat * 8 % 2 ^ 64 := rfl
  constructor
  · intro array
    have done := array.done fun _ => 0
    by_cases bound : offset.toNat ≤ mul64 size.toNat 8
    · have inside : offset.toNat < size.toNat * 8 := done.mp (set_done _ _ _ bound)
      omega
    · rw [set_beyond _ _ _ (Nat.not_le.mp bound)] at done
      have outside : ¬offset.toNat < size.toNat * 8 := fun inside => by simpa using done.mpr inside
      omega
  · rintro (⟨small, different⟩ | ⟨large, bound⟩)
    · rcases Nat.lt_or_gt_of_ne different with inside | outside
      · exact arrayAt_inside (by simp only; omega) inside
      · exact arrayAt_beyond (by simp only; omega) outside.le
    · exact arrayAt_inside (by simp only; omega) (by simp only; omega)

/-- A buffer of one byte: offset 8 is read from and written to the byte behind it. -/
theorem not_arrayAt_end :
    let bitmap : Bitmap := { size := 1, buffer := 0 }
    let mem : Memory := fun _ => 0
    ¬bitmap.ArrayAt 8 true ∧ (bitmap.set mem 8 true).1 = true ∧
      (bitmap.set mem 8 true).2 1 = 0x80 ∧ bitmap.get (bitmap.set mem 8 true).2 8 = true := by
  refine ⟨?_, by decide, by decide, by decide⟩
  intro array
  have inside := (array.done fun _ => 0).mp (by decide)
  exact absurd inside (by decide)

end

end Bitmap

end OkeOS
