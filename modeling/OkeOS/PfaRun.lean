import Mathlib.Data.List.Nodup
import Mathlib.Data.List.Perm.Subperm
import OkeOS.PfaInit

/-!
Runs of the frame allocator.  The counter of free memory only counts the largest usable
entry, so it reaches the out-of-memory threshold while frames of that entry are still
free, and the search stops at one of them before it comes to the padding bits past the
end of memory.
-/

namespace OkeOS

open ByteMemory

namespace PageFrameAllocator

/-- The frame is one of those reserved for the bitmap. -/
def BitmapFrame (memmap : List MemmapEntry) (index : Nat) : Prop :=
  (largestFreeSegment memmap).1 / 4096 ≤ index ∧
    index < (largestFreeSegment memmap).1 / 4096 + bitmapSizeInPages memmap

/-- The memory maps the allocator is made for. -/
structure ValidMap (memmap : List MemmapEntry) : Prop extends MapBelow memmap (2 ^ 31) where
  room : 4096 * bitmapSizeInPages memmap ≤ (largestFreeSegment memmap).2

/-- The states a run of the allocator reaches, with the frames handed out. -/
inductive FrameRun (memmap : List MemmapEntry) : Phys Globals → List Nat → Prop
  | init {state state' : Phys Globals} (word : state.globals.hhdmOffset < 2 ^ 64)
      (run : init state memmap = .ok state') : FrameRun memmap state' []
  | request {state state' : Phys Globals} {handed : List Nat} {frame : Nat} :
      FrameRun memmap state handed → requestPage state = .ok (frame, state') →
      FrameRun memmap state' (frame :: handed)
  | free {state : Phys Globals} {handed : List Nat} {frame : Nat} :
      FrameRun memmap state handed → frame ∈ handed →
      FrameRun memmap (freePage state frame) (handed.erase frame)
  | write {state : Phys Globals} {handed : List Nat} {frame address : Nat} (byte : UInt8) :
      FrameRun memmap state handed → frame ∈ handed → InFrame frame address →
      FrameRun memmap { state with mem := writeByte state.mem address byte } handed

/-- Which bits are clear, where the search starts and what the counter says. -/
structure FrameInv (memmap : List MemmapEntry) (state : Phys Globals) (handed : List Nat) :
    Prop where
  owned : Owned state handed
  place : state.globals.pfaBitmap =
    { size := bitmapSize memmap, buffer := (largestFreeSegment memmap).1 }
  found : (largestFreeSegment memmap).1 ≠ 0
  exact : ∀ index < totalMemorySizeInPages memmap, bit state index = false ↔
    UsableFrame memmap index ∧ ¬BitmapFrame memmap index ∧ 4096 * index ∉ handed
  hintBound : state.globals.bitmapIdx ≤ totalMemorySizeInPages memmap
  hint : ∀ index < state.globals.bitmapIdx, bit state index = true
  panics : state.globals.oomPanics = true
  counter : state.globals.freeMemory + 4096 * (bitmapSizeInPages memmap + handed.length) =
    (largestFreeSegment memmap).2
  distinct : handed.Nodup
  usable : ∀ frame ∈ handed, ∃ index < totalMemorySizeInPages memmap, frame = 4096 * index ∧
    UsableFrame memmap index ∧ ¬BitmapFrame memmap index

section

variable {memmap : List MemmapEntry} {state state' : Phys Globals} {handed : List Nat}
  {frame bound : Nat}

theorem ValidMap.total_le (valid : ValidMap memmap) :
    totalMemorySizeInPages memmap ≤ 2 ^ 19 := by
  have below := areal_le valid.toMapBelow (by decide)
  rw [totalMemorySizeInPages]
  omega

theorem ValidMap.below46 (valid : ValidMap memmap) : MapBelow memmap (2 ^ 46 - 1) :=
  ⟨valid.aligned, fun entry member => (valid.ends entry member).trans (by decide)⟩

theorem usableFrame_lt (map : MapBelow memmap bound) (small : bound < 2 ^ 64) {index : Nat}
    (usable : UsableFrame memmap index) : index < totalMemorySizeInPages memmap := by
  obtain ⟨entry, member, _, _, upper⟩ := usable
  have covers := areal_covers map small member
  rw [totalMemorySizeInPages]
  omega

theorem largest_usable (found : (largestFreeSegment memmap).1 ≠ 0)
    (index : Nat) (lower : (largestFreeSegment memmap).1 ≤ 4096 * index)
    (upper : 4096 * index + 4096 ≤
      (largestFreeSegment memmap).1 + (largestFreeSegment memmap).2) :
    UsableFrame memmap index := by
  obtain ⟨entry, member, usable, chosen⟩ := largest_mem found
  rw [chosen] at lower upper
  exact ⟨entry, member, usable, lower, upper⟩

theorem total_le_limit (place : state.globals.pfaBitmap =
      { size := bitmapSize memmap, buffer := (largestFreeSegment memmap).1 })
    (valid : ValidMap memmap) :
    limit state = bitmapSize memmap * 8 ∧ totalMemorySizeInPages memmap < bitmapSize memmap * 8 := by
  have total := valid.total_le
  have size : bitmapSize memmap = totalMemorySizeInPages memmap / 8 + 1 := rfl
  have bound : bitmapSize memmap * 8 < 2 ^ 64 := by omega
  refine ⟨?_, by omega⟩
  rw [limit, place, mul64, Nat.mod_eq_of_lt bound]

/-! The state after `init`. -/

theorem limit_initBitmap (state : Phys Globals) (size addr : Nat) :
    limit (initBitmap state size addr) = mul64 size 8 := rfl

theorem bit_beforeLock (map : MapBelow memmap bound) (small : bound ≤ 2 ^ 46)
    (state : Phys Globals) {index : Nat} (inside : index < totalMemorySizeInPages memmap)
    (low : index < 2 ^ 19) :
    bit (beforeLock state memmap) index = false ↔ UsableFrame memmap index := by
  have below := areal_le map (by omega)
  have total : totalMemorySizeInPages memmap = getMemoryArealSize memmap / 4096 := rfl
  have size : bitmapSize memmap = totalMemorySizeInPages memmap / 8 + 1 := rfl
  generalize start : initBitmap state (bitmapSize memmap)
    (add64 state.globals.hhdmOffset (largestFreeSegment memmap).1) = zeroed
  have limitEq : limit zeroed = bitmapSize memmap * 8 := by
    rw [← start, limit_initBitmap, mul64, Nat.mod_eq_of_lt (by omega)]
  have first : bit (lockRounds zeroed (4096 * 0) (index + 1)) index = true :=
    (bit_lockRounds zeroed (by omega) (by omega) index).mpr
      (Or.inr ⟨by omega, by omega, by omega⟩)
  have rounds : index + 1 ≤ min (totalMemorySizeInPages memmap) (2 ^ 31) :=
    Nat.le_min.mpr ⟨by omega, by omega⟩
  have locked : bit (lockPages zeroed 0 (totalMemorySizeInPages memmap)) index = true :=
    bit_lockRounds_mono rounds first
  have freed := bit_freeEntries map (by omega)
    (lockPages zeroed 0 (totalMemorySizeInPages memmap)) index
  rw [beforeLock, start, ← Bool.not_eq_true]
  change ¬(bit (memmap.foldl freeEntry _) index = true) ↔ _
  rw [freed, locked]
  simp

theorem limit_beforeLock (map : MapBelow memmap bound) (small : bound ≤ 2 ^ 46)
    (state : Phys Globals) : limit (beforeLock state memmap) = bitmapSize memmap * 8 := by
  have below := areal_le map (by omega)
  have size : bitmapSize memmap = getMemoryArealSize memmap / 4096 / 8 + 1 := rfl
  rw [limit, (beforeLock_setup state memmap).1]
  change mul64 (bitmapSize memmap) 8 = _
  rw [mul64, Nat.mod_eq_of_lt (by omega)]

theorem init_bits (map : MapBelow memmap (2 ^ 45)) (word : state.globals.hhdmOffset < 2 ^ 64)
    (run : init state memmap = .ok state') {index : Nat}
    (inside : index < totalMemorySizeInPages memmap) (low : index < 2 ^ 19) :
    bit state' index = false ↔ UsableFrame memmap index ∧ ¬BitmapFrame memmap index := by
  obtain ⟨place, _, _⟩ := init_setup map (by decide) word run
  obtain ⟨found, stateEq⟩ := init_ok run
  obtain ⟨baseAligned, _, ends⟩ := largest_bounds map (by decide) found
  have below := areal_le map (by decide)
  have total : totalMemorySizeInPages memmap = getMemoryArealSize memmap / 4096 := rfl
  have size : bitmapSize memmap = totalMemorySizeInPages memmap / 8 + 1 := rfl
  have pages : bitmapSizeInPages memmap = bitmapSize memmap / 4096 + 1 := rfl
  have limitEq := limit_beforeLock map (by decide) state
  obtain ⟨start, startEq⟩ : ∃ start, (largestFreeSegment memmap).1 = 4096 * start :=
    ⟨(largestFreeSegment memmap).1 / 4096, by omega⟩
  have reserved : BitmapFrame memmap index ↔
      start ≤ index ∧ index < start + bitmapSizeInPages memmap := by
    rw [BitmapFrame, startEq, Nat.mul_div_cancel_left _ (by decide)]
  rw [stateEq, lockPages, Nat.min_eq_left (by omega), startEq, ← Bool.not_eq_true,
    bit_lockRounds _ (by omega) (by omega), not_or, Bool.not_eq_true,
    bit_beforeLock map (by decide) state inside low, reserved]
  constructor
  · rintro ⟨usable, outside⟩
    exact ⟨usable, fun inside => outside ⟨inside.1, inside.2, by omega⟩⟩
  · rintro ⟨usable, outside⟩
    exact ⟨usable, fun inside => outside ⟨inside.1, inside.2.1⟩⟩

theorem ValidMap.below45 (valid : ValidMap memmap) : MapBelow memmap (2 ^ 45) :=
  ⟨valid.aligned, fun entry member => (valid.ends entry member).trans (by decide)⟩

/-- `init` takes the frames of the bitmap from the free memory. -/
theorem init_freeMemory (valid : ValidMap memmap) (run : init state memmap = .ok state') :
    state'.globals.freeMemory + 4096 * bitmapSizeInPages memmap =
      (largestFreeSegment memmap).2 := by
  obtain ⟨found, stateEq⟩ := init_ok run
  obtain ⟨baseAligned, lengthAligned, ends⟩ :=
    largest_bounds valid.toMapBelow (by decide) found
  have total := valid.total_le
  have room := valid.room
  have below := areal_le valid.toMapBelow (by decide)
  have totalEq : totalMemorySizeInPages memmap = getMemoryArealSize memmap / 4096 := rfl
  have size : bitmapSize memmap = totalMemorySizeInPages memmap / 8 + 1 := rfl
  have limitEq := limit_beforeLock valid.toMapBelow (by decide) state
  obtain ⟨start, startEq⟩ : ∃ start, (largestFreeSegment memmap).1 = 4096 * start :=
    ⟨(largestFreeSegment memmap).1 / 4096, by omega⟩
  have clear (index : Nat) (lower : start ≤ index)
      (upper : index < start + bitmapSizeInPages memmap) :
      bit (beforeLock state memmap) index = false := by
    have usable := largest_usable found index (by omega) (by omega)
    have inside := usableFrame_lt valid.toMapBelow (by decide) usable
    exact (bit_beforeLock valid.toMapBelow (by decide) state inside (by omega)).mpr usable
  have free := (beforeLock_setup state memmap).2.2.2
  rw [stateEq, lockPages, Nat.min_eq_left (by omega), startEq,
    lockRounds_freeMemory _ (by omega) (by omega) (by omega) clear (by omega) (by omega), free]
  omega

theorem FrameInv.init (valid : ValidMap memmap) (word : state.globals.hhdmOffset < 2 ^ 64)
    (run : init state memmap = .ok state') : FrameInv memmap state' [] := by
  obtain ⟨place, hint, panics⟩ := init_setup valid.toMapBelow (by decide) word run
  have total := valid.total_le
  refine ⟨init_owned valid.below46 word run, place, (init_ok run).1, ?_, by omega, ?_, panics, ?_,
    List.nodup_nil, by simp⟩
  · intro index inside
    rw [init_bits valid.below45 word run inside (by omega)]
    simp
  · intro index less
    omega
  · rw [List.length_nil, Nat.add_zero]
    exact init_freeMemory valid run

/-! One step. -/

/-- Some frame of the chosen segment is neither reserved nor handed out. -/
theorem FrameInv.spare (inv : FrameInv memmap state handed) (valid : ValidMap memmap)
    (enough : 4096 ≤ state.globals.freeMemory) :
    ∃ index < totalMemorySizeInPages memmap, bit state index = false := by
  obtain ⟨baseAligned, lengthAligned, ends⟩ :=
    largest_bounds valid.toMapBelow (by decide) inv.found
  have counter := inv.counter
  obtain ⟨start, startEq⟩ : ∃ start, (largestFreeSegment memmap).1 = 4096 * start :=
    ⟨(largestFreeSegment memmap).1 / 4096, by omega⟩
  let first := start + bitmapSizeInPages memmap
  let count := (largestFreeSegment memmap).2 / 4096 - bitmapSizeInPages memmap
  have distinct : ((List.range' first count).map (4096 * ·)).Nodup := by
    refine List.Nodup.map ?_ List.nodup_range'
    intro left right same
    exact Nat.eq_of_mul_eq_mul_left (by decide) same
  have more : handed.length < ((List.range' first count).map (4096 * ·)).length := by
    simp only [List.length_map, List.length_range', count]
    omega
  have missing : ¬(List.range' first count).map (4096 * ·) ⊆ handed := by
    intro subset
    have short := (List.subperm_of_subset distinct subset).length_le
    omega
  obtain ⟨frame, member, notHanded⟩ : ∃ frame ∈ (List.range' first count).map (4096 * ·),
      frame ∉ handed := by
    by_contra none
    refine missing fun frame member => ?_
    by_contra outside
    exact none ⟨frame, member, outside⟩
  obtain ⟨index, inRange, rfl⟩ := List.mem_map.mp member
  obtain ⟨lower, upper⟩ := List.mem_range'_1.mp inRange
  have usable := largest_usable inv.found index (by omega) (by omega)
  have inside := usableFrame_lt valid.toMapBelow (by decide) usable
  refine ⟨index, inside, (inv.exact index inside).mpr ⟨usable, ?_, notHanded⟩⟩
  rintro ⟨_, reserved⟩
  omega

/-- A request stops at a usable frame that nobody holds. -/
theorem FrameInv.request_index (inv : FrameInv memmap state handed) (valid : ValidMap memmap)
    (run : requestPage state = .ok (frame, state')) :
    ∃ index < totalMemorySizeInPages memmap, Found state index ∧ frame = 4096 * index ∧
      state' = lockPage (withHint state index) (4096 * index) ∧
      16384 ≤ state.globals.freeMemory ∧
      UsableFrame memmap index ∧ ¬BitmapFrame memmap index ∧ frame ∉ handed := by
  obtain ⟨index, found, _, frameEq, stateEq⟩ := inv.owned.request_ok run
  obtain ⟨_, _, _, _, _, free⟩ := requestPage_ok run
  have enough := free inv.panics
  obtain ⟨spare, spareInside, spareClear⟩ := inv.spare valid (by omega)
  have notHinted : state.globals.bitmapIdx ≤ spare := by
    by_contra less
    rw [inv.hint spare (by omega)] at spareClear
    exact Bool.false_ne_true spareClear.symm
  have inside : index < totalMemorySizeInPages memmap := by
    by_contra beyond
    rw [found.first spare notHinted (by omega)] at spareClear
    exact Bool.false_ne_true spareClear.symm
  obtain ⟨usable, notReserved, notHanded⟩ := (inv.exact index inside).mp found.clear
  exact ⟨index, inside, found, frameEq, stateEq, enough, usable, notReserved,
    by rw [frameEq]; exact notHanded⟩

theorem FrameInv.request (inv : FrameInv memmap state handed) (valid : ValidMap memmap)
    (run : requestPage state = .ok (frame, state')) :
    FrameInv memmap state' (frame :: handed) := by
  obtain ⟨index, inside, found, frameEq, stateEq, enough, usable, notReserved, notHanded⟩ :=
    inv.request_index valid run
  obtain ⟨limitEq, totalLt⟩ := total_le_limit inv.place valid
  have upper : index < limit state := by omega
  have indexEq : 4096 * index / 4096 = index := by omega
  have clear : bit (withHint state index) (4096 * index / 4096) = false := by
    rw [indexEq, bit_withHint]
    exact found.clear
  have counter := inv.counter
  have word : state.globals.freeMemory < 2 ^ 64 := by
    have bounds := (largest_bounds valid.toMapBelow (by decide) inv.found).2.2
    have below := areal_le valid.toMapBelow (by decide)
    omega
  refine ⟨inv.owned.request run, ?_, inv.found, ?_, ?_, ?_, ?_, ?_,
    List.nodup_cons.mpr ⟨notHanded, inv.distinct⟩, ?_⟩
  · rw [stateEq, request_bitmap]
    exact inv.place
  · intro other otherInside
    rw [stateEq, bit_request upper, Bool.or_eq_false_iff, inv.exact other otherInside,
      decide_eq_false_iff_not, List.mem_cons, not_or, frameEq]
    constructor
    · rintro ⟨⟨otherUsable, otherReserved, otherHanded⟩, different⟩
      exact ⟨otherUsable, otherReserved, by omega, otherHanded⟩
    · rintro ⟨otherUsable, otherReserved, different, otherHanded⟩
      exact ⟨⟨otherUsable, otherReserved, otherHanded⟩, by omega⟩
  · rw [stateEq, (lockPage_globals _ _).2.1]
    exact Nat.le_of_lt inside
  · intro other less
    rw [stateEq, (lockPage_globals _ _).2.1] at less
    change other < index at less
    rw [stateEq, bit_request upper, Bool.or_eq_true]
    by_cases hinted : other < state.globals.bitmapIdx
    · exact Or.inl (inv.hint other hinted)
    · exact Or.inl (found.first other (by omega) less)
  · rw [stateEq, (lockPage_globals _ _).2.2.1]
    exact inv.panics
  · rw [stateEq, lockPage_eq _ _ clear (by rw [indexEq, limit_withHint]; omega),
      counted_freeMemory]
    change sub64 state.globals.freeMemory 4096 + _ = _
    rw [sub64_of_le (by omega) word, List.length_cons]
    omega
  · intro other member
    rcases List.mem_cons.mp member with new | old
    · exact ⟨index, inside, new.trans frameEq, usable, notReserved⟩
    · exact inv.usable other old

theorem FrameInv.free (inv : FrameInv memmap state handed) (valid : ValidMap memmap)
    (member : frame ∈ handed) : FrameInv memmap (freePage state frame) (handed.erase frame) := by
  obtain ⟨index, inside, frameEq, usable, notReserved⟩ := inv.usable frame member
  have indexEq : frame / 4096 = index := by omega
  have set : bit state (frame / 4096) = true := by
    rw [indexEq, ← Bool.not_eq_false, inv.exact index inside]
    rintro ⟨_, _, notHanded⟩
    exact notHanded (frameEq ▸ member)
  have setup := freePage_setup state frame
  have bits (other : Nat) : bit (freePage state frame) other =
      (bit state other && decide (other ≠ index)) := by
    rw [bit_freePage, indexEq]
  have positive : 0 < handed.length := List.length_pos_of_mem member
  have counter := inv.counter
  have small : (largestFreeSegment memmap).2 < 2 ^ 64 := by
    have bounds := (largest_bounds valid.toMapBelow (by decide) inv.found).2.2
    have below := areal_le valid.toMapBelow (by decide)
    omega
  have erased {other : Nat} : other ∈ handed.erase frame ↔ other ≠ frame ∧ other ∈ handed :=
    inv.distinct.mem_erase_iff
  refine ⟨?_, setup.pfaBitmap.trans inv.place, inv.found, ?_, ?_, ?_,
    setup.oomPanics.trans inv.panics, ?_, inv.distinct.erase frame, ?_⟩
  · have holds (other : Nat) : HoldsBitmap (freePage state frame) other ↔
        HoldsBitmap state other := by
      rw [HoldsBitmap, HoldsBitmap, setup.pfaBitmap]
    refine ⟨by rw [setup.pfaBitmap]; exact inv.owned.size, ?_, ?_⟩
    · intro other upper bitmap
      rw [setup.limit] at upper
      rw [bits, inv.owned.locked other upper ((holds other).mp bitmap), Bool.true_and,
        decide_eq_true_eq]
      rintro rfl
      obtain ⟨slot, _, slotEq, _, apart⟩ := inv.owned.frames frame member
      have same : slot = other := by omega
      exact apart (same ▸ (holds other).mp bitmap)
    · intro other otherMem
      obtain ⟨different, old⟩ := erased.mp otherMem
      obtain ⟨slot, upper, slotEq, slotSet, apart⟩ := inv.owned.frames other old
      refine ⟨slot, by rw [setup.limit]; exact upper, slotEq, ?_, ?_⟩
      · rw [bits, slotSet, Bool.true_and, decide_eq_true_eq]
        rintro rfl
        exact different (by omega)
      · intro bitmap
        exact apart ((holds slot).mp bitmap)
  · intro other otherInside
    rw [bits, Bool.and_eq_false_iff, inv.exact other otherInside, decide_eq_false_iff_not,
      not_not, erased, not_and, ne_eq, not_imp_comm, not_not]
    constructor
    · rintro (⟨otherUsable, otherReserved, notHanded⟩ | rfl)
      · exact ⟨otherUsable, otherReserved, fun held => absurd held notHanded⟩
      · exact ⟨usable, notReserved, fun _ => frameEq.symm⟩
    · rintro ⟨otherUsable, otherReserved, held⟩
      by_cases handedOut : 4096 * other ∈ handed
      · exact Or.inr (by have := held handedOut; omega)
      · exact Or.inl ⟨otherUsable, otherReserved, handedOut⟩
  · rw [freePage_eq state frame set, counted_bitmapIdx]
    exact (Nat.min_le_left _ _).trans (by omega)
  · intro other less
    rw [freePage_eq state frame set, counted_bitmapIdx] at less
    rw [bits, inv.hint other (by omega), Bool.true_and, decide_eq_true_eq]
    omega
  · rw [freePage_eq state frame set, counted_freeMemory, add64_of_lt (by omega),
      List.length_erase_of_mem member]
    omega
  · intro other otherMem
    exact inv.usable other (erased.mp otherMem).2

theorem FrameInv.write (inv : FrameInv memmap state handed) (valid : ValidMap memmap)
    {mem : Memory} (changed : ∀ address, mem address ≠ state.mem address →
      ∃ frame ∈ handed, InFrame frame address) :
    FrameInv memmap { state with mem := mem } handed := by
  obtain ⟨limitEq, totalLt⟩ := total_le_limit inv.place valid
  have same (index : Nat) (upper : index < limit state) :
      bit { state with mem := mem } index = bit state index :=
    inv.owned.write_bit changed upper
  refine ⟨inv.owned.write changed, inv.place, inv.found, ?_, inv.hintBound, ?_, inv.panics,
    inv.counter, inv.distinct, inv.usable⟩
  · intro index inside
    rw [same index (by omega)]
    exact inv.exact index inside
  · intro index less
    have bound := inv.hintBound
    simp only at less
    rw [same index (by omega)]
    exact inv.hint index less

/-! What the invariant says about the frames in use. -/

theorem FrameInv.handed_le (inv : FrameInv memmap state handed) (valid : ValidMap memmap) :
    handed.length ≤ 2 ^ 19 := by
  have counter := inv.counter
  have bounds := (largest_bounds valid.toMapBelow (by decide) inv.found).2.2
  have below := areal_le valid.toMapBelow (by decide)
  omega

theorem FrameInv.bit_handed (inv : FrameInv memmap state handed)
    (member : frame ∈ handed) :
    bit state (frame / 4096) = true ∧ ¬BitmapFrame memmap (frame / 4096) := by
  obtain ⟨index, _, frameEq, set, _⟩ := inv.owned.frames frame member
  obtain ⟨other, _, otherEq, _, notReserved⟩ := inv.usable frame member
  rw [show frame / 4096 = index by omega]
  exact ⟨set, by rw [show index = other by omega]; exact notReserved⟩

theorem FrameInv.bit_bitmap (inv : FrameInv memmap state handed) (valid : ValidMap memmap)
    {index : Nat} (reserved : BitmapFrame memmap index) :
    bit state index = true := by
  obtain ⟨baseAligned, _, ends⟩ := largest_bounds valid.toMapBelow (by decide) inv.found
  have room := valid.room
  obtain ⟨lower, upper⟩ := reserved
  have inside := usableFrame_lt valid.toMapBelow (by decide)
    (largest_usable inv.found index (by omega) (by omega))
  rw [← Bool.not_eq_false, inv.exact index inside]
  exact fun clear => clear.2.1 ⟨lower, upper⟩

/-! Whole runs. -/

theorem FrameRun.inv (valid : ValidMap memmap) (run : FrameRun memmap state handed) :
    FrameInv memmap state handed := by
  induction run with
  | init word run => exact FrameInv.init valid word run
  | request _ run ih => exact ih.request valid run
  | free _ member ih => exact ih.free valid member
  | @write state handed frame address byte _ member inside ih =>
      apply ih.write valid
      intro other changed
      by_cases same : other = address
      · exact ⟨_, member, same ▸ inside⟩
      · exact absurd (writeByte_other _ _ same) changed

/-- A request hands out a frame of a usable entry that does not hold the bitmap and that
nobody has. -/
theorem requestPage_safe (valid : ValidMap memmap) (run : FrameRun memmap state handed)
    (request : requestPage state = .ok (frame, state')) :
    (∃ entry ∈ memmap, entry.type = limineMemmapUsable ∧ entry.base ≤ frame ∧
        frame + 4096 ≤ entry.base + entry.length) ∧
      ¬((largestFreeSegment memmap).1 ≤ frame ∧
        frame < (largestFreeSegment memmap).1 + 4096 * bitmapSizeInPages memmap) ∧
      frame ∉ handed ∧ frame / 4096 < totalMemorySizeInPages memmap := by
  have inv := run.inv valid
  obtain ⟨index, inside, _, frameEq, _, _, usable, notReserved, notHanded⟩ :=
    inv.request_index valid request
  have aligned := (largest_bounds valid.toMapBelow (by decide) inv.found).1
  refine ⟨?_, ?_, notHanded, by omega⟩
  · rw [frameEq]
    exact usable
  · rintro ⟨lower, upper⟩
    exact notReserved ⟨by omega, by omega⟩

/-- Memory of one usable entry above the first page, for closed instances. -/
def smallMap : List MemmapEntry :=
  [{ base := 0x1000, length := 0x10000, type := limineMemmapUsable }]

def poweredOn : Phys Globals :=
  { mem := fun _ => 0
    globals := { hhdmOffset := 0xffff800000000000, freeMemory := 0, usedMemory := 0,
                 bitmapIdx := 0, pfaBitmap := { size := 0, buffer := 0 }, oomPanics := false } }

theorem smallMap_valid : ValidMap smallMap :=
  ⟨⟨by decide, by decide⟩, by decide⟩

theorem requestPage_safe_smallMap :
    ∃ state state' : Phys Globals, FrameRun smallMap state [] ∧
      requestPage state = .ok (0x2000, state') ∧ 0x2000 / 4096 < totalMemorySizeInPages smallMap := by
  have evaluated : ((init poweredOn smallMap >>= requestPage).toOption.map Prod.fst) =
      some 0x2000 := by decide +kernel
  cases booted : init poweredOn smallMap with
  | error fault => simp [booted, Bind.bind, Except.bind, Except.toOption] at evaluated
  | ok state =>
      cases requested : requestPage state with
      | error fault =>
          simp [booted, requested, Bind.bind, Except.bind, Except.toOption] at evaluated
      | ok result =>
          simp only [booted, requested, Bind.bind, Except.bind, Except.toOption, Option.map_some,
            Option.some.injEq] at evaluated
          obtain ⟨frame, state'⟩ := result
          simp only at evaluated
          subst evaluated
          have run := FrameRun.init (by decide) booted
          exact ⟨state, state', run, requested,
            (requestPage_safe smallMap_valid run requested).2.2.2⟩

end

end PageFrameAllocator

end OkeOS
