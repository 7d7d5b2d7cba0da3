import Mathlib.Data.List.Range
import OkeOS.PagingRun

/-!
Which frames the allocator hands out first.  Frames are taken from the bottom of memory,
so a frame below 16 MiB that was handed out has few free frames under it.
-/

namespace OkeOS

open ByteMemory

namespace PageFrameAllocator

/-- The frame is free once the allocator is initialised. -/
def FreeAtBoot (memmap : List MemmapEntry) (index : Nat) : Prop :=
  UsableFrame memmap index ∧ ¬BitmapFrame memmap index

instance (memmap : List MemmapEntry) (index : Nat) : Decidable (BitmapFrame memmap index) :=
  inferInstanceAs (Decidable (_ ∧ _))

instance (memmap : List MemmapEntry) (index : Nat) : Decidable (FreeAtBoot memmap index) :=
  inferInstanceAs (Decidable (_ ∧ _))

/-- The number of frames under `index` that are free once the allocator is initialised. -/
def lowerFrames (memmap : List MemmapEntry) (index : Nat) : Nat :=
  (List.range index).countP fun other => decide (FreeAtBoot memmap other)

/-- The number of frames under 16 MiB. -/
def lowFrameCount : Nat := 4096

/-- What is known of the frames under 16 MiB, for memory of any size. -/
structure LowInv (memmap : List MemmapEntry) (state : Phys Globals) (handed : List Nat) :
    Prop where
  owned : Owned state handed
  size : limit state ≤ 2 ^ 34
  total : totalMemorySizeInPages memmap < limit state
  exact : ∀ index < lowFrameCount, index < totalMemorySizeInPages memmap →
    (bit state index = false ↔ FreeAtBoot memmap index ∧ 4096 * index ∉ handed)
  hint : ∀ index < lowFrameCount, index < totalMemorySizeInPages memmap →
    index < state.globals.bitmapIdx → bit state index = true
  counted : ∀ frame ∈ handed,
    (frame / 4096 < lowFrameCount ∧ FreeAtBoot memmap (frame / 4096) ∧
      lowerFrames memmap (frame / 4096) < handed.length) ∨
    lowerFrames memmap lowFrameCount < handed.length

section

variable {memmap : List MemmapEntry} {state state' : Phys Globals} {handed : List Nat}
  {frame index : Nat}

theorem lowerFrames_mono (memmap : List MemmapEntry) {first second : Nat} (le : first ≤ second) :
    lowerFrames memmap first ≤ lowerFrames memmap second := by
  have sub : (List.range first).Sublist (List.range second) := List.range_sublist.mpr le
  exact sub.countP_le

theorem lowerFrames_le (few : ∀ other < index, FreeAtBoot memmap other → 4096 * other ∈ handed) :
    lowerFrames memmap index ≤ handed.length := by
  rw [lowerFrames, List.countP_eq_length_filter]
  have distinct : (((List.range index).filter fun other =>
      decide (FreeAtBoot memmap other)).map (4096 * ·)).Nodup := by
    refine List.Nodup.map ?_ (List.nodup_range.filter _)
    intro left right same
    exact Nat.eq_of_mul_eq_mul_left (by decide) same
  have subset : ((List.range index).filter fun other =>
      decide (FreeAtBoot memmap other)).map (4096 * ·) ⊆ handed := by
    intro other member
    obtain ⟨slot, inFilter, rfl⟩ := List.mem_map.mp member
    obtain ⟨inRange, free⟩ := List.mem_filter.mp inFilter
    exact few slot (List.mem_range.mp inRange) (by simpa using free)
  have short := (List.subperm_of_subset distinct subset).length_le
  rwa [List.length_map] at short

theorem LowInv.init (map : MapBelow memmap (2 ^ 45)) (offset : state.globals.hhdmOffset < 2 ^ 64)
    (run : init state memmap = .ok state') : LowInv memmap state' [] := by
  obtain ⟨place, hint, _⟩ := init_setup map (by decide) offset run
  have below46 : MapBelow memmap (2 ^ 46 - 1) :=
    ⟨map.aligned, fun entry member => (map.ends entry member).trans (by decide)⟩
  have below := areal_le map (by decide)
  have total : totalMemorySizeInPages memmap = getMemoryArealSize memmap / 4096 := rfl
  have size : bitmapSize memmap = totalMemorySizeInPages memmap / 8 + 1 := rfl
  have word : bitmapSize memmap * 8 < 2 ^ 64 := by omega
  have limitEq : limit state' = bitmapSize memmap * 8 := by
    rw [limit, place, mul64, Nat.mod_eq_of_lt word]
  refine ⟨init_owned below46 offset run, by omega, by omega, ?_, ?_, by simp⟩
  · intro index low inside
    have count : lowFrameCount = 4096 := rfl
    rw [init_bits map offset run inside (by omega), FreeAtBoot]
    simp
  · intro index _ _ less
    omega

/-- All free frames under 16 MiB and under the one that a request takes are handed out. -/
theorem LowInv.lower_handed (inv : LowInv memmap state handed) (map : MapBelow memmap (2 ^ 45))
    (found : Found state index) {other : Nat} (less : other < index) (low : other < lowFrameCount)
    (free : FreeAtBoot memmap other) : 4096 * other ∈ handed := by
  have inside := usableFrame_lt map (by decide) free.1
  have set : bit state other = true := by
    by_cases hinted : other < state.globals.bitmapIdx
    · exact inv.hint other low inside hinted
    · exact found.first other (by omega) less
  by_contra notHanded
  rw [(inv.exact other low inside).mpr ⟨free, notHanded⟩] at set
  exact Bool.false_ne_true set

/-- Where the requested frame lies. -/
theorem LowInv.request_counted (inv : LowInv memmap state handed) (map : MapBelow memmap (2 ^ 45))
    (found : Found state index) :
    (index < lowFrameCount ∧ FreeAtBoot memmap index ∧ lowerFrames memmap index ≤ handed.length) ∨
      lowerFrames memmap lowFrameCount ≤ handed.length := by
  by_cases low : index < lowFrameCount
  · by_cases inside : index < totalMemorySizeInPages memmap
    · refine Or.inl ⟨low, ((inv.exact index low inside).mp found.clear).1, ?_⟩
      exact lowerFrames_le fun other less free =>
        inv.lower_handed map found less (by omega) free
    · refine Or.inr (lowerFrames_le fun other less free => ?_)
      have otherInside := usableFrame_lt map (by decide) free.1
      exact inv.lower_handed map found (by omega) less free
  · exact Or.inr (lowerFrames_le fun other less free =>
      inv.lower_handed map found (by omega) less free)

theorem LowInv.request (inv : LowInv memmap state handed) (map : MapBelow memmap (2 ^ 45))
    (run : requestPage state = .ok (frame, state')) : LowInv memmap state' (frame :: handed) := by
  obtain ⟨index, found, upper, frameEq, stateEq⟩ := inv.owned.request_ok run
  have limitEq : limit state' = limit state := by
    rw [stateEq]
    exact limit_congr (request_bitmap state index (4096 * index))
  have total := inv.total
  refine ⟨inv.owned.request run, by rw [limitEq]; exact inv.size, by rw [limitEq]; exact total,
    ?_, ?_, ?_⟩
  · intro other low inside
    rw [stateEq, bit_request upper, Bool.or_eq_false_iff, inv.exact other low inside,
      decide_eq_false_iff_not, List.mem_cons, not_or, frameEq]
    constructor
    · rintro ⟨⟨free, notHanded⟩, different⟩
      exact ⟨free, by omega, notHanded⟩
    · rintro ⟨free, different, notHanded⟩
      exact ⟨⟨free, notHanded⟩, by omega⟩
  · intro other low inside less
    rw [stateEq, (lockPage_globals _ _).2.1] at less
    change other < index at less
    rw [stateEq, bit_request upper, Bool.or_eq_true]
    by_cases hinted : other < state.globals.bitmapIdx
    · exact Or.inl (inv.hint other low inside hinted)
    · exact Or.inl (found.first other (by omega) less)
  · intro other member
    rw [List.length_cons]
    rcases List.mem_cons.mp member with new | old
    · have same : other / 4096 = index := by omega
      rw [same]
      rcases inv.request_counted map found with ⟨low, free, few⟩ | few
      · exact Or.inl ⟨low, free, by omega⟩
      · exact Or.inr (by omega)
    · rcases inv.counted other old with ⟨low, free, few⟩ | few
      · exact Or.inl ⟨low, free, by omega⟩
      · exact Or.inr (by omega)

theorem LowInv.write (inv : LowInv memmap state handed) {mem : Memory}
    (changed : ∀ address, mem address ≠ state.mem address →
      ∃ frame ∈ handed, InFrame frame address) :
    LowInv memmap { state with mem := mem } handed := by
  have total := inv.total
  have same (index : Nat) (inside : index < totalMemorySizeInPages memmap) :
      bit { state with mem := mem } index = bit state index :=
    inv.owned.write_bit changed (by omega)
  refine ⟨inv.owned.write changed, inv.size, total, ?_, ?_, inv.counted⟩
  · intro index low inside
    rw [same index inside]
    exact inv.exact index low inside
  · intro index low inside less
    rw [same index inside]
    exact inv.hint index low inside less

theorem LowInv.contract (map : MapBelow memmap (2 ^ 45)) :
    FrameContract requestPage (LowInv memmap) where
  request := fun inv run => inv.request map run
  fresh := fun inv run => inv.owned.fresh run
  keeps := fun inv run _ member _ inside => inv.owned.keeps run member inside
  write := fun inv changed => inv.write changed
  aligned := fun inv => PageFrameAllocator.contract.aligned inv.owned
  bound := fun inv => PageFrameAllocator.contract.bound inv.owned

end

end PageFrameAllocator

end OkeOS
