import OkeOS.FrameContract

/-!
Ranges of pages, and the state that `init` leaves: which bits are clear, where the
search starts, and what the counters say.
-/

namespace OkeOS

open ByteMemory

namespace PageFrameAllocator

section Ranges

variable (state : Phys Globals)

/-- Locking or freeing pages moves neither the bitmap nor the mode. -/
structure SameSetup (first second : Phys Globals) : Prop where
  pfaBitmap : first.globals.pfaBitmap = second.globals.pfaBitmap
  oomPanics : first.globals.oomPanics = second.globals.oomPanics
  hhdmOffset : first.globals.hhdmOffset = second.globals.hhdmOffset

theorem SameSetup.refl : SameSetup state state := ⟨rfl, rfl, rfl⟩

theorem SameSetup.trans {first second third : Phys Globals} (left : SameSetup first second)
    (right : SameSetup second third) : SameSetup first third :=
  ⟨left.pfaBitmap.trans right.pfaBitmap, left.oomPanics.trans right.oomPanics,
    left.hhdmOffset.trans right.hhdmOffset⟩

theorem SameSetup.limit {first second : Phys Globals} (same : SameSetup first second) :
    limit first = limit second :=
  limit_congr same.pfaBitmap

theorem lockPage_setup (addr : Nat) : SameSetup (lockPage state addr) state := by
  obtain ⟨pfaBitmap, _, oomPanics, hhdmOffset⟩ := lockPage_globals state addr
  exact ⟨pfaBitmap, oomPanics, hhdmOffset⟩

theorem freePage_setup (addr : Nat) : SameSetup (freePage state addr) state := by
  obtain ⟨pfaBitmap, oomPanics, hhdmOffset⟩ := freePage_globals state addr
  exact ⟨pfaBitmap, oomPanics, hhdmOffset⟩

theorem lockRounds_setup (addr count : Nat) :
    SameSetup (lockRounds state addr count) state ∧
      (lockRounds state addr count).globals.bitmapIdx = state.globals.bitmapIdx := by
  induction count with
  | zero => exact ⟨SameSetup.refl state, rfl⟩
  | succ i ih =>
      rw [lockRounds]
      refine ⟨(lockPage_setup _ _).trans ih.1, ?_⟩
      rw [(lockPage_globals _ _).2.1, ih.2]

theorem freePages_setup (addr count : Nat) : SameSetup (freePages state addr count) state := by
  induction count with
  | zero => exact SameSetup.refl state
  | succ i ih =>
      rw [freePages]
      exact (freePage_setup _ _).trans ih

theorem freePage_hint (addr : Nat) (start : state.globals.bitmapIdx = 0) :
    (freePage state addr).globals.bitmapIdx = 0 := by
  cases set : bit state (addr / 4096) with
  | false =>
      rw [freePage_eq_self state addr set]
      exact start
  | true =>
      rw [freePage_eq state addr set, counted_bitmapIdx, start]
      exact Nat.min_zero _

theorem freePages_hint (addr count : Nat) (start : state.globals.bitmapIdx = 0) :
    (freePages state addr count).globals.bitmapIdx = 0 := by
  induction count with
  | zero => exact start
  | succ i ih =>
      rw [freePages]
      exact freePage_hint _ _ ih

theorem intOffset_eq {i : Nat} (small : i < 2 ^ 19) : intOffset i = 4096 * i := by
  simp only [intOffset]
  rw [Nat.mod_eq_of_lt (by omega), if_pos (by omega), Nat.mul_comm]

/-- `lockPages` sets the bits of its range, as long as `i * 4096` fits an `int`. -/
theorem bit_lockRounds {start count : Nat} (small : count ≤ 2 ^ 19)
    (noWrap : 4096 * (start + count) ≤ 2 ^ 64) (index : Nat) :
    bit (lockRounds state (4096 * start) count) index = true ↔
      bit state index = true ∨ (start ≤ index ∧ index < start + count ∧ index ≤ limit state) := by
  induction count with
  | zero =>
      simp only [lockRounds]
      constructor
      · exact Or.inl
      · rintro (set | outside)
        · exact set
        · omega
  | succ i ih =>
      have page : add64 (4096 * start) (intOffset i) / 4096 = start + i := by
        rw [intOffset_eq (by omega), add64_of_lt (by omega)]
        omega
      rw [lockRounds, bit_lockPage, page, (lockRounds_setup state (4096 * start) i).1.limit,
        Bool.or_eq_true, ih (by omega) (by omega), decide_eq_true_eq]
      constructor
      · rintro ((set | inside) | new)
        · exact Or.inl set
        · exact Or.inr (by omega)
        · exact Or.inr (by omega)
      · rintro (set | inside)
        · exact Or.inl (Or.inl set)
        · by_cases last : index = start + i
          · exact Or.inr ⟨last, inside.2.2⟩
          · exact Or.inl (Or.inr (by omega))

theorem bit_freePages {start count : Nat} (noWrap : 4096 * (start + count) ≤ 2 ^ 64)
    (index : Nat) :
    bit (freePages state (4096 * start) count) index = true ↔
      bit state index = true ∧ ¬(start ≤ index ∧ index < start + count) := by
  induction count with
  | zero =>
      simp only [freePages]
      constructor
      · intro set
        exact ⟨set, by omega⟩
      · exact And.left
  | succ i ih =>
      have page : add64 (4096 * start) (mul64 i 4096) / 4096 = start + i := by
        rw [mul64, Nat.mod_eq_of_lt (by omega), add64_of_lt (by omega)]
        omega
      rw [freePages, bit_freePage, page, Bool.and_eq_true, ih (by omega), decide_eq_true_eq]
      constructor
      · rintro ⟨⟨set, outside⟩, different⟩
        exact ⟨set, by omega⟩
      · rintro ⟨set, outside⟩
        exact ⟨⟨set, by omega⟩, by omega⟩

/-- Locking clear frames takes 4096 bytes each from the free memory. -/
theorem lockRounds_freeMemory {start count : Nat} (small : count ≤ 2 ^ 19)
    (noWrap : 4096 * (start + count) ≤ 2 ^ 64) (inside : start + count ≤ limit state)
    (clear : ∀ index, start ≤ index → index < start + count → bit state index = false)
    (enough : 4096 * count ≤ state.globals.freeMemory) (word : state.globals.freeMemory < 2 ^ 64) :
    (lockRounds state (4096 * start) count).globals.freeMemory =
      state.globals.freeMemory - 4096 * count := by
  induction count with
  | zero => simp [lockRounds]
  | succ i ih =>
      have before := ih (by omega) (by omega) (by omega)
        (fun index lower upper => clear index lower (by omega)) (by omega)
      have page : add64 (4096 * start) (intOffset i) / 4096 = start + i := by
        rw [intOffset_eq (by omega), add64_of_lt (by omega)]
        omega
      have stillClear : bit (lockRounds state (4096 * start) i) (start + i) = false := by
        rw [← Bool.not_eq_true, bit_lockRounds state (by omega) (by omega)]
        rintro (set | ⟨_, upper, _⟩)
        · rw [clear (start + i) (by omega) (by omega)] at set
          exact Bool.false_ne_true set
        · omega
      have bound : start + i ≤ limit (lockRounds state (4096 * start) i) := by
        rw [(lockRounds_setup state (4096 * start) i).1.limit]
        omega
      rw [lockRounds, lockPage_eq _ _ (by rw [page]; exact stillClear) (by rw [page]; exact bound),
        counted_freeMemory, before, sub64_of_le (by omega) (by omega)]
      omega

end Ranges

/-! The memory map. -/

/-- The frame lies in a usable entry. -/
def UsableFrame (memmap : List MemmapEntry) (index : Nat) : Prop :=
  ∃ entry ∈ memmap, entry.type = limineMemmapUsable ∧ entry.base ≤ 4096 * index ∧
    4096 * index + 4096 ≤ entry.base + entry.length

instance (memmap : List MemmapEntry) (index : Nat) : Decidable (UsableFrame memmap index) :=
  inferInstanceAs (Decidable (∃ entry ∈ memmap, _))

/-- Usable entries consist of whole pages, and no entry ends above `bound`. -/
structure MapBelow (memmap : List MemmapEntry) (bound : Nat) : Prop where
  aligned : ∀ entry ∈ memmap, entry.type = limineMemmapUsable →
    entry.base % 4096 = 0 ∧ entry.length % 4096 = 0
  ends : ∀ entry ∈ memmap, entry.base + entry.length ≤ bound

section Memmap

variable {memmap : List MemmapEntry} {bound : Nat}

theorem areal_foldl (size : Nat) (small : bound < 2 ^ 64)
    (ends : ∀ entry ∈ memmap, entry.base + entry.length ≤ bound) :
    size ≤ memmap.foldl arealStep size ∧
      (∀ entry ∈ memmap, entry.base + entry.length ≤ memmap.foldl arealStep size) ∧
      (size ≤ bound → memmap.foldl arealStep size ≤ bound) := by
  induction memmap generalizing size with
  | nil => simp
  | cons first rest ih =>
      have firstEnd := ends first (by simp)
      have step : size ≤ arealStep size first ∧
          first.base + first.length ≤ arealStep size first ∧
          (size ≤ bound → arealStep size first ≤ bound) := by
        rw [arealStep, add64_of_lt (by omega)]
        split <;> omega
      rw [List.foldl_cons]
      obtain ⟨grows, covers, below⟩ := ih (arealStep size first)
        fun entry member => ends entry (by simp [member])
      refine ⟨by omega, ?_, fun start => below (step.2.2 start)⟩
      intro entry member
      rcases List.mem_cons.mp member with same | later
      · rw [same]
        omega
      · exact covers entry later

theorem areal_covers (map : MapBelow memmap bound) (small : bound < 2 ^ 64) {entry : MemmapEntry}
    (member : entry ∈ memmap) : entry.base + entry.length ≤ getMemoryArealSize memmap :=
  (areal_foldl 0 small map.ends).2.1 entry member

theorem areal_le (map : MapBelow memmap bound) (small : bound < 2 ^ 64) :
    getMemoryArealSize memmap ≤ bound :=
  (areal_foldl 0 small map.ends).2.2 (Nat.zero_le _)

theorem largest_foldl (memmap : List MemmapEntry) (start : Nat × Nat) :
    memmap.foldl largestStep start = start ∨
      ∃ entry ∈ memmap, entry.type = limineMemmapUsable ∧
        memmap.foldl largestStep start = (entry.base, entry.length) := by
  induction memmap generalizing start with
  | nil => exact Or.inl rfl
  | cons first rest ih =>
      rw [List.foldl_cons]
      rcases ih (largestStep start first) with same | ⟨entry, member, usable, found⟩
      · rw [same, largestStep]
        split
        · rename_i better
          exact Or.inr ⟨first, by simp, better.1, rfl⟩
        · exact Or.inl rfl
      · exact Or.inr ⟨entry, by simp [member], usable, found⟩

theorem largest_mem (found : (largestFreeSegment memmap).1 ≠ 0) :
    ∃ entry ∈ memmap, entry.type = limineMemmapUsable ∧
      largestFreeSegment memmap = (entry.base, entry.length) := by
  rcases largest_foldl memmap (0, 0) with none | some
  · rw [largestFreeSegment, none] at found
    exact absurd rfl found
  · exact some

theorem freeEntry_setup (state : Phys Globals) (entry : MemmapEntry) :
    SameSetup (freeEntry state entry) state := by
  rw [freeEntry]
  split
  · exact freePages_setup state _ _
  · exact SameSetup.refl state

theorem freeEntries_setup (memmap : List MemmapEntry) (state : Phys Globals) :
    SameSetup (memmap.foldl freeEntry state) state := by
  induction memmap generalizing state with
  | nil => exact SameSetup.refl state
  | cons entry rest ih =>
      rw [List.foldl_cons]
      exact (ih _).trans (freeEntry_setup state entry)

theorem freeEntries_hint (state : Phys Globals) (start : state.globals.bitmapIdx = 0) :
    (memmap.foldl freeEntry state).globals.bitmapIdx = 0 := by
  induction memmap generalizing state with
  | nil => exact start
  | cons entry rest ih =>
      rw [List.foldl_cons]
      apply ih
      rw [freeEntry]
      split
      · exact freePages_hint _ _ _ start
      · exact start

theorem bit_freeEntry (state : Phys Globals) {entry : MemmapEntry} (small : bound < 2 ^ 64)
    (ends : entry.base + entry.length ≤ bound)
    (aligned : entry.type = limineMemmapUsable → entry.base % 4096 = 0 ∧ entry.length % 4096 = 0)
    (index : Nat) :
    bit (freeEntry state entry) index = true ↔ bit state index = true ∧
      ¬(entry.type = limineMemmapUsable ∧ entry.base ≤ 4096 * index ∧
        4096 * index + 4096 ≤ entry.base + entry.length) := by
  rw [freeEntry]
  split
  · rename_i usable
    obtain ⟨baseAligned, lengthAligned⟩ := aligned usable
    have baseEq : entry.base = 4096 * (entry.base / 4096) := by omega
    rw [baseEq, bit_freePages state (by omega)]
    constructor
    · rintro ⟨set, outside⟩
      exact ⟨set, by omega⟩
    · rintro ⟨set, outside⟩
      refine ⟨set, fun inside => outside ⟨usable, by omega, by omega⟩⟩
  · rename_i other
    simp [other]

/-- Freeing the usable entries clears exactly the bits of their frames. -/
theorem bit_freeEntries (map : MapBelow memmap bound) (small : bound < 2 ^ 64)
    (state : Phys Globals) (index : Nat) :
    bit (memmap.foldl freeEntry state) index = true ↔
      bit state index = true ∧ ¬UsableFrame memmap index := by
  induction memmap generalizing state with
  | nil => simp [UsableFrame]
  | cons entry rest ih =>
      have tail : MapBelow rest bound :=
        ⟨fun other member => map.aligned other (by simp [member]),
          fun other member => map.ends other (by simp [member])⟩
      rw [List.foldl_cons, ih tail, bit_freeEntry state small (map.ends entry (by simp))
        (map.aligned entry (by simp))]
      simp only [UsableFrame, List.mem_cons, exists_eq_or_imp, not_or, and_assoc]

end Memmap

/-! `init`. -/

def withCounters (state : Phys Globals) (freeMemory : Nat) : Phys Globals :=
  { state with globals :=
      { state.globals with usedMemory := 0, freeMemory := freeMemory, oomPanics := true } }

/-- The state after the usable entries are freed, before the bitmap is locked. -/
def beforeLock (state : Phys Globals) (memmap : List MemmapEntry) : Phys Globals :=
  withCounters
    (memmap.foldl freeEntry
      (lockPages (initBitmap state (bitmapSize memmap)
        (add64 state.globals.hhdmOffset (largestFreeSegment memmap).1)) 0
        (totalMemorySizeInPages memmap)))
    (largestFreeSegment memmap).2

theorem init_ok {state state' : Phys Globals} {memmap : List MemmapEntry}
    (run : init state memmap = .ok state') :
    (largestFreeSegment memmap).1 ≠ 0 ∧
      state' = lockPages (beforeLock state memmap) (largestFreeSegment memmap).1
        (bitmapSizeInPages memmap) := by
  unfold init at run
  split at run
  rename_i largest size chosen
  split at run
  · simp at run
  · rename_i nonzero
    rw [Except.ok.injEq] at run
    rw [beforeLock, chosen]
    exact ⟨nonzero, run.symm⟩

theorem init_succeeds (memmap : List MemmapEntry) (state : Phys Globals)
    (found : (largestFreeSegment memmap).1 ≠ 0) :
    ∃ state', init state memmap = .ok state' := by
  unfold init
  split
  rename_i largest size chosen
  rw [chosen] at found
  rw [if_neg found]
  exact ⟨_, rfl⟩

section Init

variable {state state' : Phys Globals} {memmap : List MemmapEntry} {bound : Nat}

theorem toPhys_toVirt {hhdmOffset address : Nat} (word : hhdmOffset < 2 ^ 64)
    (small : address < 2 ^ 64) : toPhys hhdmOffset (add64 hhdmOffset address) = address := by
  rw [toPhys, sub64, add64]
  omega

theorem largest_bounds (map : MapBelow memmap bound) (small : bound < 2 ^ 64)
    (found : (largestFreeSegment memmap).1 ≠ 0) :
    (largestFreeSegment memmap).1 % 4096 = 0 ∧ (largestFreeSegment memmap).2 % 4096 = 0 ∧
      (largestFreeSegment memmap).1 + (largestFreeSegment memmap).2 ≤
        getMemoryArealSize memmap := by
  obtain ⟨entry, member, usable, chosen⟩ := largest_mem found
  obtain ⟨baseAligned, lengthAligned⟩ := map.aligned entry member usable
  rw [chosen]
  exact ⟨baseAligned, lengthAligned, areal_covers map small member⟩

theorem beforeLock_setup (state : Phys Globals) (memmap : List MemmapEntry) :
    (beforeLock state memmap).globals.pfaBitmap =
        { size := bitmapSize memmap
          buffer := toPhys state.globals.hhdmOffset
            (add64 state.globals.hhdmOffset (largestFreeSegment memmap).1) } ∧
      (beforeLock state memmap).globals.bitmapIdx = 0 ∧
      (beforeLock state memmap).globals.oomPanics = true ∧
      (beforeLock state memmap).globals.freeMemory = (largestFreeSegment memmap).2 := by
  generalize start : initBitmap state (bitmapSize memmap)
    (add64 state.globals.hhdmOffset (largestFreeSegment memmap).1) = zeroed
  have locked := lockRounds_setup zeroed 0 (min (totalMemorySizeInPages memmap) (2 ^ 31))
  have freed := freeEntries_setup memmap
    (lockPages zeroed 0 (totalMemorySizeInPages memmap))
  have place : zeroed.globals.pfaBitmap =
      { size := bitmapSize memmap
        buffer := toPhys state.globals.hhdmOffset
          (add64 state.globals.hhdmOffset (largestFreeSegment memmap).1) } := by
    rw [← start, initBitmap]
  have hint : zeroed.globals.bitmapIdx = 0 := by
    rw [← start, initBitmap]
  rw [beforeLock, start]
  refine ⟨?_, ?_, rfl, rfl⟩
  · exact (freed.pfaBitmap.trans locked.1.pfaBitmap).trans place
  · exact freeEntries_hint _ (locked.2.trans hint)

theorem init_setup (map : MapBelow memmap bound) (small : bound < 2 ^ 64)
    (word : state.globals.hhdmOffset < 2 ^ 64) (run : init state memmap = .ok state') :
    state'.globals.pfaBitmap =
        { size := bitmapSize memmap, buffer := (largestFreeSegment memmap).1 } ∧
      state'.globals.bitmapIdx = 0 ∧ state'.globals.oomPanics = true := by
  obtain ⟨nonzero, stateEq⟩ := init_ok run
  have bounds := largest_bounds map small nonzero
  have below := areal_le map small
  obtain ⟨place, hint, panics, _⟩ := beforeLock_setup state memmap
  obtain ⟨locked, lockedHint⟩ := lockRounds_setup (beforeLock state memmap)
    (largestFreeSegment memmap).1 (min (bitmapSizeInPages memmap) (2 ^ 31))
  rw [toPhys_toVirt word (by omega)] at place
  rw [stateEq, lockPages]
  exact ⟨locked.pfaBitmap.trans place, lockedHint.trans hint, locked.oomPanics.trans panics⟩

theorem bit_lockRounds_mono {addr few many index : Nat} (le : few ≤ many)
    (set : bit (lockRounds state addr few) index = true) :
    bit (lockRounds state addr many) index = true := by
  induction le with
  | refl => exact set
  | step _ ih => rw [lockRounds, bit_lockPage, ih, Bool.true_or]

theorem init_owned (map : MapBelow memmap (2 ^ 46 - 1)) (word : state.globals.hhdmOffset < 2 ^ 64)
    (run : init state memmap = .ok state') : Owned state' [] := by
  obtain ⟨place, _, _⟩ := init_setup map (by decide) word run
  obtain ⟨nonzero, stateEq⟩ := init_ok run
  obtain ⟨aligned, _, ends⟩ := largest_bounds map (by decide) nonzero
  have below := areal_le map (by decide)
  have sizeBound : bitmapSize memmap ≤ 2 ^ 31 := by
    rw [bitmapSize]
    omega
  have pages : bitmapSizeInPages memmap = bitmapSize memmap / 4096 + 1 := rfl
  refine ⟨by rw [place]; simp only; omega, ?_, by simp⟩
  rintro index upper ⟨lower, high⟩
  rw [place] at lower high
  simp only at lower high
  have limitEq : limit state' = limit (beforeLock state memmap) := by
    rw [stateEq, lockPages, (lockRounds_setup _ _ _).1.limit]
  obtain ⟨start, startEq⟩ : ∃ start, (largestFreeSegment memmap).1 = 4096 * start :=
    ⟨(largestFreeSegment memmap).1 / 4096, by omega⟩
  obtain ⟨count, countBound, few, inside⟩ : ∃ count ≤ 2 ^ 19,
      count ≤ min (bitmapSizeInPages memmap) (2 ^ 31) ∧ index - start < count :=
    ⟨min (bitmapSizeInPages memmap) (2 ^ 19), Nat.min_le_right _ _,
      min_le_min_left _ (by decide), Nat.lt_min.mpr ⟨by omega, by omega⟩⟩
  rw [stateEq, lockPages, startEq]
  apply bit_lockRounds_mono few
  clear few
  rw [bit_lockRounds _ countBound (by omega)]
  exact Or.inr ⟨by omega, by omega, by omega⟩

end Init

end PageFrameAllocator

end OkeOS
