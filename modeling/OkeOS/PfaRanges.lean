import OkeOS.PfaInit

/-!
The loops over ranges of frames.  `freePages` counts with a `u64`, the two lock loops with an
`int`, so after `2 ^ 19` rounds they lock frames below the start of the range.
-/

namespace OkeOS

open ByteMemory

namespace PageFrameAllocator

/-- What `lockPage` and `lockPageNonAvailable` do to memory. -/
structure LocksOne (step : Phys Globals → Nat → Phys Globals) : Prop where
  bit : ∀ state addr index, storedBit (step state addr) index =
    (storedBit state index || decide (index = addr / 4096 ∧ index ≤ limit state))
  before : ∀ state addr, ∀ address < state.globals.pfaBitmap.buffer,
    (step state addr).mem address = state.mem address
  pfaBitmap : ∀ state addr, (step state addr).globals.pfaBitmap = state.globals.pfaBitmap

theorem lockPage_locksOne : LocksOne lockPage where
  bit := storedBit_lockPage
  before state addr _ below := lockPage_mem state addr (by omega)
  pfaBitmap state addr := (lockPage_globals state addr).1

theorem lockPageNonAvailable_globals (state : Phys Globals) (addr : Nat) :
    (lockPageNonAvailable state addr).globals = state.globals := by
  rw [lockPageNonAvailable]
  split <;> rfl

theorem lockPageNonAvailable_mem (state : Phys Globals) (addr : Nat) :
    (lockPageNonAvailable state addr).mem = (lockPage state addr).mem := by
  by_cases taken : bit state (addr / 4096) = true ∨ limit state < addr / 4096
  · rw [lockPage_eq_self state addr taken]
    rcases taken with set | beyond
    · rw [bit] at set
      rw [lockPageNonAvailable, if_pos set]
    · simp only [lockPageNonAvailable, Bitmap.get_beyond _ _ beyond,
        Bitmap.set_beyond _ _ true beyond]
      simp
  · rw [not_or, Bool.not_eq_true, Nat.not_lt] at taken
    have clear := taken.1
    rw [bit] at clear
    rw [lockPage_eq state addr taken.1 taken.2, lockPageNonAvailable, if_neg (by simp [clear])]

theorem lockPageNonAvailable_locksOne : LocksOne lockPageNonAvailable where
  bit state addr index := by
    rw [← storedBit_lockPage, storedBit, storedBit, lockPageNonAvailable_globals,
      lockPageNonAvailable_mem, (lockPage_globals state addr).1]
  before state addr _ below := by
    rw [lockPageNonAvailable_mem]
    exact lockPage_mem state addr (by omega)
  pfaBitmap state addr := by rw [lockPageNonAvailable_globals]

/-- The frame that round `i` of the loops locks. -/
def lockedFrame (start i : Nat) : Nat := add64 (4096 * start) (intOffset i) / 4096

section Rounds

variable {step : Phys Globals → Nat → Phys Globals} {start : Nat}

theorem rounds_pfaBitmap {rounds : Nat → Phys Globals} (one : LocksOne step)
    (next : ∀ i, rounds (i + 1) = step (rounds i) (add64 (4096 * start) (intOffset i)))
    (count : Nat) : (rounds count).globals.pfaBitmap = (rounds 0).globals.pfaBitmap := by
  induction count with
  | zero => rfl
  | succ i ih => rw [next, one.pfaBitmap, ih]

theorem rounds_before {rounds : Nat → Phys Globals} (one : LocksOne step)
    (next : ∀ i, rounds (i + 1) = step (rounds i) (add64 (4096 * start) (intOffset i)))
    (count : Nat) {address : Nat} (below : address < (rounds 0).globals.pfaBitmap.buffer) :
    (rounds count).mem address = (rounds 0).mem address := by
  induction count with
  | zero => rfl
  | succ i ih => rw [next, one.before _ _ _ (by rwa [rounds_pfaBitmap one next]), ih]

theorem storedBit_rounds (rounds : Nat → Phys Globals) (one : LocksOne step)
    (next : ∀ i, rounds (i + 1) = step (rounds i) (add64 (4096 * start) (intOffset i)))
    (count index : Nat) :
    storedBit (rounds count) index = true ↔ storedBit (rounds 0) index = true ∨
      ∃ i < count, index = lockedFrame start i ∧ index ≤ limit (rounds 0) := by
  induction count with
  | zero => simp
  | succ i ih =>
      rw [next, one.bit, Bool.or_eq_true, ih, decide_eq_true_eq,
        limit_congr (rounds_pfaBitmap one next i)]
      constructor
      · rintro ((set | ⟨j, less, locked⟩) | locked)
        · exact .inl set
        · exact .inr ⟨j, by omega, locked⟩
        · exact .inr ⟨i, by omega, locked⟩
      · rintro (set | ⟨j, less, locked⟩)
        · exact .inl (.inl set)
        · by_cases last : j = i
          · exact .inr (last ▸ locked)
          · exact .inl (.inr ⟨j, by omega, locked⟩)

end Rounds

section Frames

variable {start i : Nat}

theorem lockedFrame_low (inside : start + i % 2 ^ 20 < 2 ^ 52) (low : i % 2 ^ 20 < 2 ^ 19) :
    lockedFrame start i = start + i % 2 ^ 20 := by
  have product : i * 4096 % 2 ^ 32 = i % 2 ^ 20 * 4096 := by omega
  rw [lockedFrame, intOffset, product, if_pos (by omega), add64_of_lt (by omega)]
  omega

theorem lockedFrame_high (inside : start < 2 ^ 52) (high : 2 ^ 19 ≤ i % 2 ^ 20) :
    lockedFrame start i = if 2 ^ 20 ≤ start + i % 2 ^ 20 then start + i % 2 ^ 20 - 2 ^ 20
      else start + i % 2 ^ 20 + 2 ^ 52 - 2 ^ 20 := by
  have product : i * 4096 % 2 ^ 32 = i % 2 ^ 20 * 4096 := by omega
  have bound : i % 2 ^ 20 < 2 ^ 20 := Nat.mod_lt _ (by decide)
  rw [lockedFrame, intOffset, product, if_neg (by omega), add64]
  split <;> omega

/-- The frame where the loop wraps around is left out. -/
theorem lockedFrame_gap (near : start < 2 ^ 19) : start + 2 ^ 19 ≠ lockedFrame start i := by
  intro equal
  by_cases low : i % 2 ^ 20 < 2 ^ 19
  · rw [lockedFrame_low (by omega) low] at equal
    omega
  · rw [lockedFrame_high (by omega) (by omega)] at equal
    split at equal <;> omega

end Frames

/-- `lock` sets the bits of its range that lie inside the bitmap and changes no other bit of
memory, for every contents of memory, and `freePages` clears the same ones and no others. -/
structure LocksRange (lock : Phys Globals → Nat → Nat → Phys Globals) (bitmap : Bitmap)
    (addr pageCount : Nat) : Prop where
  locks : ∀ state : Phys Globals, state.globals.pfaBitmap = bitmap → ∀ index,
    (storedBit (lock state addr pageCount) index = true ↔ storedBit state index = true ∨
      addr / 4096 ≤ index ∧ index < addr / 4096 + pageCount ∧ index < bitmap.size * 8)
  before : ∀ state : Phys Globals, state.globals.pfaBitmap = bitmap →
    ∀ address < bitmap.buffer, (lock state addr pageCount).mem address = state.mem address
  frees : ∀ state : Phys Globals, state.globals.pfaBitmap = bitmap → ∀ index,
    (storedBit (freePages state addr pageCount) index = false ↔ storedBit state index = false ∨
      addr / 4096 ≤ index ∧ index < addr / 4096 + pageCount ∧ index < bitmap.size * 8)

/-- Either the whole range lies inside the bitmap, or it begins behind the frame that the bound
check still lets through.  The `int` counts up to `2 ^ 19` frames; a longer loop does no harm only
where the frames it locks instead lie behind the bitmap as well.  No bitmap is so large that
`Size * 8` wraps; then the frames up to the wrapped product are still locked. -/
def LockInRange (size start count : Nat) : Prop :=
  if size < 2 ^ 61 then
    count ≤ 2 ^ 19 ∧ start + count ≤ size * 8 ∨
      size * 8 < start ∧ (count ≤ 2 ^ 19 ∨ size * 8 + 2 ^ 19 < start ∨
        start < 2 ^ 19 ∧ start + count ≤ 2 ^ 20)
  else count = 0 ∨ count ≤ 2 ^ 19 ∧ start + count ≤ size * 8 % 2 ^ 64 + 1

instance (size start count : Nat) : Decidable (LockInRange size start count) :=
  inferInstanceAs (Decidable (if size < 2 ^ 61 then _ else _))

/-- Up to the frame `last` the loop reaches what lies in its range. -/
def LoopInRange (last start count : Nat) : Prop :=
  count ≤ 2 ^ 19 ∨ last + 2 ^ 19 < start ∨
    start < 2 ^ 19 ∧ last < start + 2 ^ 19 ∧ (start = 0 ∨ start + count ≤ 2 ^ 20)

section Cover

variable {last start count : Nat}

theorem loopInRange_cover (inRange : LoopInRange last start count)
    (noWrap : start + count < 2 ^ 52) {index : Nat} (inside : index ≤ last) :
    (∃ i < min count (2 ^ 31), index = lockedFrame start i) ↔
      start ≤ index ∧ index < start + count := by
  constructor
  · rintro ⟨i, less, rfl⟩
    by_cases low : i % 2 ^ 20 < 2 ^ 19
    · rw [lockedFrame_low (by omega) low]
      omega
    · rw [lockedFrame_high (by omega) (by omega)] at inside ⊢
      rw [LoopInRange] at inRange
      split at inside <;> omega
  · rintro ⟨lower, upper⟩
    have near : index - start < 2 ^ 19 := by
      rw [LoopInRange] at inRange
      omega
    refine ⟨index - start, by omega, ?_⟩
    rw [lockedFrame_low (by omega) (by omega)]
    omega

/-- Otherwise some frame is missed or locked by mistake. -/
theorem loopInRange_astray (astray : ¬LoopInRange last start count)
    (noWrap : start + count < 2 ^ 52) :
    ∃ index ≤ last, ¬((∃ i < min count (2 ^ 31), index = lockedFrame start i) ↔
      start ≤ index ∧ index < start + count) := by
  rw [LoopInRange] at astray
  by_cases far : 2 ^ 19 ≤ start
  · refine ⟨start - 2 ^ 19, by omega, fun same => ?_⟩
    have locked := same.mp ⟨2 ^ 19, by omega, ?_⟩
    · omega
    · rw [lockedFrame_high (by omega) (by omega)]
      split <;> omega
  by_cases missing : start + 2 ^ 19 ≤ last
  · refine ⟨start + 2 ^ 19, missing, fun same => ?_⟩
    obtain ⟨i, less, equal⟩ := same.mpr (by omega)
    exact lockedFrame_gap (by omega) equal
  · refine ⟨0, by omega, fun same => ?_⟩
    have locked := same.mp ⟨2 ^ 20 - start, by omega, ?_⟩
    · omega
    · rw [lockedFrame_high (by omega) (by omega)]
      split <;> omega

/-- The bound check and the end of the bitmap agree on the range, and the loop reaches it. -/
theorem lockInRange_iff {size : Nat} (noWrap : start + count < 2 ^ 52) :
    LockInRange size start count ↔
      (∀ index, start ≤ index → index < start + count →
        (index ≤ mul64 size 8 ↔ index < size * 8)) ∧ LoopInRange (mul64 size 8) start count := by
  have product : mul64 size 8 = size * 8 % 2 ^ 64 := rfl
  rw [LockInRange, LoopInRange]
  by_cases small : size < 2 ^ 61
  · rw [if_pos small]
    constructor
    · intro inRange
      exact ⟨fun index _ _ => by omega, by omega⟩
    · rintro ⟨agree, inRange⟩
      have last := agree (size * 8)
      omega
  · rw [if_neg small]
    constructor
    · intro inRange
      exact ⟨fun index _ _ => by omega, by omega⟩
    · rintro ⟨agree, inRange⟩
      have last := agree (start + count - 1)
      omega

variable {bitmap : Bitmap} {lock : Phys Globals → Nat → Nat → Phys Globals}

theorem storedBit_freePages (noWrap : start + count < 2 ^ 52) (state : Phys Globals) (index : Nat) :
    storedBit (freePages state (4096 * start) count) index = false ↔
      storedBit state index = false ∨
        start ≤ index ∧ index < start + count ∧ index ≤ limit state := by
  induction count with
  | zero =>
      rw [freePages]
      constructor
      · exact .inl
      · rintro (clear | ⟨_, _, _⟩)
        · exact clear
        · omega
  | succ i ih =>
      have page : add64 (4096 * start) (mul64 i 4096) / 4096 = start + i := by
        rw [mul64, Nat.mod_eq_of_lt (by omega), add64_of_lt (by omega)]
        omega
      rw [freePages, storedBit_freePage, page, (freePages_setup state _ i).limit,
        Bool.and_eq_false_iff, ih (by omega), Bool.not_eq_false', decide_eq_true_eq]
      constructor
      · rintro ((clear | inside) | last)
        · exact .inl clear
        · exact .inr (by omega)
        · exact .inr (by omega)
      · rintro (clear | inside)
        · exact .inl (.inl clear)
        · by_cases last : index = start + i
          · exact .inr ⟨last, inside.2.2⟩
          · exact .inl (.inr (by omega))

/-- The lock loops reach the same frames; only `lockPages` counts. -/
structure LockLoop (lock : Phys Globals → Nat → Nat → Phys Globals) : Prop where
  bit : ∀ state start count index, storedBit (lock state (4096 * start) count) index = true ↔
    storedBit state index = true ∨
      ∃ i < min count (2 ^ 31), index = lockedFrame start i ∧ index ≤ limit state
  before : ∀ state start count, ∀ address < state.globals.pfaBitmap.buffer,
    (lock state (4096 * start) count).mem address = state.mem address

theorem lockPages_loop : LockLoop lockPages where
  bit state start _ _ :=
    storedBit_rounds (lockRounds state (4096 * start)) lockPage_locksOne (fun _ => rfl) _ _
  before state start _ _ below :=
    @rounds_before _ _ (lockRounds state (4096 * start)) lockPage_locksOne (fun _ => rfl) _ _ below

theorem lockPagesNonAvailable_loop : LockLoop lockPagesNonAvailable where
  bit state start _ _ :=
    storedBit_rounds (lockRoundsNonAvailable state (4096 * start)) lockPageNonAvailable_locksOne
      (fun _ => rfl) _ _
  before state start _ _ below :=
    @rounds_before _ _ (lockRoundsNonAvailable state (4096 * start)) lockPageNonAvailable_locksOne
      (fun _ => rfl) _ _ below

theorem locksRange_of_inRange (loop : LockLoop lock)
    (inRange : LockInRange bitmap.size start count) (noWrap : start + count < 2 ^ 52) :
    LocksRange lock bitmap (4096 * start) count := by
  obtain ⟨agree, loopInRange⟩ := (lockInRange_iff noWrap).mp inRange
  refine ⟨?_, fun state place address below => loop.before _ _ _ _ (by rwa [place]), ?_⟩
  · intro state place index
    have last : limit state = mul64 bitmap.size 8 := by rw [limit, place]
    rw [loop.bit, Nat.mul_div_cancel_left _ (by decide), last]
    constructor
    · rintro (set | ⟨i, less, equal, inside⟩)
      · exact .inl set
      · obtain ⟨lower, upper⟩ := (loopInRange_cover loopInRange noWrap inside).mp ⟨i, less, equal⟩
        exact .inr ⟨lower, upper, (agree index lower upper).mp inside⟩
    · rintro (set | ⟨lower, upper, inside⟩)
      · exact .inl set
      · have bound := (agree index lower upper).mpr inside
        obtain ⟨i, less, equal⟩ := (loopInRange_cover loopInRange noWrap bound).mpr ⟨lower, upper⟩
        exact .inr ⟨i, less, equal, bound⟩
  · intro state place index
    have last : limit state = mul64 bitmap.size 8 := by rw [limit, place]
    rw [storedBit_freePages noWrap, Nat.mul_div_cancel_left _ (by decide), last]
    refine or_congr_right (and_congr_right fun lower => and_congr_right fun upper => ?_)
    exact agree index lower upper

/-- Memory in which all bits are `byte`'s, with this bitmap. -/
def filledState (byte : UInt8) (bitmap : Bitmap) : Phys Globals :=
  { mem := fun _ => byte
    globals := { hhdmOffset := 0, freeMemory := 0, usedMemory := 0, bitmapIdx := 0,
                 pfaBitmap := bitmap, oomPanics := false } }

/-- A state with this bitmap and no bit set. -/
def clearState (bitmap : Bitmap) : Phys Globals := filledState 0 bitmap

theorem storedBit_clearState (index : Nat) : storedBit (clearState bitmap) index = false :=
  Nat.zero_testBit _

theorem storedBit_filledState (index : Nat) : storedBit (filledState 0xFF bitmap) index = true := by
  have ones : ∀ i : Fin 8, Nat.testBit 0xFF (7 - i.val) = true := by decide
  exact ones ⟨index % 8, Nat.mod_lt _ (by decide)⟩

theorem lockInRange_of_locksRange (loop : LockLoop lock) (noWrap : start + count < 2 ^ 52)
    (range : LocksRange lock bitmap (4096 * start) count) : LockInRange bitmap.size start count := by
  have agree : ∀ index, start ≤ index → index < start + count →
      (index ≤ mul64 bitmap.size 8 ↔ index < bitmap.size * 8) := by
    intro index lower upper
    have frees := range.frees (filledState 0xFF bitmap) rfl index
    rw [storedBit_freePages noWrap, storedBit_filledState, Nat.mul_div_cancel_left _ (by decide)]
      at frees
    simp only [Bool.true_eq_false, false_or, lower, upper, true_and] at frees
    exact frees
  refine (lockInRange_iff noWrap).mpr ⟨agree, ?_⟩
  by_contra astray
  obtain ⟨index, inside, different⟩ := loopInRange_astray astray noWrap
  have locks := range.locks (clearState bitmap) rfl index
  rw [loop.bit, Nat.mul_div_cancel_left _ (by decide), storedBit_clearState] at locks
  simp only [Bool.false_eq_true, false_or] at locks
  refine different ⟨?_, ?_⟩
  · rintro ⟨i, less, equal⟩
    obtain ⟨lower, upper, _⟩ := locks.mp ⟨i, less, equal, inside⟩
    exact ⟨lower, upper⟩
  · rintro ⟨lower, upper⟩
    obtain ⟨i, less, equal, _⟩ := locks.mpr ⟨lower, upper, (agree index lower upper).mp inside⟩
    exact ⟨i, less, equal⟩

/-- Both lock loops cover their range exactly when the `int` and the bound check of the bitmap do
not lead them outside of it. -/
theorem locksRange_iff (bitmap : Bitmap) (addr pageCount : Nat) (aligned : addr % 4096 = 0)
    (noOverflow : addr + 4096 * pageCount < 2 ^ 64) :
    (LocksRange lockPages bitmap addr pageCount ↔
        LockInRange bitmap.size (addr / 4096) pageCount) ∧
      (LocksRange lockPagesNonAvailable bitmap addr pageCount ↔
        LockInRange bitmap.size (addr / 4096) pageCount) := by
  obtain ⟨start, rfl⟩ : ∃ start, addr = 4096 * start := ⟨addr / 4096, by omega⟩
  rw [Nat.mul_div_cancel_left _ (by decide)]
  have noWrap : start + pageCount < 2 ^ 52 := by omega
  constructor
  · exact ⟨lockInRange_of_locksRange lockPages_loop noWrap,
      fun inRange => locksRange_of_inRange lockPages_loop inRange noWrap⟩
  · exact ⟨lockInRange_of_locksRange lockPagesNonAvailable_loop noWrap,
      fun inRange => locksRange_of_inRange lockPagesNonAvailable_loop inRange noWrap⟩

theorem locksRange_iff_small :
    LocksRange lockPages { size := 2 ^ 16, buffer := 0x1000 } 0 (2 ^ 19) ∧
      LocksRange lockPagesNonAvailable { size := 2 ^ 16, buffer := 0x1000 } 0 (2 ^ 19) := by
  have both := locksRange_iff { size := 2 ^ 16, buffer := 0x1000 } 0 (2 ^ 19) (by decide) (by decide)
  exact ⟨both.1.mpr (.inl (by decide)), both.2.mpr (.inl (by decide))⟩

/-- Two gibibytes and a page: the call of `init` leaves the last frame unlocked.  And a bitmap of
one byte: the frame behind its last one is locked in the next byte. -/
theorem lockPages_missesLast :
    let memmap : List MemmapEntry := [{ base := 0x1000, length := 2 ^ 31, type := 0 }]
    let bitmap : Bitmap := { size := bitmapSize memmap, buffer := 0x1000 }
    totalMemorySizeInPages memmap = 2 ^ 19 + 1 ∧
      bit (lockPages (clearState bitmap) 0 (totalMemorySizeInPages memmap)) (2 ^ 19) = false ∧
      ¬LocksRange lockPages bitmap 0 (totalMemorySizeInPages memmap) ∧
      (lockPages (clearState { size := 1, buffer := 0x1000 }) 0x8000 1).mem 0x1001 = 0x80 ∧
      ¬LocksRange lockPages { size := 1, buffer := 0x1000 } 0x8000 1 := by
  intro memmap bitmap
  have total : totalMemorySizeInPages memmap = 2 ^ 19 + 1 := by decide
  rw [total]
  refine ⟨rfl, ?_, ?_, by decide, ?_⟩
  · rw [← Bool.not_eq_true]
    intro set
    rw [bit_eq_storedBit _ (bit_bound _ set), ← Nat.mul_zero 4096, lockPages_loop.bit,
      storedBit_clearState] at set
    simp only [Bool.false_eq_true, false_or] at set
    obtain ⟨i, less, equal, _⟩ := set
    refine lockedFrame_gap (show 0 < 2 ^ 19 by decide) ((Nat.zero_add _).trans equal)
  · rw [← Nat.mul_zero 4096]
    intro range
    exact absurd (lockInRange_of_locksRange lockPages_loop (by decide) range) (by decide)
  · intro range
    rw [show 0x8000 = 4096 * 8 from rfl] at range
    exact absurd (lockInRange_of_locksRange lockPages_loop (by decide) range) (by decide)

end Cover

end PageFrameAllocator

end OkeOS
