import OkeOS.PagingRun

/-!
The counters of the frame allocator against its bitmap.  `init` sets the free memory to
the size of the largest usable entry, so the two agree exactly when there is no other.
-/

namespace OkeOS

open ByteMemory

namespace PageFrameAllocator

/-- The number of usable frames whose bit is clear. -/
def freeFrames (memmap : List MemmapEntry) (state : Phys Globals) : Nat :=
  (List.range (totalMemorySizeInPages memmap)).countP fun index =>
    decide (UsableFrame memmap index ∧ bit state index = false)

def usableLength (memmap : List MemmapEntry) : Nat :=
  ((memmap.filter fun entry => entry.type = limineMemmapUsable).map MemmapEntry.length).sum

structure CountersAgree (memmap : List MemmapEntry) (state : Phys Globals) : Prop where
  free : getFreeRAM state = 4096 * freeFrames memmap state
  total : getTotalRAM state = usableLength memmap
  panics : requestPage state = .error (.panic "Out of memory") → freeFrames memmap state < 4

def nonemptyUsable (memmap : List MemmapEntry) : List MemmapEntry :=
  memmap.filter fun entry => entry.type = limineMemmapUsable ∧ 0 < entry.length

section

variable {memmap : List MemmapEntry} {state state' : Phys Globals} {handed : List Nat}

/-! The total stays what `init` made it. -/

theorem getTotalRAM_lockPage (state : Phys Globals) (addr : Nat) :
    getTotalRAM (lockPage state addr) = getTotalRAM state := by
  by_cases taken : bit state (addr / 4096) = true ∨ limit state < addr / 4096
  · rw [lockPage_eq_self state addr taken]
  · rw [not_or, Bool.not_eq_true, Nat.not_lt] at taken
    rw [lockPage_eq state addr taken.1 taken.2]
    simp only [getTotalRAM, Globals.counted, add64, sub64]
    omega

theorem getTotalRAM_freePage (state : Phys Globals) (addr : Nat) :
    getTotalRAM (freePage state addr) = getTotalRAM state := by
  cases set : bit state (addr / 4096) with
  | false => rw [freePage_eq_self state addr set]
  | true =>
      rw [freePage_eq state addr set]
      simp only [getTotalRAM, Globals.counted, add64, sub64]
      omega

theorem getTotalRAM_lockRounds (state : Phys Globals) (addr count : Nat) :
    getTotalRAM (lockRounds state addr count) = getTotalRAM state := by
  induction count with
  | zero => rfl
  | succ i ih => rw [lockRounds, getTotalRAM_lockPage, ih]

theorem getTotalRAM_init (valid : ValidMap memmap) (run : init state memmap = .ok state') :
    getTotalRAM state' = (largestFreeSegment memmap).2 := by
  obtain ⟨found, stateEq⟩ := init_ok run
  have bounds := (largest_bounds valid.toMapBelow (by decide) found).2.2
  have below := areal_le valid.toMapBelow (by decide)
  rw [stateEq, lockPages, getTotalRAM_lockRounds]
  change add64 (largestFreeSegment memmap).2 0 = _
  rw [add64_of_lt (by omega), Nat.add_zero]

theorem FrameRun.total (valid : ValidMap memmap) (run : FrameRun memmap state handed) :
    getTotalRAM state = (largestFreeSegment memmap).2 := by
  induction run with
  | init _ run => exact getTotalRAM_init valid run
  | request _ request ih =>
      obtain ⟨index, _, _, _, stateEq, _⟩ := requestPage_ok request
      rw [stateEq, getTotalRAM_lockPage]
      exact ih
  | free _ _ ih => exact (getTotalRAM_freePage _ _).trans ih
  | write _ _ _ _ ih => exact ih

/-! The chosen segment among the usable entries. -/

theorem largest_nonempty (start : Nat × Nat) :
    memmap.foldl largestStep start = (nonemptyUsable memmap).foldl largestStep start := by
  induction memmap generalizing start with
  | nil => rfl
  | cons first rest ih =>
      rw [List.foldl_cons, nonemptyUsable, List.filter_cons]
      split
      · rw [List.foldl_cons]
        exact ih _
      · rename_i skipped
        have same : largestStep start first = start := by
          rw [largestStep, if_neg]
          rintro ⟨usable, longer⟩
          exact skipped (by simp only [decide_eq_true_eq]; exact ⟨usable, by omega⟩)
        rw [same]
        exact ih _

theorem usableLength_nonempty :
    usableLength memmap = ((nonemptyUsable memmap).map MemmapEntry.length).sum := by
  induction memmap with
  | nil => rfl
  | cons first rest ih =>
      unfold usableLength nonemptyUsable at ih ⊢
      by_cases usable : first.type = limineMemmapUsable
      · by_cases positive : 0 < first.length
        · simp [usable, positive, ih]
        · have zero : first.length = 0 := by omega
          simp [usable, zero, ih]
      · simp [usable, ih]

theorem mem_nonemptyUsable {entry : MemmapEntry} :
    entry ∈ nonemptyUsable memmap ↔
      entry ∈ memmap ∧ entry.type = limineMemmapUsable ∧ 0 < entry.length := by
  rw [nonemptyUsable, List.mem_filter, decide_eq_true_eq]

/-- If the chosen segment is all usable memory, no other usable entry has any. -/
theorem sole_of_usableLength (valid : ValidMap memmap)
    (found : (largestFreeSegment memmap).1 ≠ 0)
    (whole : (largestFreeSegment memmap).2 = usableLength memmap) :
    (nonemptyUsable memmap).length = 1 := by
  obtain ⟨entry, member, usable, chosen⟩ := largest_mem found
  have room := valid.room
  have pages : bitmapSizeInPages memmap = bitmapSize memmap / 4096 + 1 := rfl
  rw [chosen] at room whole
  simp only at room whole
  obtain ⟨before, after, split⟩ :=
    List.append_of_mem (mem_nonemptyUsable.mpr ⟨member, usable, by omega⟩)
  have positive : ∀ other ∈ before ++ after, 0 < other.length := by
    intro other inRest
    refine (mem_nonemptyUsable.mp ?_ : other ∈ memmap ∧ _ ∧ _).2.2
    rw [split]
    rcases List.mem_append.mp inRest with inBefore | inAfter
    · exact List.mem_append_left _ inBefore
    · exact List.mem_append_right _ (List.mem_cons_of_mem _ inAfter)
  have none : before ++ after = [] := by
    cases rest : before ++ after with
    | nil => rfl
    | cons first others =>
        have sums : ((before ++ after).map MemmapEntry.length).sum = 0 := by
          rw [usableLength_nonempty, split] at whole
          simp only [List.map_append, List.map_cons, List.sum_append, List.sum_cons] at whole ⊢
          omega
        have more := positive first (by rw [rest]; exact List.mem_cons_self)
        rw [rest, List.map_cons, List.sum_cons] at sums
        omega
  obtain ⟨rfl, rfl⟩ := List.append_eq_nil_iff.mp none
  rw [split]
  rfl

/-- With one nonempty usable entry, the usable frames are those of the chosen segment. -/
theorem usableFrame_sole (sole : (nonemptyUsable memmap).length = 1) (index : Nat) :
    UsableFrame memmap index ↔ (largestFreeSegment memmap).1 ≤ 4096 * index ∧
      4096 * index + 4096 ≤ (largestFreeSegment memmap).1 + (largestFreeSegment memmap).2 := by
  obtain ⟨entry, only⟩ := List.length_eq_one_iff.mp sole
  have member : entry ∈ nonemptyUsable memmap := by
    rw [only]
    exact List.mem_singleton_self entry
  obtain ⟨inMap, usable, positive⟩ := mem_nonemptyUsable.mp member
  have chosen : largestFreeSegment memmap = (entry.base, entry.length) := by
    rw [largestFreeSegment, largest_nonempty, only, List.foldl_cons, List.foldl_nil, largestStep,
      if_pos ⟨usable, positive⟩]
  rw [chosen]
  constructor
  · rintro ⟨other, otherMem, otherUsable, lower, upper⟩
    have same : other ∈ nonemptyUsable memmap :=
      mem_nonemptyUsable.mpr ⟨otherMem, otherUsable, by omega⟩
    rw [only, List.mem_singleton] at same
    subst same
    exact ⟨lower, upper⟩
  · rintro ⟨lower, upper⟩
    exact ⟨entry, inMap, usable, lower, upper⟩

theorem usableLength_sole (sole : (nonemptyUsable memmap).length = 1) :
    (largestFreeSegment memmap).2 = usableLength memmap := by
  obtain ⟨entry, only⟩ := List.length_eq_one_iff.mp sole
  have member : entry ∈ nonemptyUsable memmap := by
    rw [only]
    exact List.mem_singleton_self entry
  obtain ⟨_, usable, positive⟩ := mem_nonemptyUsable.mp member
  rw [usableLength_nonempty, largestFreeSegment, largest_nonempty, only, List.foldl_cons,
    List.foldl_nil, largestStep, if_pos ⟨usable, positive⟩]
  rfl

/-! The clear bits. -/

/-- The free frames and those handed out are the rest of the chosen segment. -/
theorem FrameInv.freeFrames_sole (inv : FrameInv memmap state handed) (valid : ValidMap memmap)
    (sole : (nonemptyUsable memmap).length = 1) :
    freeFrames memmap state + handed.length + bitmapSizeInPages memmap =
      (largestFreeSegment memmap).2 / 4096 := by
  obtain ⟨baseAligned, lengthAligned, ends⟩ :=
    largest_bounds valid.toMapBelow (by decide) inv.found
  have room := valid.room
  obtain ⟨start, startEq⟩ : ∃ start, (largestFreeSegment memmap).1 = 4096 * start :=
    ⟨(largestFreeSegment memmap).1 / 4096, by omega⟩
  have clear : ((List.range (totalMemorySizeInPages memmap)).filter fun index =>
      decide (UsableFrame memmap index ∧ bit state index = false)).Nodup :=
    List.Nodup.filter _ List.nodup_range
  have taken : (handed.map (· / 4096)).Nodup := by
    refine List.Nodup.map_on ?_ inv.distinct
    intro first firstMem second secondMem same
    obtain ⟨i, _, firstEq, _⟩ := inv.usable first firstMem
    obtain ⟨j, _, secondEq, _⟩ := inv.usable second secondMem
    omega
  have apart : ∀ index ∈ (List.range (totalMemorySizeInPages memmap)).filter (fun index =>
      decide (UsableFrame memmap index ∧ bit state index = false)),
      index ∉ handed.map (· / 4096) := by
    intro index inClear inTaken
    obtain ⟨frame, member, rfl⟩ := List.mem_map.mp inTaken
    rw [List.mem_filter, decide_eq_true_eq, (inv.bit_handed member).1] at inClear
    exact Bool.false_ne_true inClear.2.2.symm
  have perm := (List.perm_ext_iff_of_nodup (List.nodup_append'.mpr ⟨clear, taken, fun {index} => apart index⟩)
    (List.nodup_range' : (List.range' (start + bitmapSizeInPages memmap)
      ((largestFreeSegment memmap).2 / 4096 - bitmapSizeInPages memmap)).Nodup)).mpr (by
    intro index
    rw [List.mem_append, List.mem_filter, List.mem_range, decide_eq_true_eq, List.mem_range'_1]
    constructor
    · rintro (⟨inside, usable, clear⟩ | inTaken)
      · obtain ⟨_, notReserved, _⟩ := (inv.exact index inside).mp clear
        rw [usableFrame_sole sole] at usable
        rw [BitmapFrame] at notReserved
        omega
      · obtain ⟨frame, member, rfl⟩ := List.mem_map.mp inTaken
        obtain ⟨index, _, frameEq, usable, notReserved⟩ := inv.usable frame member
        rw [usableFrame_sole sole] at usable
        rw [BitmapFrame] at notReserved
        omega
    · rintro ⟨lower, upper⟩
      have usable := (usableFrame_sole sole index).mpr ⟨by omega, by omega⟩
      have inside := usableFrame_lt valid.toMapBelow (by decide) usable
      by_cases held : 4096 * index ∈ handed
      · exact Or.inr (List.mem_map.mpr ⟨_, held, by omega⟩)
      · refine Or.inl ⟨inside, usable, (inv.exact index inside).mpr ⟨usable, ?_, held⟩⟩
        rintro ⟨_, reserved⟩
        omega)
  have lengths := perm.length_eq
  rw [List.length_append, List.length_map, List.length_range', ← List.countP_eq_length_filter] at lengths
  rw [freeFrames]
  omega

/-- In every state of every run the counters agree with the bitmap if and only if the map
has exactly one nonempty usable entry. -/
theorem countersAgree_iff (valid : ValidMap memmap) (run : FrameRun memmap state handed) :
    CountersAgree memmap state ↔ (nonemptyUsable memmap).length = 1 := by
  have inv := run.inv valid
  have total := run.total valid
  constructor
  · intro agree
    exact sole_of_usableLength valid inv.found (total.symm.trans agree.total)
  · intro sole
    have frames := inv.freeFrames_sole valid sole
    have counter := inv.counter
    have lengthAligned := (largest_bounds valid.toMapBelow (by decide) inv.found).2.1
    have free : getFreeRAM state = 4096 * freeFrames memmap state := by
      rw [getFreeRAM]
      omega
    refine ⟨free, total.trans (usableLength_sole sole), ?_⟩
    intro panicked
    by_contra many
    rw [getFreeRAM] at free
    obtain ⟨frame, next, request⟩ := inv.supplied valid (by rw [supply]; omega)
    rw [request] at panicked
    simp at panicked

theorem countersAgree_smallMap :
    ∃ state, FrameRun smallMap state [] ∧ CountersAgree smallMap state := by
  obtain ⟨state, boot⟩ := init_succeeds smallMap poweredOn (by decide)
  have run := FrameRun.init (by decide) boot
  exact ⟨state, run, (countersAgree_iff smallMap_valid run).mpr (by decide)⟩

/-- Two usable entries of four pages, with a gap between them. -/
def splitMap : List MemmapEntry :=
  [{ base := 0x1000, length := 0x4000, type := limineMemmapUsable },
   { base := 0x6000, length := 0x4000, type := limineMemmapUsable }]

/-- Right after `init` seven frames are free, three are counted, and a request panics. -/
theorem countersAgree_splitMap :
    ValidMap splitMap ∧ ∃ state, FrameRun splitMap state [] ∧
      getFreeRAM state = 4096 * 3 ∧ freeFrames splitMap state = 7 ∧
      getTotalRAM state ≠ usableLength splitMap ∧
      requestPage state = .error (.panic "Out of memory") ∧ ¬CountersAgree splitMap state := by
  have valid : ValidMap splitMap := ⟨⟨by decide, by decide⟩, by decide⟩
  obtain ⟨state, boot⟩ := init_succeeds splitMap poweredOn (by decide)
  have evaluated : (init poweredOn splitMap).toOption.map (freeFrames splitMap) = some 7 := by
    decide +kernel
  rw [boot] at evaluated
  have frames : freeFrames splitMap state = 7 := Option.some.inj evaluated
  have free : getFreeRAM state = 4096 * 3 := by
    have counter := init_freeMemory valid boot
    have pages : bitmapSizeInPages splitMap = 1 := by decide
    have size : (largestFreeSegment splitMap).2 = 0x4000 := by decide
    rw [getFreeRAM]
    omega
  have total : getTotalRAM state ≠ usableLength splitMap := by
    rw [getTotalRAM_init valid boot]
    decide
  have panics := (init_setup valid.toMapBelow (by decide) (by decide) boot).2.2
  have panicked : requestPage state = .error (.panic "Out of memory") := by
    rw [requestPage, if_pos ⟨panics, by rw [getFreeRAM] at free; omega⟩]
  exact ⟨valid, state, .init (by decide) boot, free, frames, total, panicked,
    fun agree => total agree.total⟩

/-! What `init` leaves behind. -/

/-- The clear bits, the place of the bitmap, the hint and the counters after `init`. -/
structure InitExact (memmap : List MemmapEntry) (state : Phys Globals) : Prop where
  inside : ∀ index < getMemoryArealSize memmap / 4096, index < state.globals.pfaBitmap.size * 8
  clear : ∀ index < getMemoryArealSize memmap / 4096,
    (bit state index = false ↔ UsableFrame memmap index ∧ ¬BitmapFrame memmap index)
  buffer : ∀ address, state.globals.pfaBitmap.buffer ≤ address →
    address < state.globals.pfaBitmap.buffer + state.globals.pfaBitmap.size →
    BitmapFrame memmap (address / 4096)
  hint : ∀ index < state.globals.pfaBitmap.size * 8, bit state index = false →
    state.globals.bitmapIdx ≤ index
  free : state.globals.freeMemory + 4096 * bitmapSizeInPages memmap = (largestFreeSegment memmap).2
  used : state.globals.usedMemory = 4096 * bitmapSizeInPages memmap

theorem lockRounds_usedMemory_lt (word : state.globals.usedMemory < 2 ^ 64) (addr count : Nat) :
    (lockRounds state addr count).globals.usedMemory < 2 ^ 64 := by
  induction count with
  | zero => exact word
  | succ i ih =>
      rw [lockRounds]
      generalize lockRounds state addr i = before at ih
      by_cases taken : bit before (add64 addr (intOffset i) / 4096) = true ∨
          limit before < add64 addr (intOffset i) / 4096
      · rwa [lockPage_eq_self before _ taken]
      · rw [not_or, Bool.not_eq_true, Nat.not_lt] at taken
        rw [lockPage_eq before _ taken.1 taken.2]
        exact Nat.mod_lt _ (by decide)

theorem init_usedMemory (valid : ValidMap memmap) (run : init state memmap = .ok state') :
    state'.globals.usedMemory = 4096 * bitmapSizeInPages memmap := by
  have total := getTotalRAM_init valid run
  have free := init_freeMemory valid run
  obtain ⟨found, stateEq⟩ := init_ok run
  have bounds := (largest_bounds valid.toMapBelow (by decide) found).2.2
  have below := areal_le valid.toMapBelow (by decide)
  have word : state'.globals.usedMemory < 2 ^ 64 := by
    rw [stateEq, lockPages]
    exact lockRounds_usedMemory_lt (by simp [beforeLock, withCounters]) _ _
  rw [getTotalRAM, add64] at total
  omega

/-- After `init` the clear bits are exactly those of the usable frames without the frames that
hold the bitmap. -/
theorem init_exact (valid : ValidMap memmap) (found : (largestFreeSegment memmap).1 ≠ 0)
    (word : state.globals.hhdmOffset < 2 ^ 64) :
    ∃ state', init state memmap = .ok state' ∧ InitExact memmap state' := by
  obtain ⟨state', run⟩ := init_succeeds memmap state found
  obtain ⟨place, hint, _⟩ := init_setup valid.toMapBelow (by decide) word run
  have aligned := (largest_bounds valid.toMapBelow (by decide) found).1
  have total : getMemoryArealSize memmap / 4096 = totalMemorySizeInPages memmap := rfl
  have few := valid.total_le
  have fits := (total_le_limit place valid).2
  have pages : bitmapSizeInPages memmap = bitmapSize memmap / 4096 + 1 := rfl
  refine ⟨state', run, ?_, ?_, ?_, ?_, init_freeMemory valid run, init_usedMemory valid run⟩
  · intro index below
    rw [place]
    exact (total ▸ below).trans fits
  · intro index below
    exact init_bits valid.below45 word run below (by omega)
  · intro address lower upper
    rw [place] at lower upper
    simp only at lower upper
    rw [BitmapFrame]
    omega
  · intro index _ _
    rw [hint]
    exact Nat.zero_le _

theorem init_exact_splitMap :
    ∃ state', init poweredOn splitMap = .ok state' ∧ InitExact splitMap state' :=
  init_exact ⟨⟨by decide, by decide⟩, by decide⟩ (by decide) (by decide)

end

end PageFrameAllocator

end OkeOS
