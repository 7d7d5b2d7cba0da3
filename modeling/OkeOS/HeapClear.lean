import OkeOS.HeapHuge
import OkeOS.HeapWrites

/-!
What a block holds when `malloc` returns it.  The call `memset(addr, size, 0)` clears
nothing, so the block holds what the memory held before, and a header that a merge has left
behind when the heap grew for it.
-/

namespace OkeOS

open ByteMemory Tiling
open HeapSegHdr hiding free

section

variable {σ : Type} {heap heap' : Heap σ} {segments : List Segment} {size : Nat}
  {mapPage : σ → Nat → Except Fault σ}

/-! The bytes of the block. -/

/-- The first `size` bytes at `pointer` are zero. -/
def Zeroed (mem : Memory) (pointer size : Nat) : Prop := ∀ i < size, mem (pointer + i) = 0

theorem zeroed_congr {first second : Memory} {pointer : Nat}
    (same : ∀ address, pointer ≤ address → address < pointer + size →
      first address = second address) : Zeroed first pointer size ↔ Zeroed second pointer size := by
  constructor
  · intro zero i less
    rw [← same (pointer + i) (by omega) (by omega)]
    exact zero i less
  · intro zero i less
    rw [same (pointer + i) (by omega) (by omega)]
    exact zero i less

theorem takeFit_changed {this address : Nat}
    (changed : (takeFit heap this size).2.mem address ≠ heap.mem address) :
    ∃ hdr, hdr + 4 ≤ address ∧ address < hdr + 29 ∧
      (hdr = this ∨ size < length heap.mem this ∧ hdr ∈ splitWrites heap.mem this size) := by
  rw [takeFit] at changed
  split at changed
  · rename_i longer
    obtain ⟨hdr, member, least, most⟩ := ((split_covered heap this size).trans
      (takeSegment_covered (split heap this size).2 this size)) address changed
    refine ⟨hdr, least, most, ?_⟩
    rcases List.mem_append.mp member with split | same
    · exact Or.inr ⟨longer, split⟩
    · exact Or.inl (List.mem_singleton.mp same)
  · obtain ⟨hdr, member, least, most⟩ := takeSegment_covered heap this size address changed
    exact ⟨hdr, least, most, Or.inl (List.mem_singleton.mp member)⟩

/-- Taking a segment leaves the bytes handed out as they are. -/
theorem takeFit_payload {before after : List Segment} {segment : Segment}
    (chain : HeapChain heap (before ++ segment :: after)) {address : Nat}
    (lower : segment.addr + 29 ≤ address) (upper : address < segment.addr + 29 + size) :
    (takeFit heap segment.addr size).2.mem address = heap.mem address := by
  have lengthEq : length heap.mem segment.addr = segment.length :=
    header_length chain.header_eq
  by_contra changed
  obtain ⟨hdr, least, most, this | ⟨longer, split⟩⟩ := takeFit_changed changed
  · omega
  rw [lengthEq] at longer
  have startLow := chain.startLow
  have bounds := chain.bounds
  obtain ⟨_, relinked | new | this⟩ := splitWrites_mem chain longer split
  · by_cases empty : headAddr 0 after = 0
    · omega
    · have target := headAddr_bounds (tiles_split chain.tiles).2 empty
      omega
  · omega
  · omega

/-- A header cut off behind the heap comes to lie in its last page. -/
theorem Dangling.takeFit_start (dangling : Dangling heap segments) {need address : Nat}
    (huge : Huge need) (page : heap.heapStart + 0x1000 ≤ heap.heapEnd)
    (lower : heap.heapStart ≤ address) (upper : address < heap.heapStart + 29) :
    (takeFit heap heap.heapEnd need).2.mem address = heap.mem address := by
  obtain ⟨prev, behind⟩ := dangling.behind
  have endHigh := dangling.endHigh
  have aligned := dangling.endAligned
  have startLow := dangling.startLow
  obtain ⟨low, high, multiple⟩ := huge
  have nextEq : next heap.mem heap.heapEnd = 0 := header_next behind
  have newHdr : add64 (add64 heap.heapEnd need) sizeofHeapSegHdr =
      heap.heapEnd + need + 29 - 2 ^ 64 := by
    unfold add64 sizeofHeapSegHdr
    omega
  by_contra changed
  obtain ⟨hdr, least, most, this | ⟨_, split⟩⟩ := takeFit_changed changed
  · omega
  simp only [splitWrites, nextEq, newHdr] at split
  split at split
  · simp at split
  split at split
  · simp at split
  simp only [List.mem_cons, List.not_mem_nil, or_false] at split
  omega

/-! The bytes after an expansion. -/

theorem store_low (mem : Memory) (address width value : Nat) :
    store mem address (width + 1) value address = UInt8.ofNat value := by
  rw [store, store_outside _ _ _ _ _ (by omega), writeByte_same]

section

variable {front : List Segment} {previous : Segment} (inv : HeapInv heap (front ++ [previous]))
  (positive : 0 < size) (bound : size ≤ 2 ^ 64 - 0x1000)
  (run : expandHeap mapPage heap size = .ok heap')

include inv positive bound run

/-- Behind the last header only the fields of the new one change. -/
theorem expandHeap_bytes {address : Nat} (lower : previous.addr + 29 ≤ address)
    (outside : address < heap.heapEnd + 4 ∨ heap.heapEnd + 29 ≤ address) :
    heap'.mem address = heap.mem address := by
  by_contra changed
  obtain ⟨hdr, member, least, most⟩ := expandHeap_covered run address changed
  have written := expandWrites_mem inv positive bound member
  omega

/-- Behind the last header a merge changes nothing, and the new header stays as it is. -/
theorem expandHeap_appended {address : Nat} (lower : previous.addr + 29 ≤ address) :
    heap'.mem address =
      appendMem heap.mem heap.lastHdr heap.heapEnd (roundUp size 0x1000 - 29) address := by
  obtain ⟨larger, whole, _⟩ := roundUp4096 positive bound
  obtain ⟨pages, _, result⟩ := expandHeap_ok inv.endAligned run
  have lengthEq : sub64 (roundUp size 0x1000) sizeofHeapSegHdr = roundUp size 0x1000 - 29 := by
    rw [sizeofHeapSegHdr, sub64_of_le (by omega) (by omega)]
  rw [lengthEq] at result
  generalize linked : ({ heap with
    mem := appendMem heap.mem heap.lastHdr heap.heapEnd (roundUp size 0x1000 - 29)
    heapEnd := heap.heapEnd + roundUp size 0x1000 / 0x1000 * 0x1000
    lastHdr := heap.heapEnd
    pages := pages } : Heap σ) = appended at result
  have memEq : appended.mem =
      appendMem heap.mem heap.lastHdr heap.heapEnd (roundUp size 0x1000 - 29) := by
    rw [← linked]
  rw [← memEq]
  by_contra changed
  rw [result] at changed
  obtain ⟨hdr, member, least, most⟩ := combineBackward_covered appended heap.heapEnd _ changed
  rw [memEq] at member
  have same := combineBackwardWrites_append inv (by omega) member
  omega

/-- The lowest byte of the new length is `4096 - 29` modulo 256, whether or not the new
segment is merged. -/
theorem expandHeap_stale : heap'.mem (heap.heapEnd + 4) ≠ 0 := by
  obtain ⟨larger, whole, _⟩ := roundUp4096 positive bound
  have previousEnd : previous.addr + 29 + previous.length = heap.heapEnd :=
    (tiles_split inv.tiles).2
  have low : appendMem heap.mem heap.lastHdr heap.heapEnd (roundUp size 0x1000 - 29)
      (heap.heapEnd + 4) = UInt8.ofNat (roundUp size 0x1000 - 29) := store_low _ _ _ _
  rw [expandHeap_appended inv positive bound run (by omega), low]
  intro zero
  have value := congrArg UInt8.toNat zero
  rw [UInt8.toNat_ofNat'] at value
  simp at value
  omega

end

/-! What a returned block holds. -/

/-- The bytes that `malloc` hands out are zero before the call, and none of them becomes part
of a header that a merge leaves behind. -/
structure ClearBefore (heap : Heap σ) (segments : List Segment) (need : Nat) : Prop where
  fitting : ∀ skipped found rest, FirstFit need segments skipped found rest →
    Zeroed heap.mem (found.addr + 29) need
  growing : (∀ other ∈ segments, ¬Fits need other) → ∀ previous ∈ segments.getLast?,
    if previous.free then need ≤ previous.length + 4 ∧ Zeroed heap.mem (previous.addr + 29) need
    else need + 29 ≤ roundUp need 0x1000 ∧ Zeroed heap.mem (heap.heapEnd + 29) need

theorem malloc_byte_fit {skipped rest : List Segment} {found : Segment}
    {fuel need pointer offset : Nat} (chain : HeapChain heap segments)
    (rounded : roundUp size 0x10 = need) (low : 0x10 ≤ need)
    (fit : FirstFit need segments skipped found rest)
    (run : malloc mapPage fuel heap size = .ok (pointer, heap')) (inside : offset < need) :
    pointer = found.addr + 29 ∧
      heap'.mem (pointer + offset) = heap.mem (found.addr + 29 + offset) := by
  have taken := malloc_takes chain rounded (by omega) fit run
  obtain ⟨rfl, _, fits⟩ := fit
  have place := (takeFit_taken chain low fits).1
  rw [taken] at place
  have kept := takeFit_payload chain (show found.addr + 29 ≤ found.addr + 29 + offset by omega)
    (show found.addr + 29 + offset < found.addr + 29 + need by omega)
  rw [taken] at kept
  exact ⟨place, by rw [show pointer = found.addr + 29 from place, kept]⟩

theorem malloc_zeroed_fit {skipped rest : List Segment} {found : Segment}
    {fuel need pointer : Nat} (chain : HeapChain heap segments)
    (rounded : roundUp size 0x10 = need) (low : 0x10 ≤ need)
    (fit : FirstFit need segments skipped found rest)
    (run : malloc mapPage fuel heap size = .ok (pointer, heap')) :
    Zeroed heap'.mem pointer need ↔ Zeroed heap.mem (found.addr + 29) need := by
  have same (i : Nat) (inside : i < need) :
      heap'.mem (pointer + i) = heap.mem (found.addr + 29 + i) :=
    (malloc_byte_fit chain rounded low fit run inside).2
  constructor
  · intro zero i inside
    rw [← same i inside]
    exact zero i inside
  · intro zero i inside
    rw [same i inside]
    exact zero i inside

section

variable {front : List Segment} {previous : Segment} {fuel need pointer : Nat}
  (inv : HeapInv heap (front ++ [previous])) (rounded : roundUp size 0x10 = need)
  (multiple : need % 0x10 = 0) (positive : 0 < need) (bound : need ≤ 2 ^ 64 - 0x1000)
  (unfit : ∀ other ∈ front ++ [previous], ¬Fits need other)
  (run : malloc mapPage fuel heap size = .ok (pointer, heap'))
  (endHigh : heap'.heapEnd < 2 ^ 64)

include inv rounded multiple positive bound unfit run endHigh

theorem malloc_zeroed_lastFree (isFree : previous.free = true) :
    Zeroed heap'.mem pointer need ↔
      need ≤ previous.length + 4 ∧ Zeroed heap.mem (previous.addr + 29) need := by
  obtain ⟨larger, whole, _⟩ := roundUp4096 positive bound
  obtain ⟨more, expanded, grown, again⟩ := malloc_grown inv rounded (by omega) unfit run
  have ends := malloc_end_le again
  have previousEnd : previous.addr + 29 + previous.length = heap.heapEnd :=
    (tiles_split inv.tiles).2
  have chain := (inv.grown positive bound grown (by omega)).1.inv.toHeapChain
  have fit := firstFit_behindFree heap.heapEnd unfit isFree larger
  have place : (grownLast heap.heapEnd need previous).addr = previous.addr := by
    rw [grownLast_behindFree _ _ isFree]
  rw [malloc_zeroed_fit chain (roundUp_rounded multiple) (by omega) fit again, place]
  by_cases short : need ≤ previous.length + 4
  · rw [and_iff_right short]
    exact zeroed_congr fun address lower upper =>
      expandHeap_bytes inv positive bound grown lower (by omega)
  · refine ⟨fun zero => ?_, fun both => absurd both.1 short⟩
    have stale := zero (previous.length + 4) (by omega)
    rw [show previous.addr + 29 + (previous.length + 4) = heap.heapEnd + 4 by omega] at stale
    exact absurd stale (expandHeap_stale inv positive bound grown)

theorem malloc_zeroed_lastTaken (notFree : previous.free = false) :
    Zeroed heap'.mem pointer need ↔
      need + 29 ≤ roundUp need 0x1000 ∧ Zeroed heap.mem (heap.heapEnd + 29) need := by
  obtain ⟨larger, whole, _⟩ := roundUp4096 positive bound
  obtain ⟨more, expanded, grown, again⟩ := malloc_grown inv rounded (by omega) unfit run
  have ends := malloc_end_le again
  have bounds := inv.toHeapChain.bounds
  have expansion := (inv.grown positive bound grown (by omega)).1.inv
  have last := grownLast_behindTaken heap.heapEnd need notFree
  by_cases enough : need + 29 ≤ roundUp need 0x1000
  · have fit := firstFit_grown heap.heapEnd unfit (by
      rw [last]
      simp only
      omega)
    rw [malloc_zeroed_fit expansion.toHeapChain (roundUp_rounded multiple) (by omega) fit again,
      last, and_iff_right enough]
    refine zeroed_congr fun address lower upper => ?_
    simp only at lower upper
    exact expandHeap_bytes inv positive bound grown (by omega) (by omega)
  · have stillUnfit := @unfit_grown need front previous heap.heapEnd unfit (by
      rw [last]
      simp only
      omega)
    rw [malloc_zeroed_lastFree expansion (roundUp_rounded multiple) multiple positive bound
      stillUnfit again endHigh (grownLast_free _ _ _), last]
    simp only
    constructor
    · rintro ⟨short, _⟩
      omega
    · rintro ⟨less, _⟩
      omega

end

/-- For a size that does not wrap, the block is zero just when the bytes were. -/
theorem malloc_zeroed_bounded {fuel pointer need : Nat} (inv : HeapInv heap segments)
    (rounded : roundUp size 0x10 = need) (multiple : need % 0x10 = 0) (positive : 0 < need)
    (bound : need ≤ 2 ^ 64 - 0x1000)
    (run : malloc mapPage fuel heap size = .ok (pointer, heap'))
    (endHigh : heap'.heapEnd < 2 ^ 64) :
    Zeroed heap'.mem pointer need ↔ ClearBefore heap segments need := by
  rcases firstFit_or_none need segments with ⟨skipped, found, rest, fit⟩ | unfit
  · rw [malloc_zeroed_fit inv.toHeapChain rounded (by omega) fit run]
    constructor
    · intro zero
      refine ⟨fun _ _ _ fit' => fit.unique fit' ▸ zero, fun none => ?_⟩
      exact absurd fit.fits (none found (by simp [fit.split]))
    · intro clear
      exact clear.fitting skipped found rest fit
  · have fitting : ∀ skipped found rest, FirstFit need segments skipped found rest →
        Zeroed heap.mem (found.addr + 29) need := fun skipped found rest fit =>
      absurd fit.fits (unfit found (by simp [fit.split]))
    obtain ⟨front, previous, rfl⟩ := inv.eq_concat
    have last : (front ++ [previous]).getLast? = some previous := by simp
    cases isFree : previous.free with
    | true =>
        rw [malloc_zeroed_lastFree inv rounded multiple positive bound unfit run endHigh isFree]
        constructor
        · intro zero
          refine ⟨fitting, fun _ => ?_⟩
          simpa [last, isFree] using zero
        · intro clear
          simpa [last, isFree] using clear.growing unfit
    | false =>
        rw [malloc_zeroed_lastTaken inv rounded multiple positive bound unfit run endHigh isFree]
        constructor
        · intro zero
          refine ⟨fitting, fun _ => ?_⟩
          simpa [last, isFree] using zero
        · intro clear
          simpa [last, isFree] using clear.growing unfit

/-- The `size` bytes at `pointer` are zero; addresses are 64-bit words. -/
def BlockZeroed (mem : Memory) (pointer size : Nat) : Prop := ∀ i < size, mem (add64 pointer i) = 0

theorem blockZeroed_iff {mem : Memory} {pointer : Nat} (inside : pointer + size ≤ 2 ^ 64) :
    BlockZeroed mem pointer size ↔ Zeroed mem pointer size := by
  have same (i : Nat) (less : i < size) : add64 pointer i = pointer + i :=
    add64_of_lt (by omega)
  constructor
  · intro zero i less
    rw [← same i less]
    exact zero i less
  · intro zero i less
    rw [same i less]
    exact zero i less

/-- A huge block reaches round the address space to the first header of the heap. -/
theorem malloc_huge_notZeroed {fuel pointer need : Nat} (inv : HeapInv heap segments)
    (startAligned : heap.heapStart % 0x1000 = 0) (rounded : roundUp size 0x10 = need)
    (huge : Huge need) (run : malloc mapPage fuel heap size = .ok (pointer, heap')) :
    ¬BlockZeroed heap'.mem pointer need := by
  obtain ⟨front, previous, rfl⟩ := inv.eq_concat
  cases isFree : previous.free with
  | true =>
      rw [malloc_huge_lastFree inv isFree rounded huge] at run
      exact absurd run (by simp)
  | false =>
      by_cases long : 2 ^ 64 - 29 < need
      · rw [malloc_huge_top inv isFree rounded huge long] at run
        exact absurd run (by simp)
      have high := huge.high
      have low := huge.low
      have multiple := huge.multiple
      obtain ⟨between, dangling, same, settles⟩ :
          ∃ between, Dangling between (front ++ [previous]) ∧ SameBounds between heap ∧
            Settles mapPage heap size (.ok (takeFit between between.heapEnd need)) :=
        malloc_huge_behind inv isFree rounded huge (by omega)
      have taken := settles.eq_ok run
      rw [Except.ok.injEq] at taken
      have place := takeFit_fst between between.heapEnd need
      rw [taken] at place
      have startLow := dangling.startLow
      have endHigh := dangling.endHigh
      have endAligned := dangling.endAligned
      have less : between.heapStart < between.heapEnd := by
        rw [same.heapStart, same.heapEnd]
        exact inv.start_lt_end
      rw [← same.heapStart] at startAligned
      intro zero
      have nextZero : next between.mem between.heapStart = 0 := by
        apply load_zero
        intro address lower upper
        rw [← dangling.takeFit_start huge (by omega) (by omega) (by omega), taken]
        have byte := zero (2 ^ 64 - (between.heapEnd + 29) + address) (by omega)
        rwa [show add64 pointer (2 ^ 64 - (between.heapEnd + 29) + address) = address by
          rw [show pointer = add64 between.heapEnd sizeofHeapSegHdr from place]
          unfold add64 sizeofHeapSegHdr
          omega] at byte
      exact dangling.next_start_ne_zero nextZero

/-- In every state of every run, a block that `malloc` returns is zero if and only if its size
does not wrap, its bytes were zero before the call and the growth of the heap has not put a
header among them. -/
theorem malloc_zeroed_iff {system : HeapSystem σ} {fuel pointer : Nat}
    (run : HeapRun mapPage system) (word : size < 2 ^ 64)
    (call : malloc mapPage fuel system.heap size = .ok (pointer, heap'))
    (returned : pointer ≠ 0) (noWrap : heap'.heapEnd < 2 ^ 64) :
    BlockZeroed heap'.mem pointer (roundUp size 0x10) ↔
      size ≤ 2 ^ 64 - 0x1000 ∧
        ∀ segments, HeapInv system.heap segments →
          ClearBefore system.heap segments (roundUp size 0x10) := by
  have ends := malloc_end_le call
  obtain ⟨segments, systemInv⟩ := run.inv (by omega)
  have inv := systemInv.inv
  have nonzero : roundUp size 0x10 ≠ 0 := by
    intro zero
    have null := (settles_null mapPage system.heap zero).eq_ok call
    rw [Except.ok.injEq, Prod.mk.injEq] at null
    exact returned null.1.symm
  by_cases bound : size ≤ 2 ^ 64 - 0x1000
  · obtain ⟨_, _, multiple, roundedBound⟩ := roundUp16 bound
    have inside : pointer + roundUp size 0x10 ≤ 2 ^ 64 := by
      rcases inv.malloc bound call noWrap with ⟨zero, _⟩ | ⟨segments', allocation⟩
      · exact absurd zero nonzero
      · obtain ⟨owner, member, _, place, enough, _⟩ := allocation.owner
        have upper := (tiles_mem allocation.inv.tiles member).2
        omega
    rw [blockZeroed_iff inside, malloc_zeroed_bounded inv rfl multiple (by omega) roundedBound call
      noWrap, and_iff_right bound]
    constructor
    · intro clear other otherInv
      exact inv.unique otherInv ▸ clear
    · intro clear
      exact clear segments inv
  · have high : size ≤ 2 ^ 64 - 0x10 := by
      by_contra top
      exact nonzero (roundUp_top (by omega) word)
    have notZeroed := malloc_huge_notZeroed inv run.startAligned rfl
      (huge_roundUp (by omega) high) call
    exact ⟨fun zero => absurd zero notZeroed, fun both => absurd both.1 bound⟩

end

/-! Closed instances. -/

def freshBlock : Except Fault (Nat × Nat × List UInt8) := do
  let heap ← initHeap mapAny emptyHeap 0x800000 1
  let (pointer, heap) ← malloc mapAny 2 heap 16
  return (pointer, heap.heapEnd, (List.range 16).map fun i => heap.mem (add64 pointer i))

def reusedBlock : Except Fault (Nat × Nat × Nat × UInt8) := do
  let heap ← initHeap mapAny emptyHeap 0x800000 1
  let (first, heap) ← malloc mapAny 2 heap 16
  let heap := { heap with mem := writeByte heap.mem first 0x41 }
  let heap := free heap first
  let (second, heap) ← malloc mapAny 2 heap 16
  return (first, second, heap.heapEnd, heap.mem second)

theorem malloc_zeroed_iff_fresh : ∃ (system : HeapSystem Unit) (heap' : Heap Unit),
    HeapRun mapAny system ∧ malloc mapAny 2 system.heap 16 = .ok (0x80001d, heap') ∧
      BlockZeroed heap'.mem 0x80001d 16 ∧
        ∀ segments, HeapInv system.heap segments → ClearBefore system.heap segments 16 := by
  have evaluated : freshBlock = .ok (0x80001d, 0x801000, List.replicate 16 0) := by decide +kernel
  obtain ⟨heap, boot, evaluated⟩ := Fault.peel evaluated
  obtain ⟨⟨pointer, heap'⟩, called, result⟩ := Fault.peel evaluated
  simp only [Pure.pure, Except.pure, Except.ok.injEq, Prod.mk.injEq] at result
  obtain ⟨rfl, endEq, bytes⟩ := result
  have run : HeapRun mapAny { heap := heap, live := [] } :=
    .init (by decide) (by decide) (by decide) (by decide) boot
  have zero : BlockZeroed heap'.mem 0x80001d 16 := by
    intro i less
    have member : heap'.mem (add64 0x80001d i) ∈
        (List.range 16).map fun i => heap'.mem (add64 0x80001d i) :=
      List.mem_map_of_mem (List.mem_range.mpr less)
    rw [bytes] at member
    exact List.eq_of_mem_replicate member
  have both := (malloc_zeroed_iff run (by decide) called (by decide)
    (by rw [endEq]; decide)).mp zero
  exact ⟨_, heap', run, called, zero, both.2⟩

theorem reusedBlock_run {heap taken : Heap Unit} {pointer : Nat} (nonzero : pointer ≠ 0)
    (boot : initHeap mapAny emptyHeap 0x800000 1 = .ok heap)
    (called : malloc mapAny 2 heap 16 = .ok (pointer, taken)) :
    ∃ live, HeapRun mapAny
      { heap := free { taken with mem := writeByte taken.mem pointer 0x41 } pointer
        live := live } := by
  have run : HeapRun mapAny { heap := heap, live := [] } :=
    .init (by decide) (by decide) (by decide) (by decide) boot
  have run := run.step (.call (.malloc (by decide) called))
  rw [if_neg nonzero] at run
  have rounded : roundUp 16 0x10 = 16 := rfl
  have inside : Block.Contains { ptr := pointer, size := 16 } pointer :=
    ⟨Nat.le_refl _, by simp only [rounded]; omega⟩
  have run := run.step (.write 0x41 List.mem_cons_self inside)
  have run := run.step (.call (.free List.mem_cons_self))
  simp only at run
  exact ⟨_, run⟩

/-- A block that a client has written to and freed is handed out again as it is. -/
theorem malloc_reused : ∃ (system : HeapSystem Unit) (pointer : Nat) (heap' : Heap Unit),
    HeapRun mapAny system ∧ malloc mapAny 2 system.heap 16 = .ok (pointer, heap') ∧
      pointer ≠ 0 ∧ heap'.heapEnd < 2 ^ 64 ∧
      ¬BlockZeroed heap'.mem pointer (roundUp 16 0x10) := by
  have evaluated : reusedBlock = .ok (0x80001d, 0x80001d, 0x801000, 0x41) := by decide +kernel
  obtain ⟨heap, boot, evaluated⟩ := Fault.peel evaluated
  obtain ⟨⟨first, taken⟩, called, evaluated⟩ := Fault.peel evaluated
  obtain ⟨⟨second, heap'⟩, again, result⟩ := Fault.peel evaluated
  simp only [Pure.pure, Except.pure, Except.ok.injEq, Prod.mk.injEq] at result
  obtain ⟨firstEq, secondEq, endEq, byte⟩ := result
  obtain ⟨live, run⟩ := reusedBlock_run (by rw [firstEq]; decide) boot called
  have again' : malloc mapAny 2
      (free { taken with mem := writeByte taken.mem first 0x41 } first) 16 = .ok (second, heap') :=
    again
  generalize free { taken with mem := writeByte taken.mem first 0x41 } first = freed at run again'
  refine ⟨_, second, heap', run, again', by rw [secondEq]; decide, by rw [endEq]; decide, ?_⟩
  intro zero
  have first := zero 0 (by decide)
  rw [show add64 second 0 = second by rw [secondEq]; rfl, byte] at first
  exact absurd first (by decide)

end OkeOS
