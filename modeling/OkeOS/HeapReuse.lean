import OkeOS.HeapClear

/-!
A block from `malloc` byte by byte, and the next block of the same size after a `free`: the
merges undo the split, so it is the same block with the same bytes.
-/

namespace OkeOS

open ByteMemory Tiling
open HeapSegHdr hiding free

theorem store_congr {first second : Memory} {address width value other : Nat}
    (same : first other = second other) :
    store first address width value other = store second address width value other := by
  induction width generalizing first second address value with
  | zero => exact same
  | succ width ih =>
      rw [store, store]
      refine ih ?_
      by_cases here : other = address
      · rw [here, writeByte_same, writeByte_same]
      · rw [writeByte_other _ _ here, writeByte_other _ _ here, same]

theorem appendMem_congr {first second : Memory} {lastHdr newHdr length address : Nat}
    (same : first address = second address) :
    appendMem first lastHdr newHdr length address =
      appendMem second lastHdr newHdr length address := by
  have marked : setFree first newHdr true address = setFree second newHdr true address := by
    by_cases here : address = newHdr + 28
    · rw [here, setFree, setFree, writeByte_same, writeByte_same]
    · rw [setFree, setFree, writeByte_other _ _ here, writeByte_other _ _ here, same]
  exact store_congr (store_congr (store_congr (store_congr marked)))

section

variable {σ : Type} {mapPage : σ → Nat → Except Fault σ} {heap heap' : Heap σ}
  {segments : List Segment} {size need : Nat}

/-- What stands at `offset` of the block that `malloc` is going to hand out: a byte of the
first segment that fits, or of the end of the heap, where an expansion puts a header. -/
def blockByte (heap : Heap σ) (segments : List Segment) (need offset : Nat) : UInt8 :=
  match segments.find? fun other => decide (Fits need other), segments.getLast? with
  | some found, _ => heap.mem (found.addr + 29 + offset)
  | none, some previous =>
      if previous.free then
        appendMem heap.mem previous.addr heap.heapEnd (roundUp need 0x1000 - 29)
          (previous.addr + 29 + offset)
      else
        appendMem heap.mem heap.heapEnd (heap.heapEnd + roundUp need 0x1000)
          (roundUp need 0x1000 - 29) (heap.heapEnd + 29 + offset)
  | none, none => 0

theorem blockByte_fit {skipped rest : List Segment} {found : Segment} {offset : Nat}
    (fit : FirstFit need segments skipped found rest) :
    blockByte heap segments need offset = heap.mem (found.addr + 29 + offset) := by
  rw [blockByte, fit.find]

section

variable {front : List Segment} {previous : Segment} {fuel pointer offset : Nat}
  (inv : HeapInv heap (front ++ [previous])) (rounded : roundUp size 0x10 = need)
  (multiple : need % 0x10 = 0) (positive : 0 < need) (bound : need ≤ 2 ^ 64 - 0x1000)
  (unfit : ∀ other ∈ front ++ [previous], ¬Fits need other)
  (run : malloc mapPage fuel heap size = .ok (pointer, heap'))
  (endHigh : heap'.heapEnd < 2 ^ 64) (inside : offset < need)

include inv rounded multiple positive bound unfit run endHigh inside

theorem malloc_byte_lastFree (isFree : previous.free = true) :
    heap'.mem (pointer + offset) =
      appendMem heap.mem previous.addr heap.heapEnd (roundUp need 0x1000 - 29)
        (previous.addr + 29 + offset) := by
  obtain ⟨larger, whole, _⟩ := roundUp4096 positive bound
  obtain ⟨more, expanded, grown, again⟩ := malloc_grown inv rounded (by omega) unfit run
  have ends := malloc_end_le again
  have chain := (inv.grown positive bound grown (by omega)).1.inv.toHeapChain
  have fit := firstFit_behindFree heap.heapEnd unfit isFree larger
  have place : (grownLast heap.heapEnd need previous).addr = previous.addr := by
    rw [grownLast_behindFree _ _ isFree]
  rw [(malloc_byte_fit chain (roundUp_rounded multiple) (by omega) fit again inside).2, place,
    expandHeap_appended inv positive bound grown (by omega), inv.lastHdr_eq]

theorem malloc_byte_lastTaken (notFree : previous.free = false) :
    heap'.mem (pointer + offset) =
      appendMem heap.mem heap.heapEnd (heap.heapEnd + roundUp need 0x1000)
        (roundUp need 0x1000 - 29) (heap.heapEnd + 29 + offset) := by
  obtain ⟨larger, whole, _⟩ := roundUp4096 positive bound
  obtain ⟨more, expanded, grown, again⟩ := malloc_grown inv rounded (by omega) unfit run
  have ends := malloc_end_le again
  have bounds := inv.toHeapChain.bounds
  obtain ⟨expansion, endEq⟩ := inv.grown positive bound grown (by omega)
  have last := grownLast_behindTaken heap.heapEnd need notFree
  have kept : expanded.mem (heap.heapEnd + 29 + offset) = heap.mem (heap.heapEnd + 29 + offset) :=
    expandHeap_bytes inv positive bound grown (by omega) (by omega)
  by_cases enough : need + 29 ≤ roundUp need 0x1000
  · have fit := firstFit_grown heap.heapEnd unfit (by
      rw [last]
      simp only
      omega)
    rw [(malloc_byte_fit expansion.inv.toHeapChain (roundUp_rounded multiple) (by omega) fit again
      inside).2, last, kept, appendMem_outside _ (by omega) (by omega)]
  · have stillUnfit := @unfit_grown need front previous heap.heapEnd unfit (by
      rw [last]
      simp only
      omega)
    rw [malloc_byte_lastFree expansion.inv (roundUp_rounded multiple) multiple positive bound
      stillUnfit again endHigh inside (grownLast_free _ _ _), last, endEq]
    exact appendMem_congr kept

end

/-- For a size that does not wrap, `malloc` leaves every byte as it was. -/
theorem malloc_byte {fuel pointer offset : Nat} (inv : HeapInv heap segments)
    (rounded : roundUp size 0x10 = need) (multiple : need % 0x10 = 0) (positive : 0 < need)
    (bound : need ≤ 2 ^ 64 - 0x1000)
    (run : malloc mapPage fuel heap size = .ok (pointer, heap'))
    (endHigh : heap'.heapEnd < 2 ^ 64) (inside : offset < need) :
    heap'.mem (pointer + offset) = blockByte heap segments need offset := by
  rcases firstFit_or_none need segments with ⟨skipped, found, rest, fit⟩ | unfit
  · rw [blockByte_fit fit]
    exact (malloc_byte_fit inv.toHeapChain rounded (by omega) fit run inside).2
  · obtain ⟨front, previous, rfl⟩ := inv.eq_concat
    have none : (front ++ [previous]).find? (fun other => decide (Fits need other)) = none :=
      List.find?_eq_none.mpr fun other member => by simpa using unfit other member
    have last : (front ++ [previous]).getLast? = some previous := by simp
    rw [blockByte, none, last]
    cases isFree : previous.free with
    | true =>
        simp only [isFree, if_true]
        exact malloc_byte_lastFree inv rounded multiple positive bound unfit run endHigh inside
          isFree
    | false =>
        simp only [isFree, Bool.false_eq_true, if_false]
        exact malloc_byte_lastTaken inv rounded multiple positive bound unfit run endHigh inside
          isFree

/-! The block after a `free`. -/

/-- `malloc` cuts the block from the first fitting segment of the heap it has come to. -/
theorem HeapInv.malloc_cut {fuel pointer : Nat} (inv : HeapInv heap segments)
    (bound : size ≤ 2 ^ 64 - 0x1000) (positive : 0 < size)
    (run : OkeOS.malloc mapPage fuel heap size = .ok (pointer, heap'))
    (endHigh : heap'.heapEnd < 2 ^ 64) :
    ∃ between skipped found rest, HeapInv between (skipped ++ found :: rest) ∧
      FirstFit (roundUp size 0x10) (skipped ++ found :: rest) skipped found rest ∧
      pointer = found.addr + 29 ∧
      Taken between skipped found rest (roundUp size 0x10) heap' := by
  induction fuel generalizing heap segments size with
  | zero => simp [OkeOS.malloc] at run
  | succ fuel ih =>
      obtain ⟨larger, _, multiple, roundedBound⟩ := roundUp16 bound
      rcases malloc_ok run with ⟨zero, _⟩ | ⟨nonzero, scanned | ⟨_, expanded, grown, again⟩⟩
      · omega
      · rw [← inv.headAddr_start inv.nonempty] at scanned
        obtain ⟨first, rest, rfl⟩ := List.exists_cons_of_ne_nil inv.nonempty
        rcases mallocScan_chain (by omega) rest [] first fuel _ inv.toHeapChain scanned with
          ⟨impossible, _⟩ | ⟨skipped, found, others, heap1, split, unfit, fits, eq, taken⟩
        · simp at impossible
        · simp only [Option.some.injEq, Prod.mk.injEq] at eq
          rw [split] at inv
          rw [eq.1, eq.2]
          exact ⟨heap, skipped, found, others, inv, ⟨rfl, unfit, fits⟩, rfl, taken⟩
      · have grownEnd := malloc_end_le again
        obtain ⟨segments1, expansion⟩ := inv.expandHeap (by omega) roundedBound grown (by omega)
        have cut := ih expansion.inv roundedBound (by omega) again
        rwa [roundUp_rounded multiple] at cut

/-- Freeing the block joins what `malloc` has cut. -/
theorem HeapInv.release_carve {between : Heap σ} {skipped rest : List Segment} {found : Segment}
    (inv : HeapInv between (skipped ++ found :: rest)) (low : 0x10 ≤ need)
    (fits : Fits need found) (taken : Taken between skipped found rest need heap') :
    release 29 (skipped ++ carve need found ++ rest) found.addr = skipped ++ found :: rest := by
  have allocation := inv.taken low fits taken
  obtain ⟨owner, member, _, ownerPtr, _, allocated, fresh⟩ := allocation.owner
  obtain ⟨freed, bounds, _⟩ := allocation.inv.free member
  have ownerAddr : owner.addr = found.addr := by omega
  rw [ownerAddr] at freed
  have tiles := freed.tiles
  rw [ownerAddr] at bounds
  rw [bounds.heapStart, bounds.heapEnd, taken.bounds.heapStart, taken.bounds.heapEnd] at tiles
  refine tiles_unique (by decide) tiles inv.tiles freed.noFreePair inv.noFreePair ?_
  intro other notFree
  rw [mem_release_allocated notFree, allocated other notFree]
  constructor
  · rintro ⟨old | rfl, different⟩
    · exact old
    · exact absurd ownerAddr different
  · intro old
    exact ⟨.inl old, by rw [← ownerAddr]; exact fresh other old notFree⟩

/-- A block that is freed is handed out again to the next call for its size, as it is. -/
theorem HeapInv.malloc_reuses {later released : Heap σ} {fuel pointer : Nat}
    (inv : HeapInv heap segments) (bound : size ≤ 2 ^ 64 - 0x1000) (positive : 0 < size)
    (run : OkeOS.malloc mapPage fuel heap size = .ok (pointer, heap'))
    (endHigh : heap'.heapEnd < 2 ^ 64)
    (kept : ∀ segments', HeapInv heap' segments' → HeapInv later segments')
    (freed : OkeOS.free later pointer = released) :
    ∃ again, Settles mapPage released size (.ok (pointer, again)) ∧
      again.heapEnd = later.heapEnd ∧
      ∀ offset < roundUp size 0x10, again.mem (pointer + offset) = later.mem (pointer + offset) := by
  obtain ⟨larger, _, multiple, _⟩ := roundUp16 bound
  obtain ⟨between, skipped, found, rest, betweenInv, fit, pointerEq, taken⟩ :=
    inv.malloc_cut bound positive run endHigh
  have allocation := betweenInv.taken (by omega) fit.fits taken
  have laterInv := kept _ allocation.inv
  obtain ⟨owner, member, _, ownerPtr, enough, _⟩ := allocation.owner
  obtain ⟨releasedInv, bounds, frame⟩ := laterInv.free member
  have ownerAddr : owner.addr = found.addr := by omega
  rw [ownerAddr, ← pointerEq, freed] at releasedInv frame bounds
  rw [betweenInv.release_carve (by omega) fit.fits taken] at releasedInv
  have settles : Settles mapPage released size
      (.ok (takeFit released found.addr (roundUp size 0x10))) :=
    settles_firstFit rfl (by omega) releasedInv.toHeapChain fit
  obtain ⟨place, retaken⟩ := takeFit_taken releasedInv.toHeapChain (by omega) fit.fits
  have payload : ∀ offset < roundUp size 0x10,
      (takeFit released found.addr (roundUp size 0x10)).2.mem (pointer + offset) =
        later.mem (pointer + offset) := by
    intro offset less
    rw [takeFit_payload releasedInv.toHeapChain (by omega) (by omega)]
    exact frame _ (laterInv.payload_not_header member (by omega) (by omega))
  generalize takeFit released found.addr (roundUp size 0x10) = result at settles place retaken payload
  obtain ⟨pointer', again⟩ := result
  have same : pointer' = pointer := place.trans pointerEq.symm
  rw [same] at settles
  exact ⟨again, settles, retaken.bounds.heapEnd.trans bounds.heapEnd, payload⟩

end

end OkeOS
