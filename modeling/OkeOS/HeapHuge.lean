import OkeOS.HeapFirstFit

/-!
Sizes that `expandHeap` rounds up to `2 ^ 64`, that is, to no page at all.  It then puts a
header of `2 ^ 64 - 29` bytes right behind the heap.
-/

namespace OkeOS

open ByteMemory Tiling
open HeapSegHdr hiding free

/-- A multiple of 16 within the last page of the address space. -/
structure Huge (need : Nat) : Prop where
  low : 2 ^ 64 - 0x1000 < need
  high : need ≤ 2 ^ 64 - 0x10
  multiple : need % 0x10 = 0

theorem huge_roundUp {size : Nat} (low : 2 ^ 64 - 0x1000 < size) (high : size ≤ 2 ^ 64 - 0x10) :
    Huge (roundUp size 0x10) := by
  have bounds : 2 ^ 64 - 0x1000 < roundUp size 0x10 ∧ roundUp size 0x10 ≤ 2 ^ 64 - 0x10 ∧
      roundUp size 0x10 % 0x10 = 0 := by
    unfold roundUp add64
    split <;> omega
  exact ⟨bounds.1, bounds.2.1, bounds.2.2⟩

theorem roundUp_top {size : Nat} (low : 2 ^ 64 - 0x10 < size) (word : size < 2 ^ 64) :
    roundUp size 0x10 = 0 := by
  unfold roundUp add64
  split <;> omega

theorem Huge.noPage {need : Nat} (huge : Huge need) : roundUp need 0x1000 = 0 := by
  obtain ⟨low, high, multiple⟩ := huge
  unfold roundUp add64
  split <;> omega

section

variable {σ : Type} {heap heap' : Heap σ} {segments : List Segment} {need : Nat}
  {mapPage : σ → Nat → Except Fault σ}

theorem Huge.unfit (huge : Huge need) {heapStart heapEnd : Nat}
    (tiles : Tiles 29 heapStart segments heapEnd) (aligned : heapEnd % 0x1000 = 0)
    (endHigh : heapEnd < 2 ^ 64) : ∀ other ∈ segments, ¬Fits need other := by
  rintro other member ⟨_, long⟩
  have low := huge.low
  have bounds := tiles_mem tiles member
  omega

/-- The heap with the header that `expandHeap` writes behind it, not yet merged. -/
def appendHuge (heap : Heap σ) : Heap σ :=
  { heap with
    mem := appendMem heap.mem heap.lastHdr heap.heapEnd (2 ^ 64 - 29)
    lastHdr := heap.heapEnd }

theorem appendHuge_bounds (heap : Heap σ) : SameBounds (appendHuge heap) heap := ⟨rfl, rfl, rfl⟩

theorem Huge.expandHeap (huge : Huge need) (aligned : heap.heapEnd % 0x1000 = 0) :
    expandHeap mapPage heap need = .ok (combineBackward (appendHuge heap) heap.heapEnd) := by
  have lengthEq : sub64 0 sizeofHeapSegHdr = 2 ^ 64 - 29 := rfl
  simp only [OkeOS.expandHeap, huge.noPage, aligned, lengthEq]
  rfl

/-! Behind a free segment the header is merged away again. -/

theorem combineBackward_huge {this new length prev : Nat}
    (newHeader : header heap.mem new =
      { length := 2 ^ 64 - 29, next := 0, last := this, free := true })
    (thisHeader : header heap.mem this =
      { length := length, next := new, last := prev, free := true })
    (thisNonzero : this ≠ 0) (newNonzero : new ≠ 0) (apart : HeadersApart new this)
    (word : length < 2 ^ 64) :
    combineBackward heap new =
      { heap with
        mem := joined heap.mem this 0 length
        lastHdr := if new = heap.lastHdr then this else heap.lastHdr } := by
  have lastEq : last heap.mem new = this := header_last newHeader
  have freeEq : HeapSegHdr.free heap.mem this = true := header_free thisHeader
  have sum : add64 (add64 length (2 ^ 64 - 29)) sizeofHeapSegHdr = length := by
    unfold add64 sizeofHeapSegHdr
    omega
  have nextEq : next heap.mem this = new := header_next thisHeader
  have lengthEq : HeapSegHdr.length heap.mem this = length := header_length thisHeader
  have newFree : HeapSegHdr.free heap.mem new = true := header_free newHeader
  have newNext : next heap.mem new = 0 := header_next newHeader
  have newLength : HeapSegHdr.length heap.mem new = 2 ^ 64 - 29 := by
    rw [show HeapSegHdr.length heap.mem new = (header heap.mem new).length from rfl, newHeader]
  have joinedEq := combineForward_joined nextEq newFree newNext lengthEq newLength newNonzero
    apart (fun nonzero => absurd rfl nonzero)
  rw [sum] at joinedEq
  rw [combineBackward, lastEq, if_pos ⟨thisNonzero, freeEq⟩, joinedEq]

section

variable {front : List Segment} {previous : Segment} (inv : HeapInv heap (front ++ [previous]))

include inv

theorem appendHuge_new : header (appendHuge heap).mem heap.heapEnd =
    { length := 2 ^ 64 - 29, next := 0, last := previous.addr, free := true } := by
  have bounds := inv.toHeapChain.bounds
  have endHigh := inv.endHigh
  have lastEq : heap.lastHdr = previous.addr := by
    rw [inv.lastHdr, lastAddr_append]
    rfl
  rw [appendHuge, lastEq]
  exact appendMem_header_new heap.mem (Or.inr (by omega)) (by omega) (by omega)

theorem appendHuge_previous : header (appendHuge heap).mem previous.addr =
    { length := previous.length, next := heap.heapEnd, last := lastAddr 0 front,
      free := previous.free } := by
  have bounds := inv.toHeapChain.bounds
  have lastEq : heap.lastHdr = previous.addr := by
    rw [inv.lastHdr, lastAddr_append]
    rfl
  rw [appendHuge, lastEq]
  refine (appendMem_header_last heap.mem (Or.inl (by omega)) inv.endHigh).trans ?_
  rw [inv.toHeapChain.header_eq]

theorem appendHuge_front {other : Segment} (member : other ∈ front) :
    header (appendHuge heap).mem other.addr = header heap.mem other.addr := by
  have bounds := inv.toHeapChain.bounds
  have earlier := (tiles_mem (tiles_split inv.tiles).1 member).2
  have lastEq : heap.lastHdr = previous.addr := by
    rw [inv.lastHdr, lastAddr_append]
    rfl
  rw [appendHuge, lastEq]
  exact appendMem_header_apart heap.mem (Or.inl (by omega)) (Or.inl (by omega))

theorem merge_huge (isFree : previous.free = true) :
    HeapInv (combineBackward (appendHuge heap) heap.heapEnd) (front ++ [previous]) := by
  have startLow := inv.startLow
  have endHigh := inv.endHigh
  have bounds := inv.toHeapChain.bounds
  have newHeader := appendHuge_new inv
  have previousHeader := appendHuge_previous inv
  rw [isFree] at previousHeader
  rw [combineBackward_huge newHeader previousHeader (by omega) (by omega) (Or.inr (by omega))
    (by omega)]
  refine ⟨⟨?_, inv.tiles, ?_, startLow, endHigh⟩, inv.nonempty, inv.lengths, inv.noFreePair,
    inv.endAligned⟩
  · refine linked_append.mpr ⟨?_, ?_, trivial⟩
    · apply linked_frame inv.toHeapChain.linked_before
      intro other member
      have earlier := (tiles_mem (tiles_split inv.tiles).1 member).2
      rw [joined_header_apart _ (Or.inl (by omega)), relink, if_neg (by simp)]
      exact appendHuge_front inv member
    · refine (joined_header_this _ (fun nonzero => absurd rfl nonzero) (by omega)
        (by omega)).trans ?_
      rw [previousHeader, isFree]
      rfl
  · rw [lastAddr_append]
    exact if_pos rfl

end

/-! A call that never returns. -/

theorem mallocScan_error {fuel this size : Nat} {fault : Fault}
    (run : mallocScan fuel heap size this = .error fault) : fault = .outOfFuel := by
  induction fuel generalizing this with
  | zero =>
      rw [mallocScan, Except.error.injEq] at run
      exact run.symm
  | succ fuel ih =>
      rw [mallocScan] at run
      split at run
      · simp at run
      · split at run
        · simp at run
        · split at run
          · simp at run
          · exact ih run

/-- If every state of a kind is left by a scan that finds nothing and an expansion to a state
of the same kind, `malloc` runs out of every number of rounds. -/
theorem malloc_diverges (Stuck : Heap σ → Prop) {size : Nat} (rounded : roundUp size 0x10 = need)
    (again : roundUp need 0x10 = need) (nonzero : need ≠ 0)
    (scans : ∀ heap, Stuck heap → ∃ least, ∀ fuel, least ≤ fuel →
      mallocScan fuel heap need heap.heapStart = .ok none)
    (grows : ∀ heap, Stuck heap → ∃ heap', expandHeap mapPage heap need = .ok heap' ∧ Stuck heap')
    (stuck : Stuck heap) (fuel : Nat) : malloc mapPage fuel heap size = .error .outOfFuel := by
  induction fuel generalizing heap size with
  | zero => rfl
  | succ fuel ih =>
      obtain ⟨heap', expanded, stuck'⟩ := grows heap stuck
      obtain ⟨least, none⟩ := scans heap stuck
      rw [malloc]
      simp only [rounded, nonzero, if_false]
      cases scanned : mallocScan fuel heap need heap.heapStart with
      | error fault =>
          rw [mallocScan_error scanned]
          rfl
      | ok result =>
          have longer := mallocScan_extra scanned least
          rw [none _ (by omega), Except.ok.injEq] at longer
          rw [← longer]
          simp only [Bind.bind, Except.bind, expanded]
          exact ih again stuck'

theorem Huge.ne_zero (huge : Huge need) : need ≠ 0 := by
  have low := huge.low
  omega

theorem malloc_huge_lastFree {front : List Segment} {previous : Segment} {size : Nat}
    (inv : HeapInv heap (front ++ [previous])) (isFree : previous.free = true)
    (rounded : roundUp size 0x10 = need) (huge : Huge need) (fuel : Nat) :
    malloc mapPage fuel heap size = .error .outOfFuel := by
  refine malloc_diverges (fun heap => HeapInv heap (front ++ [previous])) rounded
    (roundUp_rounded huge.multiple) huge.ne_zero ?_ ?_ inv fuel
  · intro heap inv
    exact ⟨_, fun fuel enough => mallocScan_none inv
      (huge.unfit inv.tiles inv.endAligned inv.endHigh) enough⟩
  · intro heap inv
    exact ⟨_, huge.expandHeap inv.endAligned, merge_huge inv isFree⟩

/-! Behind an allocated segment the header stays. -/

/-- The chain goes on past the end of the heap, to a free header of `2 ^ 64 - 29` bytes that
is also `LastHdr`. -/
structure Dangling (heap : Heap σ) (segments : List Segment) : Prop where
  linked : Linked heap.mem 0 segments heap.heapEnd
  tiles : Tiles 29 heap.heapStart segments heap.heapEnd
  startLow : 0x1000 ≤ heap.heapStart
  endHigh : heap.heapEnd < 2 ^ 64
  nonempty : segments ≠ []
  endAligned : heap.heapEnd % 0x1000 = 0
  lastHdr : heap.lastHdr = heap.heapEnd
  behind : ∃ prev, header heap.mem heap.heapEnd =
    { length := 2 ^ 64 - 29, next := 0, last := prev, free := true }

theorem combineBackward_taken {this new prev target length : Nat}
    (newLast : last heap.mem new = this)
    (thisHeader : header heap.mem this =
      { length := length, next := target, last := prev, free := false }) :
    combineBackward heap new = heap := by
  have freeEq : HeapSegHdr.free heap.mem this = false := header_free thisHeader
  rw [combineBackward, newLast, if_neg (by simp [freeEq])]

theorem dangling_of_bounds {prev : Nat} (same : SameBounds heap' heap)
    (lastEq : heap'.lastHdr = heap.heapEnd) (tiles : Tiles 29 heap.heapStart segments heap.heapEnd)
    (startLow : 0x1000 ≤ heap.heapStart) (endHigh : heap.heapEnd < 2 ^ 64)
    (nonempty : segments ≠ []) (endAligned : heap.heapEnd % 0x1000 = 0)
    (linked : Linked heap'.mem 0 segments heap.heapEnd)
    (behind : header heap'.mem heap.heapEnd =
      { length := 2 ^ 64 - 29, next := 0, last := prev, free := true }) :
    Dangling heap' segments := by
  obtain ⟨heapStart, heapEnd, _⟩ := same
  rw [← heapStart, ← heapEnd] at tiles
  rw [← heapStart] at startLow
  rw [← heapEnd] at endHigh endAligned linked behind lastEq
  exact ⟨linked, tiles, startLow, endHigh, nonempty, endAligned, lastEq, prev, behind⟩

theorem HeapInv.dangling {front : List Segment} {previous : Segment}
    (inv : HeapInv heap (front ++ [previous])) (notFree : previous.free = false) :
    Dangling (combineBackward (appendHuge heap) heap.heapEnd) (front ++ [previous]) := by
  have newHeader := appendHuge_new inv
  have previousHeader := appendHuge_previous inv
  have frontHeaders (other : Segment) (member : other ∈ front) := appendHuge_front inv member
  have sameBounds := appendHuge_bounds heap
  have lastEq : (appendHuge heap).lastHdr = heap.heapEnd := rfl
  generalize appendHuge heap = appended at *
  rw [combineBackward_taken (header_last newHeader) (notFree ▸ previousHeader)]
  refine dangling_of_bounds sameBounds lastEq inv.tiles inv.startLow inv.endHigh inv.nonempty
    inv.endAligned ?_ newHeader
  refine linked_append.mpr ⟨?_, previousHeader, trivial⟩
  exact linked_frame inv.toHeapChain.linked_before frontHeaders

section

variable (dangling : Dangling heap segments)

include dangling

theorem Dangling.rounds {fuel : Nat} (huge : Huge need) (enough : segments.length < fuel) :
    mallocScan fuel heap need heap.heapStart =
      mallocScan (fuel - segments.length) heap need heap.heapEnd := by
  obtain ⟨first, rest, split⟩ := List.exists_cons_of_ne_nil dangling.nonempty
  have startLow := dangling.startLow
  have bounds := tiles_le dangling.tiles
  have start : headAddr heap.heapEnd segments = heap.heapStart := by
    have tiles := dangling.tiles
    rw [split] at tiles ⊢
    exact tiles.1
  rw [← start]
  refine mallocScan_linked dangling.linked ?_ (by omega)
    (huge.unfit dangling.tiles dangling.endAligned dangling.endHigh) enough
  intro other member
  have lower := (tiles_mem dangling.tiles member).1
  omega

theorem Dangling.next_start_ne_zero : next heap.mem heap.heapStart ≠ 0 := by
  obtain ⟨first, rest, split⟩ := List.exists_cons_of_ne_nil dangling.nonempty
  have startLow := dangling.startLow
  have tiles := dangling.tiles
  have linked := dangling.linked
  have bounds := tiles_le tiles
  rw [split] at tiles linked
  have start : first.addr = heap.heapStart := tiles.1
  have nextEq : next heap.mem first.addr = headAddr heap.heapEnd rest :=
    header_next linked.1
  rw [← start, nextEq]
  cases rest with
  | nil =>
      rw [headAddr]
      omega
  | cons second others =>
      have lower := (tiles_mem tiles.2 (by simp : second ∈ second :: others)).1
      rw [headAddr]
      omega

theorem Dangling.expandHeap (huge : Huge need) :
    ∃ heap', expandHeap mapPage heap need = .ok heap' ∧ Dangling heap' segments := by
  have endHigh := dangling.endHigh
  have newHeader : header (appendHuge heap).mem heap.heapEnd =
      { length := 2 ^ 64 - 29, next := 0, last := heap.heapEnd, free := true } := by
    rw [appendHuge, dangling.lastHdr, appendMem, header_setLength _ _ (by omega),
      header_setNext _ _ (by omega), header_setNext _ _ endHigh, header_setLast _ _ endHigh,
      header_setFree]
  have others : ∀ other ∈ segments,
      header (appendHuge heap).mem other.addr = header heap.mem other.addr := by
    intro other member
    have earlier := (tiles_mem dangling.tiles member).2
    rw [appendHuge, dangling.lastHdr]
    exact appendMem_header_apart heap.mem (Or.inl (by omega)) (Or.inl (by omega))
  have sameBounds := appendHuge_bounds heap
  have lastEq : (appendHuge heap).lastHdr = heap.heapEnd := rfl
  have expanded : OkeOS.expandHeap mapPage heap need =
      .ok (combineBackward (appendHuge heap) heap.heapEnd) := huge.expandHeap dangling.endAligned
  generalize appendHuge heap = appended at *
  have alone : combineBackward appended heap.heapEnd = appended := by
    have newLast : last appended.mem heap.heapEnd = heap.heapEnd := header_last newHeader
    have newNext : next appended.mem heap.heapEnd = 0 := header_next newHeader
    rw [combineBackward, newLast]
    split
    · rw [combineForward, newNext]
      rfl
    · rfl
  rw [alone] at expanded
  exact ⟨appended, expanded, dangling_of_bounds sameBounds lastEq dangling.tiles dangling.startLow
    dangling.endHigh dangling.nonempty dangling.endAligned (linked_frame dangling.linked others)
    newHeader⟩

/-- The dangling segment at `heapEnd`. -/
def danglingAt (heapEnd : Nat) : Segment :=
  { addr := heapEnd, length := 2 ^ 64 - 29, free := true }

theorem Dangling.behind_at : ∃ prev, header heap.mem (danglingAt heap.heapEnd).addr =
    { length := (danglingAt heap.heapEnd).length, next := 0, last := prev,
      free := (danglingAt heap.heapEnd).free } :=
  dangling.behind

theorem Dangling.scan_none {fuel : Nat} (huge : Huge need) (long : 2 ^ 64 - 29 < need)
    (enough : segments.length < fuel) : mallocScan fuel heap need heap.heapStart = .ok none := by
  obtain ⟨less, lessEq⟩ : ∃ less, fuel - segments.length = less + 1 :=
    ⟨fuel - segments.length - 1, by omega⟩
  obtain ⟨prev, behind⟩ := dangling.behind_at
  have unfit : ¬Fits need (danglingAt heap.heapEnd) := by
    rintro ⟨_, fits⟩
    simp only [danglingAt] at fits
    omega
  rw [dangling.rounds huge enough, lessEq]
  exact mallocScan_step behind unfit less

theorem Dangling.scan_behind {fuel : Nat} (huge : Huge need) (short : need < 2 ^ 64 - 29)
    (enough : segments.length < fuel) :
    mallocScan fuel heap need heap.heapStart = .ok (some (takeFit heap heap.heapEnd need)) := by
  obtain ⟨less, lessEq⟩ : ∃ less, fuel - segments.length = less + 1 :=
    ⟨fuel - segments.length - 1, by omega⟩
  obtain ⟨prev, behind⟩ := dangling.behind
  have freeEq : HeapSegHdr.free heap.mem heap.heapEnd = true := header_free behind
  have lengthEq : length heap.mem heap.heapEnd = 2 ^ 64 - 29 := by
    rw [show length heap.mem heap.heapEnd = (header heap.mem heap.heapEnd).length from rfl, behind]
  rw [dangling.rounds huge enough, lessEq, mallocScan, takeFit, lengthEq,
    if_pos ⟨freeEq, short⟩, if_pos short]

end

theorem takeFit_fst (heap : Heap σ) (this size : Nat) :
    (takeFit heap this size).1 = add64 this sizeofHeapSegHdr := by
  rw [takeFit]
  split
  · rfl
  · rfl

section

variable {front : List Segment} {previous : Segment} {size : Nat}
  (inv : HeapInv heap (front ++ [previous])) (notFree : previous.free = false)
  (rounded : roundUp size 0x10 = need) (huge : Huge need)

include inv notFree rounded huge

/-- The header behind the heap is too short: the call goes on forever. -/
theorem malloc_huge_top (long : 2 ^ 64 - 29 < need) (fuel : Nat) :
    malloc mapPage fuel heap size = .error .outOfFuel := by
  refine malloc_diverges
    (fun heap => HeapInv heap (front ++ [previous]) ∨ Dangling heap (front ++ [previous])) rounded
    (roundUp_rounded huge.multiple) huge.ne_zero ?_ ?_ (Or.inl inv) fuel
  · rintro heap (inv | dangling)
    · exact ⟨_, fun fuel enough => mallocScan_none inv
        (huge.unfit inv.tiles inv.endAligned inv.endHigh) enough⟩
    · exact ⟨_, fun fuel enough => dangling.scan_none huge long enough⟩
  · rintro heap (inv | dangling)
    · exact ⟨_, huge.expandHeap inv.endAligned, Or.inr (inv.dangling notFree)⟩
    · obtain ⟨heap', expanded, dangling'⟩ := dangling.expandHeap huge
      exact ⟨heap', expanded, Or.inr dangling'⟩

/-- Otherwise the call returns the bytes behind that header. -/
theorem malloc_huge_behind (short : need < 2 ^ 64 - 29) :
    ∃ dangling, Dangling dangling (front ++ [previous]) ∧ SameBounds dangling heap ∧
      Settles mapPage heap size (.ok (takeFit dangling dangling.heapEnd need)) := by
  have dangling := inv.dangling notFree
  refine ⟨_, dangling, (combineBackward_bounds _ _).trans (appendHuge_bounds heap), ?_⟩
  refine settles_grow rounded huge.ne_zero inv
    (huge.unfit inv.tiles inv.endAligned inv.endHigh) (huge.expandHeap inv.endAligned) ?_
  generalize combineBackward (appendHuge heap) heap.heapEnd = between at dangling
  refine ⟨(front ++ [previous]).length + 2, fun fuel enough => ?_⟩
  obtain ⟨less, rfl⟩ : ∃ less, fuel = less + 1 := ⟨fuel - 1, by omega⟩
  rw [malloc]
  simp only [roundUp_rounded huge.multiple, huge.ne_zero, if_false,
    dangling.scan_behind huge short (show (front ++ [previous]).length < less by omega),
    Bind.bind, Except.bind]

end

end

end OkeOS
