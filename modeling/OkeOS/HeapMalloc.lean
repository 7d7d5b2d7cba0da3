import OkeOS.HeapOps

/-!
`malloc` as a first-fit search on the list of segments: the scan finds the first free
segment that is long enough, `carve` cuts it, and `expandHeap` appends a free segment
at the end of the heap when none fits.
-/

namespace OkeOS

open ByteMemory Tiling
open HeapSegHdr hiding free

def Fits (size : Nat) (segment : Segment) : Prop :=
  segment.free = true ∧ size ≤ segment.length

/-- What allocating `size` bytes makes of a free segment. -/
def carve (size : Nat) (segment : Segment) : List Segment :=
  if size + 45 ≤ segment.length ∧ segment.length - size - 29 < 2 ^ 63 then
    [{ addr := segment.addr, length := size, free := false },
      { addr := segment.addr + size + 29, length := segment.length - size - 29, free := true }]
  else [{ segment with free := false }]

/-- The segment is allocated in `second`; apart from the chain only bytes of the
segment itself may have changed. -/
structure Taken {σ : Type} (first : Heap σ) (before : List Segment) (segment : Segment)
    (after : List Segment) (size : Nat) (second : Heap σ) : Prop where
  chain : HeapChain second (before ++ carve size segment ++ after)
  bounds : SameBounds second first
  frame : ∀ address, 0x1000 ≤ address → ¬InHeader (before ++ segment :: after) address →
    (address < segment.addr ∨ segment.addr + 29 + segment.length ≤ address) →
    second.mem address = first.mem address

section

variable {σ : Type} {heap : Heap σ}

theorem headAddr_apart {before after : List Segment} {segment : Segment}
    (chain : HeapChain heap (before ++ segment :: after)) :
    HeadersApart segment.addr (headAddr 0 after) := by
  have startLow := chain.startLow
  have bounds := chain.bounds
  by_cases empty : headAddr 0 after = 0
  · rw [empty]
    exact Or.inr (by omega)
  · have target := headAddr_bounds (tiles_split chain.tiles).2 empty
    exact Or.inl (by omega)

theorem split_chain {before after : List Segment} {segment : Segment} {size : Nat}
    (chain : HeapChain heap (before ++ segment :: after)) (sizeLow : 0x10 ≤ size)
    (room : size + 45 ≤ segment.length ∧ segment.length - size - 29 < 2 ^ 63) :
    HeapChain (split heap segment.addr size).2
        (before ++ { segment with length := size } ::
          { addr := segment.addr + size + 29, length := segment.length - size - 29,
            free := segment.free } :: after) ∧
      SameBounds (split heap segment.addr size).2 heap ∧
      ∀ address, 0x1000 ≤ address → ¬InHeader (before ++ segment :: after) address →
        (address < segment.addr ∨ segment.addr + 29 + segment.length ≤ address) →
        (split heap segment.addr size).2.mem address = heap.mem address := by
  have startLow := chain.startLow
  have endHigh := chain.endHigh
  have bounds := chain.bounds
  obtain ⟨front, back⟩ := tiles_split chain.tiles
  have segmentHeader := chain.header_eq
  have nextEq : next heap.mem segment.addr = headAddr 0 after :=
    header_next segmentHeader
  have lengthEq : length heap.mem segment.addr = segment.length :=
    header_length segmentHeader
  have freeEq : HeapSegHdr.free heap.mem segment.addr = segment.free :=
    header_free segmentHeader
  have apartTarget := headAddr_apart chain
  have targetBound : headAddr 0 after < 2 ^ 64 := by
    by_cases empty : headAddr 0 after = 0
    · omega
    · have target := headAddr_bounds back empty
      omega
  rw [split_eq sizeLow (by omega) lengthEq room (by omega) (by rwa [nextEq]), nextEq, freeEq]
  refine ⟨⟨?_, ?_, ?_, startLow, endHigh⟩, ⟨rfl, rfl, rfl⟩, ?_⟩
  · refine linked_append.mpr ⟨?_, ?_, ?_, ?_⟩
    · apply linked_frame chain.linked_before
      intro other member
      have earlier := (tiles_mem front member)
      rw [splitMem_header_apart _ (Or.inl (by omega)) (Or.inl (by omega))]
      by_cases empty : headAddr 0 after = 0
      · exact header_setLast_apart _ _ _ (by rw [empty]; exact Or.inr (by omega))
      · have target := headAddr_bounds back empty
        exact header_setLast_apart _ _ _ (Or.inl (by omega))
    · refine (splitMem_header_this heap.mem (Or.inl (by omega)) apartTarget (by omega)
        (by omega)).trans ?_
      rw [segmentHeader]
      rfl
    · exact splitMem_header_new heap.mem (Or.inr (by omega)) (by omega) targetBound (by omega)
    · have relinked := linked_relink (segment.addr + size + 29) chain.linked_after back
        (by omega) (by omega)
      apply linked_frame relinked
      intro other member
      have later := (tiles_mem back member).1
      have nonempty : headAddr 0 after ≠ 0 := by
        cases after with
        | nil => simp at member
        | cons first rest =>
            have startEq := back.1
            simp only [headAddr]
            omega
      rw [splitMem_header_apart _ (Or.inr (by omega)) (Or.inr (by omega)), relink,
        if_pos nonempty]
  · refine tiles_append.mpr ⟨_, front, rfl, ?_, ?_⟩
    · simp only
      omega
    · have stop : segment.addr + 29 + size + 29 + (segment.length - size - 29) =
          segment.addr + 29 + segment.length := by omega
      rw [stop]
      exact back
  · have lastEq := chain.lastHdr
    rw [lastAddr_append] at lastEq ⊢
    simp only [lastAddr] at lastEq ⊢
    by_cases empty : after = []
    · subst empty
      simp only [lastAddr] at lastEq ⊢
      rw [if_pos lastEq]
    · obtain ⟨final, member, same⟩ := lastAddr_mem segment.addr empty
      have later := (tiles_mem back member).1
      rw [lastEq, if_neg (by omega)]
      cases after with
      | nil => exact absurd rfl empty
      | cons first rest => rfl
  · intro address low outside outsideSegment
    apply splitMem_outside
    · omega
    · omega
    · by_cases empty : headAddr 0 after = 0
      · omega
      · cases after with
        | nil => exact absurd rfl empty
        | cons first rest =>
            by_contra inside
            simp only [headAddr] at inside
            exact outside ⟨first, by simp, by omega, by omega⟩

theorem takeSegment_eq {before after : List Segment} {segment : Segment}
    (chain : HeapChain heap (before ++ segment :: after)) (size : Nat) :
    takeSegment heap segment.addr size =
      (segment.addr + 29, { heap with mem := setFree heap.mem segment.addr false }) := by
  have bounds := chain.bounds
  have endHigh := chain.endHigh
  have payload : add64 segment.addr sizeofHeapSegHdr = segment.addr + 29 := by
    rw [sizeofHeapSegHdr, add64_of_lt (by omega)]
  simp only [takeSegment, payload]
  rfl

theorem takeSegment_whole {before after : List Segment} {segment : Segment} (size : Nat)
    (chain : HeapChain heap (before ++ segment :: after))
    (noRoom : ¬(size + 45 ≤ segment.length ∧ segment.length - size - 29 < 2 ^ 63)) :
    Taken heap before segment after size (takeSegment heap segment.addr size).2 := by
  rw [takeSegment_eq chain]
  have allocated := setFree_chain false chain
  refine ⟨?_, allocated.bounds, fun address _ outside _ => allocated.frame address outside⟩
  rw [carve, if_neg noRoom]
  simpa using allocated.chain

theorem takeSegment_split {before after : List Segment} {segment : Segment} {size : Nat}
    (chain : HeapChain heap (before ++ segment :: after)) (isFree : segment.free = true)
    (sizeLow : 0x10 ≤ size)
    (room : size + 45 ≤ segment.length ∧ segment.length - size - 29 < 2 ^ 63) :
    takeSegment (split heap segment.addr size).2 segment.addr size =
        (segment.addr + 29, (takeSegment (split heap segment.addr size).2 segment.addr size).2) ∧
      Taken heap before segment after size
        (takeSegment (split heap segment.addr size).2 segment.addr size).2 := by
  obtain ⟨cut, bounds, frame⟩ := split_chain chain sizeLow room
  have taken := takeSegment_eq cut size
  have allocated := setFree_chain false cut
  simp only at taken allocated
  rw [taken]
  refine ⟨rfl, ?_, allocated.bounds.trans bounds, ?_⟩
  · rw [carve, if_pos room]
    simpa [isFree] using allocated.chain
  · intro address low outside outsideSegment
    have segmentOutside : address < segment.addr ∨ segment.addr + 29 ≤ address := by omega
    exact (setFree_outside _ _ _ segmentOutside).trans (frame address low outside outsideSegment)

theorem mallocScan_fits {before after : List Segment} {segment : Segment} {size : Nat}
    (chain : HeapChain heap (before ++ segment :: after)) (sizeLow : 0x10 ≤ size)
    (fits : Fits size segment) (fuel : Nat) :
    ∃ heap', mallocScan (fuel + 1) heap size segment.addr =
        .ok (some (segment.addr + 29, heap')) ∧
      Taken heap before segment after size heap' := by
  have bounds := chain.bounds
  have endHigh := chain.endHigh
  have freeEq : HeapSegHdr.free heap.mem segment.addr = true :=
    (header_free chain.header_eq).trans fits.1
  have lengthEq : length heap.mem segment.addr = segment.length :=
    header_length chain.header_eq
  have whole := takeSegment_eq chain size
  simp only [mallocScan, freeEq, lengthEq, true_and]
  by_cases less : size < segment.length
  · rw [if_pos less]
    by_cases room : size + 45 ≤ segment.length ∧ segment.length - size - 29 < 2 ^ 63
    · obtain ⟨pointer, taken⟩ := takeSegment_split chain fits.1 sizeLow room
      exact ⟨_, by rw [pointer], taken⟩
    · rw [split_eq_self less (by omega) lengthEq room, whole]
      have taken := takeSegment_whole _ chain room
      rw [whole] at taken
      exact ⟨_, rfl, taken⟩
  · have exactFit : segment.length = size := by
      have enough := fits.2
      omega
    rw [if_neg less, if_pos exactFit, whole]
    have taken := takeSegment_whole size chain (by omega)
    rw [whole] at taken
    exact ⟨_, rfl, taken⟩

theorem mallocScan_step {segment : Segment} {size target prev : Nat}
    (headerEq : header heap.mem segment.addr =
      { length := segment.length, next := target, last := prev, free := segment.free })
    (unfit : ¬Fits size segment) (fuel : Nat) :
    mallocScan (fuel + 1) heap size segment.addr =
      if target = 0 then .ok none else mallocScan fuel heap size target := by
  have freeEq : HeapSegHdr.free heap.mem segment.addr = segment.free :=
    header_free headerEq
  have lengthEq : length heap.mem segment.addr = segment.length :=
    header_length headerEq
  have nextEq : next heap.mem segment.addr = target := header_next headerEq
  have notLonger : ¬(segment.free = true ∧ segment.length > size) :=
    fun both => unfit ⟨both.1, Nat.le_of_lt both.2⟩
  have notEqual : ¬(segment.free = true ∧ segment.length = size) :=
    fun both => unfit ⟨both.1, Nat.le_of_eq both.2.symm⟩
  simp only [mallocScan, freeEq, lengthEq, nextEq]
  rw [if_neg notLonger, if_neg notEqual]

theorem mallocScan_skip {before after : List Segment} {segment : Segment} {size : Nat}
    (chain : HeapChain heap (before ++ segment :: after))
    (unfit : ¬Fits size segment) (fuel : Nat) :
    mallocScan (fuel + 1) heap size segment.addr =
      if headAddr 0 after = 0 then .ok none else mallocScan fuel heap size (headAddr 0 after) :=
  mallocScan_step chain.header_eq unfit fuel

/-- A scan that returns has found the first fitting segment, or there is none. -/
theorem mallocScan_chain {size : Nat} (sizeLow : 0x10 ≤ size) :
    ∀ (after before : List Segment) (segment : Segment) (fuel : Nat)
      (result : Option (Nat × Heap σ)),
      HeapChain heap (before ++ segment :: after) →
      mallocScan fuel heap size segment.addr = .ok result →
      (result = none ∧ ∀ other ∈ segment :: after, ¬Fits size other) ∨
      ∃ skipped found rest heap', segment :: after = skipped ++ found :: rest ∧
        (∀ other ∈ skipped, ¬Fits size other) ∧ Fits size found ∧
        result = some (found.addr + 29, heap') ∧
        Taken heap (before ++ skipped) found rest size heap' := by
  intro after
  induction after with
  | nil =>
      intro before segment fuel result chain run
      cases fuel with
      | zero => simp [mallocScan] at run
      | succ fuel =>
          by_cases fits : Fits size segment
          · obtain ⟨heap', found, taken⟩ := mallocScan_fits chain sizeLow fits fuel
            rw [found, Except.ok.injEq] at run
            exact Or.inr ⟨[], segment, [], heap', rfl, by simp, fits, run.symm, by simpa using taken⟩
          · rw [mallocScan_skip chain fits, headAddr, if_pos rfl, Except.ok.injEq] at run
            exact Or.inl ⟨run.symm, by simpa using fits⟩
  | cons second rest ih =>
      intro before segment fuel result chain run
      cases fuel with
      | zero => simp [mallocScan] at run
      | succ fuel =>
          by_cases fits : Fits size segment
          · obtain ⟨heap', found, taken⟩ := mallocScan_fits chain sizeLow fits fuel
            rw [found, Except.ok.injEq] at run
            exact Or.inr ⟨[], segment, second :: rest, heap', rfl, by simp, fits, run.symm,
              by simpa using taken⟩
          · have startLow := chain.startLow
            have bounds := chain.bounds
            have secondEq := (tiles_split chain.tiles).2.1
            rw [mallocScan_skip chain fits, headAddr, if_neg (by omega)] at run
            have chain' : HeapChain heap ((before ++ [segment]) ++ second :: rest) := by
              simpa using chain
            rcases ih (before ++ [segment]) second fuel result chain' run with
              ⟨empty, unfit⟩ | ⟨skipped, found, others, heap', split, unfit, fitting, eq, taken⟩
            · refine Or.inl ⟨empty, ?_⟩
              intro other member
              rcases List.mem_cons.mp member with same | later
              · rwa [same]
              · exact unfit other later
            · refine Or.inr ⟨segment :: skipped, found, others, heap', by simp [split], ?_,
                fitting, eq, by simpa using taken⟩
              intro other member
              rcases List.mem_cons.mp member with same | later
              · rwa [same]
              · exact unfit other later

/-! `expandHeap`: a free segment is appended and merged with a free last segment. -/

/-- The memory after `expandHeap` has linked the header at `newHdr` behind `lastHdr`. -/
def appendMem (mem : Memory) (lastHdr newHdr length : Nat) : Memory :=
  let mem := setFree mem newHdr true
  let mem := setLast mem newHdr lastHdr
  let mem := setNext mem lastHdr newHdr
  let mem := setNext mem newHdr 0
  setLength mem newHdr length

section AppendMem

variable (mem : Memory) {lastHdr newHdr length : Nat}

theorem appendMem_header_new (apart : HeadersApart newHdr lastHdr)
    (lastBound : lastHdr < 2 ^ 64) (lengthBound : length < 2 ^ 64) :
    header (appendMem mem lastHdr newHdr length) newHdr =
      { length := length, next := 0, last := lastHdr, free := true } := by
  rw [appendMem, header_setLength _ _ lengthBound, header_setNext _ _ (by omega),
    header_setNext_apart _ _ _ apart, header_setLast _ _ lastBound, header_setFree]

theorem appendMem_header_last (apart : HeadersApart lastHdr newHdr) (newBound : newHdr < 2 ^ 64) :
    header (appendMem mem lastHdr newHdr length) lastHdr =
      { header mem lastHdr with next := newHdr } := by
  rw [appendMem, header_setLength_apart _ _ _ apart, header_setNext_apart _ _ _ apart,
    header_setNext _ _ newBound, header_setLast_apart _ _ _ apart, header_setFree_apart _ _ _ apart]

theorem appendMem_header_apart {other : Nat} (apart : HeadersApart other newHdr)
    (apartLast : HeadersApart other lastHdr) :
    header (appendMem mem lastHdr newHdr length) other = header mem other := by
  rw [appendMem, header_setLength_apart _ _ _ apart, header_setNext_apart _ _ _ apart,
    header_setNext_apart _ _ _ apartLast, header_setLast_apart _ _ _ apart,
    header_setFree_apart _ _ _ apart]

theorem appendMem_outside {address : Nat} (outside : address < newHdr ∨ newHdr + 29 ≤ address)
    (outsideLast : address < lastHdr ∨ lastHdr + 29 ≤ address) :
    appendMem mem lastHdr newHdr length address = mem address := by
  rw [appendMem, setLength_outside _ _ _ outside, setNext_outside _ _ _ outside,
    setNext_outside _ _ _ outsideLast, setLast_outside _ _ _ outside,
    setFree_outside _ _ _ outside]

end AppendMem

theorem roundUp16 {size : Nat} (bound : size ≤ 2 ^ 64 - 0x1000) :
    size ≤ roundUp size 0x10 ∧ roundUp size 0x10 < size + 0x10 ∧ roundUp size 0x10 % 0x10 = 0 ∧
      roundUp size 0x10 ≤ 2 ^ 64 - 0x1000 := by
  unfold roundUp add64
  split <;> omega

theorem roundUp_rounded {size unit : Nat} (rounded : size % unit = 0) :
    roundUp size unit = size := by
  rw [roundUp, if_neg (by omega)]

theorem roundUp4096 {size : Nat} (positive : 0 < size) (bound : size ≤ 2 ^ 64 - 0x1000) :
    size ≤ roundUp size 0x1000 ∧ roundUp size 0x1000 % 0x1000 = 0 ∧
      roundUp size 0x1000 ≤ 2 ^ 64 - 0x1000 := by
  unfold roundUp add64
  split <;> omega

variable {mapPage : σ → Nat → Except Fault σ}

theorem expandHeap_ok {heap' : Heap σ} {size : Nat} (aligned : heap.heapEnd % 0x1000 = 0)
    (run : expandHeap mapPage heap size = .ok heap') :
    ∃ pages, mapPages mapPage (roundUp size 0x1000 / 0x1000) heap.heapEnd heap.pages = .ok pages ∧
      heap' = combineBackward
        { heap with
          mem := appendMem heap.mem heap.lastHdr heap.heapEnd
            (sub64 (roundUp size 0x1000) sizeofHeapSegHdr)
          heapEnd := heap.heapEnd + roundUp size 0x1000 / 0x1000 * 0x1000
          lastHdr := heap.heapEnd
          pages := pages } heap.heapEnd := by
  simp only [expandHeap, aligned] at run
  cases mapped : mapPages mapPage (roundUp size 0x1000 / 0x1000) heap.heapEnd heap.pages with
  | error fault => simp [mapped, Bind.bind, Except.bind] at run
  | ok pages =>
      simp only [gt_iff_lt, Nat.lt_irrefl, if_false, mapped, Bind.bind, Except.bind,
        Except.ok.injEq] at run
      exact ⟨pages, rfl, run.symm⟩

theorem expandHeap_bounds {heap' : Heap σ} {size : Nat} (aligned : heap.heapEnd % 0x1000 = 0)
    (run : expandHeap mapPage heap size = .ok heap') :
    mapPages mapPage (roundUp size 0x1000 / 0x1000) heap.heapEnd heap.pages = .ok heap'.pages ∧
      heap'.heapStart = heap.heapStart ∧
      heap'.heapEnd = heap.heapEnd + roundUp size 0x1000 / 0x1000 * 0x1000 := by
  obtain ⟨pages, mapped, grown⟩ := expandHeap_ok aligned run
  rw [grown, (combineBackward_bounds _ _).pages, (combineBackward_bounds _ _).heapStart,
    (combineBackward_bounds _ _).heapEnd]
  exact ⟨mapped, rfl, rfl⟩

theorem expandHeap_returns {size : Nat} (aligned : heap.heapEnd % 0x1000 = 0) {pages : σ}
    (mapped : mapPages mapPage (roundUp size 0x1000 / 0x1000) heap.heapEnd heap.pages = .ok pages) :
    ∃ heap', expandHeap mapPage heap size = .ok heap' := by
  simp [expandHeap, aligned, mapped, Bind.bind, Except.bind]

theorem malloc_ok {fuel size pointer : Nat} {heap' : Heap σ}
    (run : malloc mapPage (fuel + 1) heap size = .ok (pointer, heap')) :
    (roundUp size 0x10 = 0 ∧ pointer = 0 ∧ heap' = heap) ∨
      roundUp size 0x10 ≠ 0 ∧
        (mallocScan fuel heap (roundUp size 0x10) heap.heapStart = .ok (some (pointer, heap')) ∨
          mallocScan fuel heap (roundUp size 0x10) heap.heapStart = .ok none ∧
            ∃ expanded, expandHeap mapPage heap (roundUp size 0x10) = .ok expanded ∧
              malloc mapPage fuel expanded (roundUp size 0x10) = .ok (pointer, heap')) := by
  rw [malloc] at run
  by_cases zero : roundUp size 0x10 = 0
  · simp only [zero, if_true, Except.ok.injEq, Prod.mk.injEq] at run
    exact Or.inl ⟨zero, run.1.symm, run.2.symm⟩
  · refine Or.inr ⟨zero, ?_⟩
    simp only [zero, if_false] at run
    cases scanned : mallocScan fuel heap (roundUp size 0x10) heap.heapStart with
    | error fault => simp [scanned, Bind.bind, Except.bind] at run
    | ok result =>
        simp only [scanned, Bind.bind, Except.bind] at run
        cases result with
        | some found =>
            simp only [Except.ok.injEq] at run
            exact Or.inl (by rw [run])
        | none =>
            cases expanded : expandHeap mapPage heap (roundUp size 0x10) with
            | error fault => simp [expanded] at run
            | ok heap1 =>
                simp only [expanded] at run
                exact Or.inr ⟨rfl, heap1, rfl, run⟩

theorem split_bounds (heap : Heap σ) (this size : Nat) :
    SameBounds (split heap this size).2 heap := by
  simp only [split]
  split
  · exact SameBounds.refl heap
  · split
    · exact SameBounds.refl heap
    · exact ⟨rfl, rfl, rfl⟩

theorem mallocScan_bounds {fuel size this pointer : Nat} {heap' : Heap σ}
    (run : mallocScan fuel heap size this = .ok (some (pointer, heap'))) :
    SameBounds heap' heap := by
  induction fuel generalizing this with
  | zero => simp [mallocScan] at run
  | succ fuel ih =>
      rw [mallocScan] at run
      split at run
      · simp only [Except.ok.injEq, Option.some.injEq, takeSegment, Prod.mk.injEq] at run
        have bounds := split_bounds heap this size
        rw [← run.2]
        exact ⟨bounds.heapStart, bounds.heapEnd, bounds.pages⟩
      · split at run
        · simp only [Except.ok.injEq, Option.some.injEq, takeSegment, Prod.mk.injEq] at run
          rw [← run.2]
          exact ⟨rfl, rfl, rfl⟩
        · split at run
          · simp at run
          · exact ih run

theorem expandHeap_bounds_ok {size : Nat} {heap' : Heap σ}
    (run : expandHeap mapPage heap size = .ok heap') :
    heap'.heapStart = heap.heapStart ∧ heap.heapEnd ≤ heap'.heapEnd := by
  obtain ⟨pages, _, run⟩ := Fault.peel run
  rw [Except.ok.injEq] at run
  rw [← run, (combineBackward_bounds _ _).heapStart, (combineBackward_bounds _ _).heapEnd]
  refine ⟨rfl, ?_⟩
  simp only
  split <;> omega

theorem expandHeap_start {size : Nat} {heap' : Heap σ}
    (run : expandHeap mapPage heap size = .ok heap') : heap'.heapStart = heap.heapStart :=
  (expandHeap_bounds_ok run).1

theorem expandHeap_end_le {size : Nat} {heap' : Heap σ}
    (run : expandHeap mapPage heap size = .ok heap') : heap.heapEnd ≤ heap'.heapEnd :=
  (expandHeap_bounds_ok run).2

theorem malloc_keeps {fuel size pointer : Nat} {heap' : Heap σ} (Kept : Heap σ → Prop)
    (scan : ∀ {before after : Heap σ}, SameBounds after before → Kept before → Kept after)
    (grow : ∀ {before after : Heap σ} {length : Nat},
      expandHeap mapPage before length = .ok after → Kept before → Kept after)
    (run : malloc mapPage fuel heap size = .ok (pointer, heap')) (kept : Kept heap) :
    Kept heap' := by
  induction fuel generalizing heap size with
  | zero => simp [malloc] at run
  | succ fuel ih =>
      rcases malloc_ok run with ⟨_, _, same⟩ | ⟨_, scanned | ⟨_, expanded, grown, again⟩⟩
      · rwa [same]
      · exact scan (mallocScan_bounds scanned) kept
      · exact ih again (grow grown kept)

theorem malloc_end_le {fuel size pointer : Nat} {heap' : Heap σ}
    (run : malloc mapPage fuel heap size = .ok (pointer, heap')) :
    heap.heapEnd ≤ heap'.heapEnd := by
  refine malloc_keeps (fun other => heap.heapEnd ≤ other.heapEnd) ?_ ?_ run (Nat.le_refl _)
  · intro before after same kept
    rwa [same.heapEnd]
  · intro before after length grown kept
    exact Nat.le_trans kept (expandHeap_end_le grown)

theorem malloc_start {fuel size pointer : Nat} {heap' : Heap σ}
    (run : malloc mapPage fuel heap size = .ok (pointer, heap')) :
    heap'.heapStart = heap.heapStart := by
  refine malloc_keeps (fun other => other.heapStart = heap.heapStart) ?_ ?_ run rfl
  · intro before after same kept
    rw [same.heapStart, kept]
  · intro before after length grown kept
    rw [expandHeap_start grown, kept]

theorem append_chain {front : List Segment} {previous : Segment} (length : Nat) (pages : σ)
    (chain : HeapChain heap (front ++ [previous])) (lengthLow : 29 ≤ length)
    (endHigh : heap.heapEnd + length < 2 ^ 64) :
    HeapChain
      { heap with
        mem := appendMem heap.mem heap.lastHdr heap.heapEnd (length - 29)
        heapEnd := heap.heapEnd + length
        lastHdr := heap.heapEnd
        pages := pages }
      (front ++ [previous, { addr := heap.heapEnd, length := length - 29, free := true }]) := by
  have startLow := chain.startLow
  have bounds := chain.bounds
  obtain ⟨frontTiles, back⟩ := tiles_split chain.tiles
  have lastEq : heap.lastHdr = previous.addr := by
    rw [chain.lastHdr, lastAddr_append]
    rfl
  have previousEnd : previous.addr + 29 + previous.length = heap.heapEnd := back
  rw [lastEq]
  refine ⟨?_, ?_, ?_, startLow, endHigh⟩
  · refine linked_append.mpr ⟨?_, ?_, ?_, trivial⟩
    · apply linked_frame chain.linked_before
      intro other member
      have earlier := (tiles_mem frontTiles member).2
      exact appendMem_header_apart _ (Or.inl (by omega)) (Or.inl (by omega))
    · refine (appendMem_header_last heap.mem (Or.inl (by omega)) (by omega)).trans ?_
      rw [chain.header_eq]
      rfl
    · exact appendMem_header_new heap.mem (Or.inr (by omega)) (by omega) (by omega)
  · refine tiles_append.mpr ⟨_, frontTiles, rfl, previousEnd.symm, ?_⟩
    simp only [Tiles]
    omega
  · rw [lastAddr_append]
    rfl

/-- `expandHeap` appends a free segment of whole pages. -/
theorem expandHeap_chain {heap' : Heap σ} {front : List Segment} {previous : Segment} {size : Nat}
    (chain : HeapChain heap (front ++ [previous])) (noPair : NoFreePair (front ++ [previous]))
    (aligned : heap.heapEnd % 0x1000 = 0) (positive : 0 < size) (bound : size ≤ 2 ^ 64 - 0x1000)
    (run : expandHeap mapPage heap size = .ok heap') (endHigh : heap'.heapEnd < 2 ^ 64) :
    HeapChain heap' (coalesce 29 (front ++ [previous,
        { addr := heap.heapEnd, length := roundUp size 0x1000 - 29, free := true }])) ∧
      heap'.heapStart = heap.heapStart ∧
      heap'.heapEnd = heap.heapEnd + roundUp size 0x1000 ∧
      ∀ address, address < heap.heapEnd → ¬InHeader (front ++ [previous]) address →
        heap'.mem address = heap.mem address := by
  obtain ⟨larger, whole, _⟩ := roundUp4096 positive bound
  obtain ⟨pages, _, result⟩ := expandHeap_ok aligned run
  have pageBytes : roundUp size 0x1000 / 0x1000 * 0x1000 = roundUp size 0x1000 := by omega
  have lengthEq : sub64 (roundUp size 0x1000) sizeofHeapSegHdr = roundUp size 0x1000 - 29 := by
    rw [sizeofHeapSegHdr, sub64_of_le (by omega) (by omega)]
  rw [pageBytes, lengthEq] at result
  have endEq : heap'.heapEnd = heap.heapEnd + roundUp size 0x1000 := by
    rw [result, (combineBackward_bounds _ _).heapEnd]
  have merged := combineBackward_chain
    (append_chain (roundUp size 0x1000) pages chain (by omega) (by rwa [← endEq]))
  rw [← result] at merged
  refine ⟨?_, merged.bounds.heapStart, endEq, ?_⟩
  · rw [coalesce_append_cons noPair]
    exact merged.chain
  · intro address low outside
    have lastEq : heap.lastHdr = previous.addr := by
      rw [chain.lastHdr, lastAddr_append]
      rfl
    have outsidePrevious : address < previous.addr ∨ previous.addr + 29 ≤ address := by
      by_contra inside
      exact outside ⟨previous, by simp, by omega, by omega⟩
    rw [merged.frame address ?_]
    · exact appendMem_outside _ (Or.inl low) (by rwa [lastEq])
    · rintro ⟨owner, member, lower, upper⟩
      simp only [List.mem_append, List.mem_cons, List.not_mem_nil, or_false] at member
      rcases member with earlier | same | new
      · exact outside ⟨owner, by simp [earlier], lower, upper⟩
      · exact outside ⟨owner, by simp [same], lower, upper⟩
      · rw [new] at lower
        simp only at lower
        omega

end

end OkeOS
