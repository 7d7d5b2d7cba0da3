import OkeOS.HeapMalloc

/-!
The invariant of the heap over whole runs.  A run starts with `initHeap` and goes on
with calls of `malloc`, `free` and `sfree` on live blocks and with client writes inside
live blocks; every call keeps `HeapInv`, and the blocks handed out and not yet freed
are exactly the allocated segments.
-/

namespace OkeOS

open ByteMemory Tiling
open HeapSegHdr hiding free

structure HeapInv {σ : Type} (heap : Heap σ) (segments : List Segment) : Prop
    extends HeapChain heap segments where
  nonempty : segments ≠ []
  lengths : ∀ segment ∈ segments, 0x10 ≤ segment.length
  noFreePair : NoFreePair segments
  endAligned : heap.heapEnd % 0x1000 = 0

theorem HeapInv.eq_concat {σ : Type} {heap : Heap σ} {segments : List Segment}
    (inv : HeapInv heap segments) :
    ∃ front previous, segments = front ++ [previous] := by
  rcases List.eq_nil_or_concat segments with empty | ⟨front, previous, split⟩
  · exact absurd empty inv.nonempty
  · exact ⟨front, previous, split.trans List.concat_eq_append⟩

/-- The byte lies in the payload of an allocated segment. -/
def InPayload (segments : List Segment) (address : Nat) : Prop :=
  ∃ segment ∈ segments, segment.free = false ∧ segment.addr + 29 ≤ address ∧
    address < segment.addr + 29 + segment.length

theorem tiles_nonempty {header start stop : Nat} {segments : List Segment}
    (tiles : Tiles header start segments stop) (less : start < stop) : segments ≠ [] := by
  rintro rfl
  exact Nat.ne_of_lt less tiles

section

variable {σ : Type} {heap heap' : Heap σ} {segments segments' : List Segment}

theorem HeapInv.start_lt_end (inv : HeapInv heap segments) : heap.heapStart < heap.heapEnd := by
  obtain ⟨first, rest, split⟩ := List.exists_cons_of_ne_nil inv.nonempty
  have bounds := tiles_mem inv.tiles (by simp [split] : first ∈ segments)
  omega

theorem HeapChain.payload_not_header (chain : HeapChain heap segments) {segment : Segment}
    (member : segment ∈ segments) {address : Nat} (lower : segment.addr + 29 ≤ address)
    (upper : address < segment.addr + 29 + segment.length) : ¬InHeader segments address := by
  rintro ⟨other, otherMem, otherLower, otherUpper⟩
  rcases tiles_apart chain.tiles member otherMem with same | earlier | later
  · subst same
    omega
  · omega
  · omega

theorem HeapChain.payload_bounds (chain : HeapChain heap segments) {address : Nat}
    (payload : InPayload segments address) :
    0x1000 ≤ address ∧ address < heap.heapEnd ∧ ¬InHeader segments address := by
  obtain ⟨owner, member, _, lower, upper⟩ := payload
  have startLow := chain.startLow
  have bounds := tiles_mem chain.tiles member
  exact ⟨by omega, by omega, chain.payload_not_header member lower upper⟩

theorem HeapChain.eq_of_addr (chain : HeapChain heap segments) {first second : Segment}
    (firstMem : first ∈ segments) (secondMem : second ∈ segments)
    (same : first.addr = second.addr) : first = second := by
  rcases tiles_apart chain.tiles firstMem secondMem with equal | earlier | later
  · exact equal
  · omega
  · omega

theorem segments_unique {mem : Memory} {prev prev' start stop : Nat} {first second : List Segment}
    (firstLinked : Linked mem prev first 0) (secondLinked : Linked mem prev' second 0)
    (firstTiles : Tiles 29 start first stop) (secondTiles : Tiles 29 start second stop) :
    first = second := by
  induction first generalizing prev prev' start second with
  | nil =>
      cases second with
      | nil => rfl
      | cons segment rest =>
          have bounds := tiles_le secondTiles.2
          have same : start = stop := firstTiles
          omega
  | cons left lefts ih =>
      cases second with
      | nil =>
          have bounds := tiles_le firstTiles.2
          have same : start = stop := secondTiles
          omega
      | cons right rights =>
          have leftAddr : left.addr = start := firstTiles.1
          have rightAddr : right.addr = start := secondTiles.1
          have leftHeader := firstLinked.1
          have rightHeader := secondLinked.1
          rw [leftAddr] at leftHeader
          rw [rightAddr, leftHeader] at rightHeader
          simp only [Header.mk.injEq] at rightHeader
          obtain ⟨lengthEq, _, _, freeEq⟩ := rightHeader
          have tails := ih firstLinked.2 secondLinked.2 firstTiles.2 (lengthEq ▸ secondTiles.2)
          rw [tails, show left = right from by
            cases left
            cases right
            simp_all]

theorem HeapInv.unique (first : HeapInv heap segments) (second : HeapInv heap segments') :
    segments = segments' :=
  segments_unique first.linked second.linked first.tiles second.tiles

/-! `free` and `sfree`. -/

theorem HeapInv.free (inv : HeapInv heap segments) {segment : Segment}
    (member : segment ∈ segments) :
    HeapInv (free heap (segment.addr + 29)) (release 29 segments segment.addr) ∧
      SameBounds (OkeOS.free heap (segment.addr + 29)) heap ∧
      ∀ address, ¬InHeader segments address →
        (OkeOS.free heap (segment.addr + 29)).mem address = heap.mem address := by
  have less := inv.start_lt_end
  obtain ⟨before, after, rfl⟩ := List.append_of_mem member
  have freed := free_chain inv.toHeapChain inv.noFreePair
  refine ⟨⟨freed.chain, ?_, ?_, ?_, ?_⟩, freed.bounds, freed.frame⟩
  · apply tiles_nonempty freed.chain.tiles
    rwa [freed.bounds.heapStart, freed.bounds.heapEnd]
  · exact release_length_le inv.lengths
  · exact coalesce_noFreePair _ _
  · rw [freed.bounds.heapEnd]
    exact inv.endAligned

/-- What `sfree` does to the freed heap. -/
def zeroPayload (heap : Heap σ) (address size : Nat) : Heap σ :=
  { heap with mem := memset heap.mem address 0 size }

theorem sfree_eq (heap : Heap σ) (address size : Nat) :
    sfree heap address size = zeroPayload (free heap address) address size := rfl

theorem zeroPayload_bounds (heap : Heap σ) (address size : Nat) :
    SameBounds (zeroPayload heap address size) heap := ⟨rfl, rfl, rfl⟩

theorem zeroPayload_apply (heap : Heap σ) (pointer size address : Nat) :
    (zeroPayload heap pointer size).mem address =
      if pointer ≤ address ∧ address < pointer + size then 0 else heap.mem address :=
  memset_apply heap.mem pointer 0 size address

theorem HeapInv.of_headers (inv : HeapInv heap segments) {mem : Memory}
    (same : ∀ segment ∈ segments, header mem segment.addr = header heap.mem segment.addr) :
    HeapInv { heap with mem := mem } segments :=
  { linked := linked_frame inv.linked same
    tiles := inv.tiles
    lastHdr := inv.lastHdr
    startLow := inv.startLow
    endHigh := inv.endHigh
    nonempty := inv.nonempty
    lengths := inv.lengths
    noFreePair := inv.noFreePair
    endAligned := inv.endAligned }

theorem HeapInv.of_frame (inv : HeapInv heap segments) {mem : Memory}
    (same : ∀ address, InHeader segments address → mem address = heap.mem address) :
    HeapInv { heap with mem := mem } segments :=
  inv.of_headers fun segment member =>
    header_congr fun address lower upper => same address ⟨segment, member, lower, upper⟩

theorem inHeader_release {addr address : Nat}
    (inside : InHeader (release 29 segments addr) address) : InHeader segments address := by
  obtain ⟨owner, member, lower, upper⟩ := inside
  obtain ⟨source, sourceMem, same⟩ := mem_release_addr member
  exact ⟨source, sourceMem, by omega, by omega⟩

theorem HeapInv.zeroPayload (inv : HeapInv heap segments) {pointer size : Nat}
    (outside : ∀ address, pointer ≤ address → address < pointer + size →
      ¬InHeader segments address) :
    HeapInv (zeroPayload heap pointer size) segments := by
  apply inv.of_frame
  intro address inside
  apply memset_outside
  by_contra touched
  exact outside address (by omega) (by omega) inside

theorem HeapInv.sfree (inv : HeapInv heap segments) {segment : Segment} {size : Nat}
    (member : segment ∈ segments) (sizeBound : size ≤ segment.length) :
    HeapInv (sfree heap (segment.addr + 29) size) (release 29 segments segment.addr) := by
  rw [sfree_eq]
  apply (inv.free member).1.zeroPayload
  intro address lower upper inside
  exact inv.payload_not_header member lower (by omega) (inHeader_release inside)

theorem HeapInv.sfree_frame (inv : HeapInv heap segments) {segment : Segment} (size : Nat)
    (member : segment ∈ segments) :
    ∀ address, address < segment.addr + 29 ∨ segment.addr + 29 + size ≤ address →
      ¬InHeader segments address →
      (OkeOS.sfree heap (segment.addr + 29) size).mem address = heap.mem address := by
  intro address outside notHeader
  rw [sfree_eq, zeroPayload_apply, if_neg (by omega)]
  exact (inv.free member).2.2 address notHeader

/-! `malloc`. -/

theorem carve_cases (size : Nat) (segment : Segment) :
    ∃ owner rest, carve size segment = owner :: rest ∧ owner.addr = segment.addr ∧
      owner.free = false ∧ owner.length ≤ segment.length ∧
      (size ≤ segment.length → size ≤ owner.length) ∧
      (rest = [] ∨ ∃ remainder, rest = [remainder] ∧ remainder.free = true ∧
        0x10 ≤ remainder.length) := by
  unfold carve
  split
  · rename_i room
    exact ⟨_, _, rfl, rfl, rfl, by simp only; omega, fun _ => Nat.le_refl _,
      Or.inr ⟨_, rfl, rfl, by simp only; omega⟩⟩
  · exact ⟨_, [], rfl, rfl, rfl, Nat.le_refl _, fun enough => enough, Or.inl rfl⟩

theorem noFreePair_carve {before after : List Segment} {segment : Segment} (size : Nat)
    (noPair : NoFreePair (before ++ segment :: after)) (isFree : segment.free = true) :
    NoFreePair (before ++ carve size segment ++ after) := by
  obtain ⟨front, back, _⟩ := List.isChain_append.mp noPair
  obtain ⟨owner, rest, carved, _, ownerFree, _, _, restCases⟩ := carve_cases size segment
  have afterHead : ∀ next ∈ after.head?, ¬(next.free = true) := by
    intro next head nextFree
    cases after with
    | nil => simp at head
    | cons first others =>
        simp only [List.head?_cons, Option.mem_def, Option.some.injEq] at head
        subst head
        exact (List.isChain_cons_cons.mp back).1 ⟨isFree, nextFree⟩
  rw [carved, List.append_assoc]
  refine List.isChain_append.mpr ⟨front, ?_, ?_⟩
  · rcases restCases with empty | ⟨remainder, single, _, _⟩
    · subst empty
      refine List.isChain_append.mpr ⟨List.isChain_singleton _, back.tail, ?_⟩
      intro last lastMem next nextMem both
      exact afterHead next nextMem both.2
    · subst single
      refine List.isChain_append.mpr ⟨?_, back.tail, ?_⟩
      · refine List.isChain_cons_cons.mpr ⟨?_, List.isChain_singleton _⟩
        intro both
        rw [ownerFree] at both
        exact Bool.false_ne_true both.1
      · intro last lastMem next nextMem both
        exact afterHead next nextMem both.2
  · intro last lastMem next nextMem both
    simp only [List.cons_append, List.head?_cons, Option.mem_def, Option.some.injEq] at nextMem
    rw [← nextMem, ownerFree] at both
    exact Bool.false_ne_true both.2

/-- The segments of `heap'` hold one allocated segment more than those of `heap`, with
its payload at `pointer`, and the payloads of `heap` are untouched. -/
structure Allocation (heap : Heap σ) (segments : List Segment) (heap' : Heap σ)
    (segments' : List Segment) (pointer need : Nat) : Prop where
  inv : HeapInv heap' segments'
  heapStart : heap'.heapStart = heap.heapStart
  owner : ∃ owner ∈ segments', owner.free = false ∧ owner.addr + 29 = pointer ∧
    need ≤ owner.length ∧
    (∀ other, other.free = false → (other ∈ segments' ↔ other ∈ segments ∨ other = owner)) ∧
    ∀ other ∈ segments, other.free = false → other.addr ≠ owner.addr
  frame : ∀ address, InPayload segments address → heap'.mem address = heap.mem address

theorem HeapInv.taken {before after : List Segment} {segment : Segment} {size : Nat}
    (inv : HeapInv heap (before ++ segment :: after)) (sizeLow : 0x10 ≤ size)
    (fits : Fits size segment) (taken : Taken heap before segment after size heap') :
    Allocation heap (before ++ segment :: after) heap' (before ++ carve size segment ++ after)
      (segment.addr + 29) size := by
  obtain ⟨owner, rest, carved, ownerAddr, ownerFree, _, enough, restCases⟩ :=
    carve_cases size segment
  have restFree : ∀ other ∈ rest, other.free = true ∧ 0x10 ≤ other.length := by
    intro other member
    rcases restCases with empty | ⟨remainder, single, remainderFree, long⟩
    · simp [empty] at member
    · rw [single, List.mem_singleton] at member
      rw [member]
      exact ⟨remainderFree, long⟩
  have ownerLength := enough fits.2
  refine ⟨⟨taken.chain, ?_, ?_, ?_, ?_⟩, taken.bounds.heapStart, ?_, ?_⟩
  · simp [carved]
  · intro other member
    simp only [carved, List.mem_append, List.mem_cons] at member
    rcases member with (earlier | same | remainder) | later
    · exact inv.lengths other (by simp [earlier])
    · rw [same]
      omega
    · exact (restFree other remainder).2
    · exact inv.lengths other (by simp [later])
  · exact noFreePair_carve size inv.noFreePair fits.1
  · rw [taken.bounds.heapEnd]
    exact inv.endAligned
  · refine ⟨owner, by simp [carved], ownerFree, by rw [ownerAddr], ownerLength, ?_, ?_⟩
    · intro other otherAllocated
      have notRest : other ∉ rest := by
        intro member
        rw [(restFree other member).1] at otherAllocated
        exact absurd otherAllocated (by simp)
      have notSegment : other ≠ segment := by
        intro same
        rw [same, fits.1] at otherAllocated
        exact absurd otherAllocated (by simp)
      simp only [carved, List.mem_append, List.mem_cons, notRest, notSegment, or_false, false_or]
      tauto
    · intro other member otherAllocated same
      have equal := inv.eq_of_addr member (by simp : segment ∈ before ++ segment :: after)
        (same.trans ownerAddr)
      rw [equal, fits.1] at otherAllocated
      exact absurd otherAllocated (by simp)
  · intro address payload
    obtain ⟨low, _, outside⟩ := inv.payload_bounds payload
    apply taken.frame address low outside
    obtain ⟨holder, member, allocated, lower, upper⟩ := payload
    rcases tiles_apart inv.tiles member (by simp : segment ∈ before ++ segment :: after) with
      same | earlier | later
    · rw [same, fits.1] at allocated
      exact absurd allocated (by simp)
    · omega
    · omega

variable {mapPage : σ → Nat → Except Fault σ}

/-- Expansion keeps the allocated segments and their bytes. -/
structure Expansion (heap : Heap σ) (segments : List Segment) (heap' : Heap σ)
    (segments' : List Segment) : Prop where
  inv : HeapInv heap' segments'
  heapStart : heap'.heapStart = heap.heapStart
  allocated : ∀ other, other.free = false → (other ∈ segments' ↔ other ∈ segments)
  frame : ∀ address, InPayload segments address → heap'.mem address = heap.mem address

/-- `expandHeap` appends a free segment of whole pages and merges it with a free last one. -/
theorem HeapInv.expandHeap_last {front : List Segment} {previous : Segment} {size : Nat}
    (inv : HeapInv heap (front ++ [previous]))
    (positive : 0 < size) (bound : size ≤ 2 ^ 64 - 0x1000)
    (run : expandHeap mapPage heap size = .ok heap') (endHigh : heap'.heapEnd < 2 ^ 64) :
    Expansion heap (front ++ [previous]) heap' (front ++ push 29 previous
        [{ addr := heap.heapEnd, length := roundUp size 0x1000 - 29, free := true }]) ∧
      heap'.heapEnd = heap.heapEnd + roundUp size 0x1000 := by
  obtain ⟨larger, whole, _⟩ := roundUp4096 positive bound
  obtain ⟨chain, startEq, endEq, frame⟩ := expandHeap_chain inv.toHeapChain inv.noFreePair
    inv.endAligned positive bound run endHigh
  have less := inv.start_lt_end
  have aligned := inv.endAligned
  have canonical : coalesce 29 (front ++ [previous,
        { addr := heap.heapEnd, length := roundUp size 0x1000 - 29, free := true }]) =
      front ++ push 29 previous
        [{ addr := heap.heapEnd, length := roundUp size 0x1000 - 29, free := true }] :=
    coalesce_append_cons inv.noFreePair
  rw [← canonical]
  refine ⟨⟨⟨chain, ?_, ?_, coalesce_noFreePair _ _, ?_⟩, startEq, ?_, ?_⟩, endEq⟩
  · apply tiles_nonempty chain.tiles
    omega
  · apply coalesce_length_le
    intro other member
    simp only [List.mem_append, List.mem_cons, List.not_mem_nil, or_false] at member
    rcases member with earlier | same | new
    · exact inv.lengths other (by simp [earlier])
    · exact inv.lengths other (by simp [same])
    · rw [new]
      simp only
      omega
  · omega
  · intro other allocated
    rw [mem_coalesce_allocated allocated]
    simp only [List.mem_append, List.mem_cons, List.not_mem_nil, or_false]
    constructor
    · rintro (earlier | same | new)
      · exact Or.inl earlier
      · exact Or.inr same
      · rw [new] at allocated
        exact absurd allocated (by simp)
    · tauto
  · intro address payload
    obtain ⟨_, high, outside⟩ := inv.payload_bounds payload
    exact frame address high outside

theorem HeapInv.expandHeap {size : Nat} (inv : HeapInv heap segments)
    (positive : 0 < size) (bound : size ≤ 2 ^ 64 - 0x1000)
    (run : expandHeap mapPage heap size = .ok heap') (endHigh : heap'.heapEnd < 2 ^ 64) :
    ∃ segments', Expansion heap segments heap' segments' := by
  obtain ⟨front, previous, rfl⟩ := inv.eq_concat
  exact ⟨_, (inv.expandHeap_last positive bound run endHigh).1⟩

theorem Expansion.allocation {heap1 : Heap σ} {segments1 : List Segment} {pointer need : Nat}
    (expansion : Expansion heap segments heap1 segments1)
    (allocation : Allocation heap1 segments1 heap' segments' pointer need) :
    Allocation heap segments heap' segments' pointer need := by
  obtain ⟨owner, member, ownerFree, ownerAddr, enough, allocated, fresh⟩ := allocation.owner
  refine ⟨allocation.inv, allocation.heapStart.trans expansion.heapStart,
    ⟨owner, member, ownerFree, ownerAddr, enough, ?_, ?_⟩, ?_⟩
  · intro other otherFree
    rw [allocated other otherFree, expansion.allocated other otherFree]
  · intro other otherMem otherFree
    exact fresh other ((expansion.allocated other otherFree).mpr otherMem) otherFree
  · rintro address ⟨holder, holderMem, holderFree, lower, upper⟩
    rw [allocation.frame address ⟨holder, (expansion.allocated holder holderFree).mpr holderMem,
      holderFree, lower, upper⟩]
    exact expansion.frame address ⟨holder, holderMem, holderFree, lower, upper⟩

/-- `malloc` rounds the size to 0 and returns `NULL`, or allocates. -/
theorem HeapInv.malloc {fuel size pointer : Nat} (inv : HeapInv heap segments)
    (bound : size ≤ 2 ^ 64 - 0x1000)
    (run : malloc mapPage fuel heap size = .ok (pointer, heap'))
    (endHigh : heap'.heapEnd < 2 ^ 64) :
    (roundUp size 0x10 = 0 ∧ pointer = 0 ∧ heap' = heap) ∨
      ∃ segments', Allocation heap segments heap' segments' pointer (roundUp size 0x10) := by
  induction fuel generalizing heap segments size with
  | zero => simp [OkeOS.malloc] at run
  | succ fuel ih =>
      obtain ⟨_, _, multiple, roundedBound⟩ := roundUp16 bound
      rcases malloc_ok run with null | ⟨nonzero, outcome⟩
      · exact Or.inl null
      · obtain ⟨first, rest, split⟩ := List.exists_cons_of_ne_nil inv.nonempty
        subst split
        rw [← (inv.tiles.1 : first.addr = heap.heapStart)] at outcome
        rcases outcome with scanned | ⟨_, expanded, grown, again⟩
        · rcases mallocScan_chain (by omega) rest [] first fuel _ inv.toHeapChain scanned with
            ⟨impossible, _⟩ | ⟨skipped, found, others, heap1, split, _, fits, eq, taken⟩
          · simp at impossible
          · simp only [Option.some.injEq, Prod.mk.injEq] at eq
            rw [split] at inv
            rw [eq.1, eq.2, split]
            exact Or.inr ⟨_, inv.taken (by omega) fits taken⟩
        · have grownEnd := malloc_end_le again
          obtain ⟨segments1, expansion⟩ := inv.expandHeap (by omega) roundedBound grown (by omega)
          rcases ih expansion.inv roundedBound again with ⟨zero, _⟩ | ⟨segments', allocation⟩
          · rw [roundUp_rounded multiple] at zero
            exact absurd zero nonzero
          · rw [roundUp_rounded multiple] at allocation
            exact Or.inr ⟨segments', expansion.allocation allocation⟩

end

end OkeOS
