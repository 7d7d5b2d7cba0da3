import OkeOS.HeapFirstFit
import OkeOS.HeapRun

/-!
The headers that the heap functions store to.  Each list follows the stores of its function
in order, and the function changes no byte outside the headers in it.  All of them lie in
the heap as long as `malloc` does not cut the last segment, whose `next` is `NULL`.
-/

namespace OkeOS

open ByteMemory Tiling
open HeapSegHdr hiding free

section

variable {σ : Type}

def combineForwardWrites (mem : Memory) (this : Nat) : List Nat :=
  let next' := next mem this
  if next' = 0 then []
  else if HeapSegHdr.free mem next' = false then []
  else
    let afterNext := next mem next'
    if afterNext ≠ 0 then [afterNext, this, this] else [this, this]

def combineBackwardWrites (mem : Memory) (this : Nat) : List Nat :=
  let last' := last mem this
  if last' ≠ 0 ∧ HeapSegHdr.free mem last' = true then combineForwardWrites mem last' else []

def splitWrites (mem : Memory) (this splitLength : Nat) : List Nat :=
  if splitLength < 0x10 then []
  else
    let splitSegLength : Int :=
      toInt64 (sub64 (sub64 (length mem this) splitLength) sizeofHeapSegHdr)
    if splitSegLength < 0x10 then []
    else
      let newSplitHdr := add64 (add64 this splitLength) sizeofHeapSegHdr
      [next mem this, newSplitHdr, this, newSplitHdr, newSplitHdr, newSplitHdr, this]

def freeWrites (heap : Heap σ) (address : Nat) : List Nat :=
  let segment := headerOf address
  let marked := { heap with mem := setFree heap.mem segment true }
  [segment] ++ (combineForwardWrites marked.mem segment ++
    combineBackwardWrites (combineForward marked segment).mem segment)

def scanWrites : Nat → Memory → Nat → Nat → List Nat
  | 0, _, _, _ => []
  | fuel + 1, mem, size, currentSeg =>
      if HeapSegHdr.free mem currentSeg = true ∧ length mem currentSeg > size then
        splitWrites mem currentSeg size ++ [currentSeg]
      else if HeapSegHdr.free mem currentSeg = true ∧ length mem currentSeg = size then
        [currentSeg]
      else if next mem currentSeg = 0 then []
      else scanWrites fuel mem size (next mem currentSeg)

/-- The stores of `expandHeap` after it has mapped its pages. -/
def expandWrites (heap : Heap σ) (length : Nat) : List Nat :=
  let length := roundUp length 0x1000
  let align := heap.heapEnd % 0x1000
  let newSegment := if align > 0 then heap.heapEnd + (0x1000 - align) else heap.heapEnd
  let mem := setFree heap.mem newSegment true
  let mem := setLast mem newSegment heap.lastHdr
  let mem := setNext mem heap.lastHdr newSegment
  let mem := setNext mem newSegment 0
  let mem := setLength mem newSegment (sub64 length sizeofHeapSegHdr)
  [newSegment, newSegment, heap.lastHdr, newSegment, newSegment] ++
    combineBackwardWrites mem newSegment

/-- A store to the header at `hdr`, with the bounds the heap has at that time. -/
structure HeaderWrite where
  heapStart : Nat
  heapEnd : Nat
  hdr : Nat
deriving DecidableEq, Repr

def HeaderWrite.Inside (write : HeaderWrite) : Prop :=
  write.heapStart ≤ write.hdr ∧ write.hdr + 29 ≤ write.heapEnd

/-- Stores made while the heap has the bounds of `heap`. -/
def stamp (heap : Heap σ) (writes : List Nat) : List HeaderWrite :=
  writes.map (HeaderWrite.mk heap.heapStart heap.heapEnd)

/-- The stores of a call of `malloc`, whether or not it returns. -/
def mallocWrites (mapPage : σ → Nat → Except Fault σ) : Nat → Heap σ → Nat → List HeaderWrite
  | 0, _, _ => []
  | fuel + 1, heap, size =>
      let size := roundUp size 0x10
      if size = 0 then []
      else
        stamp heap (scanWrites fuel heap.mem size heap.heapStart) ++
          match mallocScan fuel heap size heap.heapStart with
          | .ok none =>
              match expandHeap mapPage heap size with
              | .ok expanded =>
                  stamp expanded (expandWrites heap size) ++ mallocWrites mapPage fuel expanded size
              | .error _ => []
          | _ => []

/-! No other byte changes. -/

/-- The two memories agree outside the headers in `writes`, and on their `magic`. -/
def Covered (writes : List Nat) (first second : Memory) : Prop :=
  ∀ address, second address ≠ first address →
    ∃ hdr ∈ writes, hdr + 4 ≤ address ∧ address < hdr + 29

theorem Covered.refl (writes : List Nat) (mem : Memory) : Covered writes mem mem :=
  fun _ changed => absurd rfl changed

theorem Covered.trans {left right : List Nat} {first second third : Memory}
    (before : Covered left first second) (after : Covered right second third) :
    Covered (left ++ right) first third := by
  intro address changed
  by_cases same : second address = first address
  · obtain ⟨hdr, member, inside⟩ := after address (by rwa [same])
    exact ⟨hdr, List.mem_append_right _ member, inside⟩
  · obtain ⟨hdr, member, inside⟩ := before address same
    exact ⟨hdr, List.mem_append_left _ member, inside⟩

theorem Covered.of_outside {hdr : Nat} {first second : Memory}
    (same : ∀ address, address < hdr + 4 ∨ hdr + 29 ≤ address →
      second address = first address) : Covered [hdr] first second := by
  intro address changed
  refine ⟨hdr, List.mem_singleton_self _, ?_⟩
  by_contra outside
  exact changed (same address (by omega))

theorem covered_setLength (mem : Memory) (this value : Nat) :
    Covered [this] mem (setLength mem this value) :=
  .of_outside fun _ outside => store_outside _ _ _ _ _ (by omega)

theorem covered_setNext (mem : Memory) (this value : Nat) :
    Covered [this] mem (setNext mem this value) :=
  .of_outside fun _ outside => store_outside _ _ _ _ _ (by omega)

theorem covered_setLast (mem : Memory) (this value : Nat) :
    Covered [this] mem (setLast mem this value) :=
  .of_outside fun _ outside => store_outside _ _ _ _ _ (by omega)

theorem covered_setFree (mem : Memory) (this : Nat) (value : Bool) :
    Covered [this] mem (setFree mem this value) :=
  .of_outside fun _ outside => writeByte_other _ _ (by omega)

theorem combineForward_covered (heap : Heap σ) (this : Nat) :
    Covered (combineForwardWrites heap.mem this) heap.mem (combineForward heap this).mem := by
  simp only [combineForwardWrites, combineForward]
  split
  · exact .refl _ _
  · split
    · exact .refl _ _
    · by_cases relink : next heap.mem (next heap.mem this) ≠ 0
      · rw [if_pos relink, if_pos relink]
        exact ((covered_setLast _ _ _).trans (covered_setLength _ _ _)).trans
          (covered_setNext _ _ _)
      · rw [if_neg relink, if_neg relink]
        exact (covered_setLength _ _ _).trans (covered_setNext _ _ _)

theorem combineBackward_covered (heap : Heap σ) (this : Nat) :
    Covered (combineBackwardWrites heap.mem this) heap.mem (combineBackward heap this).mem := by
  simp only [combineBackwardWrites, combineBackward]
  split
  · exact combineForward_covered heap _
  · exact .refl _ _

theorem split_covered (heap : Heap σ) (this splitLength : Nat) :
    Covered (splitWrites heap.mem this splitLength) heap.mem (split heap this splitLength).2.mem := by
  simp only [splitWrites, split]
  split
  · exact .refl _ _
  · split
    · exact .refl _ _
    · exact ((((((covered_setLast _ _ _).trans (covered_setNext _ _ _)).trans
        (covered_setNext _ _ _)).trans (covered_setLast _ _ _)).trans
        (covered_setLength _ _ _)).trans (covered_setFree _ _ _)).trans (covered_setLength _ _ _)

/-- What `free` does once the segment is marked. -/
def combined (heap : Heap σ) (segment : Nat) : Heap σ :=
  combineBackward (combineForward heap segment) segment

def combinedWrites (heap : Heap σ) (segment : Nat) : List Nat :=
  combineForwardWrites heap.mem segment ++
    combineBackwardWrites (combineForward heap segment).mem segment

def marked (heap : Heap σ) (segment : Nat) : Heap σ :=
  { heap with mem := setFree heap.mem segment true }

theorem free_eq (heap : Heap σ) (address : Nat) :
    free heap address = combined (marked heap (headerOf address)) (headerOf address) := rfl

theorem freeWrites_eq (heap : Heap σ) (address : Nat) :
    freeWrites heap address = [headerOf address] ++
      combinedWrites (marked heap (headerOf address)) (headerOf address) := rfl

theorem combined_covered (heap : Heap σ) (segment : Nat) :
    Covered (combinedWrites heap segment) heap.mem (combined heap segment).mem := by
  rw [combinedWrites, combined]
  exact (combineForward_covered heap segment).trans
    (combineBackward_covered (combineForward heap segment) segment)

theorem free_covered (heap : Heap σ) (address : Nat) :
    Covered (freeWrites heap address) heap.mem (free heap address).mem := by
  rw [free_eq, freeWrites_eq]
  exact Covered.trans (covered_setFree heap.mem (headerOf address) true)
    (combined_covered (marked heap (headerOf address)) (headerOf address))

theorem takeSegment_covered (heap : Heap σ) (this size : Nat) :
    Covered [this] heap.mem (takeSegment heap this size).2.mem := by
  apply Covered.of_outside
  intro address outside
  simp only [takeSegment]
  rw [memset_outside _ (by omega)]
  exact writeByte_other _ _ (by omega)

theorem mallocScan_covered {fuel size this pointer : Nat} {heap heap' : Heap σ}
    (run : mallocScan fuel heap size this = .ok (some (pointer, heap'))) :
    Covered (scanWrites fuel heap.mem size this) heap.mem heap'.mem := by
  induction fuel generalizing this with
  | zero => simp [mallocScan] at run
  | succ fuel ih =>
      rw [mallocScan] at run
      rw [scanWrites]
      split at run
      · rename_i longer
        rw [if_pos longer]
        simp only [Except.ok.injEq, Option.some.injEq] at run
        have taken := (split_covered heap this size).trans
          (takeSegment_covered (split heap this size).2 this size)
        rwa [run] at taken
      · rename_i notLonger
        rw [if_neg notLonger]
        split at run
        · rename_i equal
          rw [if_pos equal]
          simp only [Except.ok.injEq, Option.some.injEq] at run
          have taken := takeSegment_covered heap this size
          rwa [run] at taken
        · rename_i notEqual
          rw [if_neg notEqual]
          split at run
          · simp at run
          · rename_i more
            rw [if_neg more]
            exact ih run

variable {mapPage : σ → Nat → Except Fault σ}

theorem expandHeap_covered {heap heap' : Heap σ} {length : Nat}
    (run : expandHeap mapPage heap length = .ok heap') :
    Covered (expandWrites heap length) heap.mem heap'.mem := by
  obtain ⟨pages, _, result⟩ := Fault.peel run
  rw [Except.ok.injEq] at result
  simp only [expandWrites]
  generalize sub64 (roundUp length 0x1000) sizeofHeapSegHdr = segmentLength at result ⊢
  generalize (if heap.heapEnd % 0x1000 > 0 then heap.heapEnd + (0x1000 - heap.heapEnd % 0x1000)
    else heap.heapEnd) = newSegment at result ⊢
  rw [← result]
  apply Covered.trans ?_ (combineBackward_covered { heap with
    mem := setLength (setNext (setNext (setLast (setFree heap.mem newSegment true) newSegment
      heap.lastHdr) heap.lastHdr newSegment) newSegment 0) newSegment segmentLength
    heapEnd := newSegment + roundUp length 0x1000 / 0x1000 * 0x1000
    lastHdr := newSegment
    pages := pages } newSegment)
  exact ((((covered_setFree _ _ _).trans (covered_setLast _ _ _)).trans
    (covered_setNext _ _ _)).trans (covered_setNext _ _ _)).trans (covered_setLength _ _ _)

theorem malloc_covered {fuel size pointer : Nat} {heap heap' : Heap σ}
    (run : malloc mapPage fuel heap size = .ok (pointer, heap')) :
    Covered ((mallocWrites mapPage fuel heap size).map HeaderWrite.hdr) heap.mem heap'.mem := by
  have stamped (heap : Heap σ) (writes : List Nat) :
      (stamp heap writes).map HeaderWrite.hdr = writes := by
    rw [stamp, List.map_map]
    exact List.map_id' writes
  induction fuel generalizing heap size with
  | zero => simp [malloc] at run
  | succ fuel ih =>
      rcases malloc_ok run with ⟨_, _, same⟩ | ⟨nonzero, outcome⟩
      · rw [same]
        exact .refl _ _
      · rcases outcome with scanned | ⟨none, expanded, grown, again⟩
        · rw [mallocWrites]
          simp only [nonzero, if_false, scanned, List.append_nil, stamped]
          exact mallocScan_covered scanned
        · rw [mallocWrites]
          simp only [nonzero, if_false, none, grown, List.map_append, stamped]
          have later := (expandHeap_covered grown).trans (ih again)
          intro address changed
          obtain ⟨hdr, member, inside⟩ := later address changed
          exact ⟨hdr, List.mem_append_right _ member, inside⟩

/-! Which headers they are. -/

/-- The header belongs to one of the segments. -/
def IsHeader (segments : List Segment) (hdr : Nat) : Prop :=
  ∃ owner ∈ segments, hdr = owner.addr

variable {heap heap' : Heap σ} {segments before after : List Segment} {segment : Segment}

theorem HeapChain.header_inside (chain : HeapChain heap segments) {hdr : Nat}
    (isHeader : IsHeader segments hdr) : heap.heapStart ≤ hdr ∧ hdr + 29 ≤ heap.heapEnd := by
  obtain ⟨owner, member, rfl⟩ := isHeader
  have bounds := tiles_mem chain.tiles member
  exact ⟨bounds.1, by omega⟩

theorem combineForwardWrites_header (chain : HeapChain heap (before ++ segment :: after))
    {hdr : Nat} (member : hdr ∈ combineForwardWrites heap.mem segment.addr) :
    IsHeader (before ++ segment :: after) hdr := by
  have nextEq : next heap.mem segment.addr = headAddr 0 after :=
    header_next chain.header_eq
  simp only [combineForwardWrites, nextEq] at member
  split at member
  · simp at member
  rename_i nonzero
  split at member
  · simp at member
  cases after with
  | nil => exact absurd rfl nonzero
  | cons second rest =>
      have afterNext : next heap.mem second.addr = headAddr 0 rest :=
        header_next chain.linked_after.1
      have headEq : headAddr 0 (second :: rest) = second.addr := rfl
      rw [headEq, afterNext] at member
      by_cases relink : headAddr 0 rest ≠ 0
      · rw [if_pos relink] at member
        simp only [List.mem_cons, List.not_mem_nil, or_false, or_self] at member
        rcases member with relinked | joined
        · cases rest with
          | nil => exact absurd rfl relink
          | cons third others => exact ⟨third, by simp, relinked⟩
        · exact ⟨segment, by simp, joined⟩
      · rw [if_neg relink] at member
        simp only [List.mem_cons, List.not_mem_nil, or_false, or_self] at member
        exact ⟨segment, by simp, member⟩

theorem combineBackwardWrites_header (chain : HeapChain heap (before ++ segment :: after))
    {hdr : Nat} (member : hdr ∈ combineBackwardWrites heap.mem segment.addr) :
    IsHeader (before ++ segment :: after) hdr := by
  have lastEq : last heap.mem segment.addr = lastAddr 0 before :=
    header_last chain.header_eq
  simp only [combineBackwardWrites, lastEq] at member
  split at member
  · rename_i merges
    rcases List.eq_nil_or_concat before with empty | ⟨front, previous, split⟩
    · rw [empty] at merges
      exact absurd rfl merges.1
    · rw [List.concat_eq_append] at split
      subst split
      rw [lastAddr_append] at member
      rw [List.append_assoc] at chain ⊢
      exact combineForwardWrites_header chain member
  · simp at member

theorem freeWrites_inside (chain : HeapChain heap (before ++ segment :: after)) {hdr : Nat}
    (member : hdr ∈ freeWrites heap (segment.addr + 29)) :
    heap.heapStart ≤ hdr ∧ hdr + 29 ≤ heap.heapEnd := by
  have bounds := chain.bounds
  have mark := setFree_chain true chain
  have forward := combineForward_chain mark.chain rfl
  rw [freeWrites_eq, chain.headerOf_eq, combinedWrites, List.mem_append, List.mem_append,
    List.mem_singleton] at member
  rcases member with same | inForward | inBackward
  · rw [same]
    exact ⟨bounds.1, by omega⟩
  · have inside := mark.chain.header_inside (combineForwardWrites_header mark.chain inForward)
    rwa [mark.bounds.heapStart, mark.bounds.heapEnd] at inside
  · obtain ⟨head, tail, pushed, headEq, _, _⟩ :=
      push_head 29 { segment with free := true } after
    have chain' := forward.chain
    rw [pushed] at chain'
    have both := forward.bounds.trans mark.bounds
    have inside := chain'.header_inside
      (combineBackwardWrites_header chain' (by rw [headEq]; exact inBackward))
    rwa [both.heapStart, both.heapEnd] at inside

/-- A header and 16 bytes still fit behind `size` bytes. -/
def Room (size length : Nat) : Prop := size + 45 ≤ length ∧ length - size - 29 < 2 ^ 63

/-- `split` stores to the header after the segment, to the new one and to its own. -/
theorem splitWrites_mem {size : Nat} (chain : HeapChain heap (before ++ segment :: after))
    (less : size < segment.length) {hdr : Nat}
    (member : hdr ∈ splitWrites heap.mem segment.addr size) :
    Room size segment.length ∧
      (hdr = headAddr 0 after ∨ hdr = segment.addr + size + 29 ∨ hdr = segment.addr) := by
  have bounds := chain.bounds
  have endHigh := chain.endHigh
  have nextEq : next heap.mem segment.addr = headAddr 0 after :=
    header_next chain.header_eq
  have lengthEq : length heap.mem segment.addr = segment.length :=
    header_length chain.header_eq
  simp only [splitWrites, lengthEq, nextEq] at member
  split at member
  · simp at member
  split at member
  · simp at member
  have room : Room size segment.length := (splitSegLength_iff (by omega) less).mp (by omega)
  have newHdr : add64 (add64 segment.addr size) sizeofHeapSegHdr = segment.addr + size + 29 := by
    have enough := room.1
    rw [sizeofHeapSegHdr, add64_of_lt (show segment.addr + size < 2 ^ 64 by omega),
      add64_of_lt (by omega)]
  rw [newHdr] at member
  simp only [List.mem_cons, List.not_mem_nil, or_false] at member
  refine ⟨room, ?_⟩
  rcases member with relinked | new | this | new | new | new | this
  · exact Or.inl relinked
  · exact Or.inr (Or.inl new)
  · exact Or.inr (Or.inr this)
  · exact Or.inr (Or.inl new)
  · exact Or.inr (Or.inl new)
  · exact Or.inr (Or.inl new)
  · exact Or.inr (Or.inr this)

theorem splitWrites_inside {size : Nat} (chain : HeapChain heap (before ++ segment :: after))
    (less : size < segment.length) (kept : after = [] → ¬Room size segment.length) {hdr : Nat}
    (member : hdr ∈ splitWrites heap.mem segment.addr size) :
    heap.heapStart ≤ hdr ∧ hdr + 29 ≤ heap.heapEnd := by
  have bounds := chain.bounds
  obtain ⟨room, relinked | new | this⟩ := splitWrites_mem chain less member
  · cases after with
    | nil => exact absurd room (kept rfl)
    | cons second rest => exact chain.header_inside ⟨second, by simp, relinked⟩
  · have enough := room.1
    omega
  · omega

/-- The scan stores to the headers of the segment it takes. -/
theorem scanWrites_inside {size : Nat} :
    ∀ (after before : List Segment) (segment : Segment) (fuel : Nat),
      HeapChain heap (before ++ segment :: after) →
      (∀ skipped found, FirstFit size (segment :: after) skipped found [] →
        ¬Room size found.length) →
      ∀ hdr ∈ scanWrites fuel heap.mem size segment.addr,
        heap.heapStart ≤ hdr ∧ hdr + 29 ≤ heap.heapEnd := by
  intro after
  induction after with
  | nil =>
      intro before segment fuel chain kept hdr member
      have nextEq : next heap.mem segment.addr = 0 := header_next chain.header_eq
      have lengthEq : length heap.mem segment.addr = segment.length :=
        header_length chain.header_eq
      have freeEq : HeapSegHdr.free heap.mem segment.addr = segment.free :=
        header_free chain.header_eq
      cases fuel with
      | zero => simp [scanWrites] at member
      | succ fuel =>
          have own := chain.header_inside ⟨segment, by simp, rfl⟩
          simp only [scanWrites, lengthEq, freeEq, nextEq] at member
          split at member
          · rename_i longer
            rcases List.mem_append.mp member with split | this
            · refine splitWrites_inside chain longer.2 (fun _ => ?_) split
              exact kept [] segment ⟨rfl, by simp, longer.1, by omega⟩
            · rwa [List.mem_singleton.mp this]
          split at member
          · rwa [List.mem_singleton.mp member]
          · simp at member
  | cons second rest ih =>
      intro before segment fuel chain kept hdr member
      have nextEq : next heap.mem segment.addr = second.addr := header_next chain.header_eq
      have lengthEq : length heap.mem segment.addr = segment.length :=
        header_length chain.header_eq
      have freeEq : HeapSegHdr.free heap.mem segment.addr = segment.free :=
        header_free chain.header_eq
      cases fuel with
      | zero => simp [scanWrites] at member
      | succ fuel =>
          have own := chain.header_inside ⟨segment, by simp, rfl⟩
          simp only [scanWrites, lengthEq, freeEq, nextEq] at member
          split at member
          · rename_i longer
            rcases List.mem_append.mp member with split | this
            · exact splitWrites_inside chain longer.2 (by simp) split
            · rwa [List.mem_singleton.mp this]
          rename_i notLonger
          split at member
          · rwa [List.mem_singleton.mp member]
          rename_i notEqual
          split at member
          · simp at member
          have chain' : HeapChain heap ((before ++ [segment]) ++ second :: rest) := by
            simpa using chain
          refine ih (before ++ [segment]) second fuel chain' ?_ hdr member
          rintro skipped found ⟨split, unfit, fits⟩
          refine kept (segment :: skipped) found ⟨by rw [split, List.cons_append], ?_, fits⟩
          refine List.forall_mem_cons.mpr ⟨?_, unfit⟩
          rintro ⟨isFree, enough⟩
          rcases Nat.lt_or_eq_of_le enough with more | equal
          · exact notLonger ⟨isFree, more⟩
          · exact notEqual ⟨isFree, equal.symm⟩

theorem HeapInv.lastHdr_eq {front : List Segment} {previous : Segment}
    (inv : HeapInv heap (front ++ [previous])) : heap.lastHdr = previous.addr := by
  rw [inv.lastHdr, lastAddr_append]
  rfl

/-- The header appended at the end merges backward into at most the one before it. -/
theorem combineBackwardWrites_append {front : List Segment} {previous : Segment} {length : Nat}
    (inv : HeapInv heap (front ++ [previous])) {hdr : Nat} (lengthBound : length < 2 ^ 64)
    (member : hdr ∈ combineBackwardWrites
      (appendMem heap.mem heap.lastHdr heap.heapEnd length) heap.heapEnd) :
    hdr = previous.addr := by
  have startLow := inv.startLow
  have endHigh := inv.endHigh
  have bounds := inv.toHeapChain.bounds
  have lastEq := inv.lastHdr_eq
  have previousEnd : previous.addr + 29 + previous.length = heap.heapEnd :=
    (tiles_split inv.tiles).2
  have newHeader := appendMem_header_new heap.mem
    (show HeadersApart heap.heapEnd heap.lastHdr from Or.inr (by omega)) (by omega) lengthBound
  have previousHeader : header (appendMem heap.mem heap.lastHdr heap.heapEnd length) heap.lastHdr =
      { header heap.mem heap.lastHdr with next := heap.heapEnd } :=
    appendMem_header_last heap.mem (Or.inl (by omega)) (by omega)
  have lastField := header_last newHeader
  have nextField := header_next newHeader
  have previousNext := header_next previousHeader
  simp only at lastField nextField previousNext
  simp only [combineBackwardWrites, lastField] at member
  split at member
  · simp only [combineForwardWrites, previousNext, nextField, ne_eq, not_true_eq_false,
      if_false] at member
    split at member
    · simp at member
    · split at member
      · simp at member
      · simp only [List.mem_cons, List.not_mem_nil, or_false, or_self] at member
        rw [member, lastEq]
  · simp at member

theorem expandWrites_mem {front : List Segment} {previous : Segment} {size : Nat}
    (inv : HeapInv heap (front ++ [previous])) (positive : 0 < size)
    (bound : size ≤ 2 ^ 64 - 0x1000) {hdr : Nat} (member : hdr ∈ expandWrites heap size) :
    hdr = heap.heapEnd ∨ hdr = previous.addr := by
  obtain ⟨larger, whole, _⟩ := roundUp4096 positive bound
  have lengthEq : sub64 (roundUp size 0x1000) sizeofHeapSegHdr = roundUp size 0x1000 - 29 := by
    rw [sizeofHeapSegHdr, sub64_of_le (by omega) (by omega)]
  simp only [expandWrites, inv.endAligned, Nat.lt_irrefl, gt_iff_lt, if_false, lengthEq] at member
  rcases List.mem_append.mp member with direct | backward
  · simp only [inv.lastHdr_eq, List.mem_cons, List.not_mem_nil, or_false] at direct
    omega
  · exact Or.inr (combineBackwardWrites_append inv (by omega) backward)

theorem expandWrites_inside {front : List Segment} {previous : Segment} {size : Nat}
    (inv : HeapInv heap (front ++ [previous])) (positive : 0 < size)
    (bound : size ≤ 2 ^ 64 - 0x1000) (run : expandHeap mapPage heap size = .ok heap')
    (endHigh : heap'.heapEnd < 2 ^ 64) {hdr : Nat} (member : hdr ∈ expandWrites heap size) :
    heap'.heapStart ≤ hdr ∧ hdr + 29 ≤ heap'.heapEnd := by
  obtain ⟨larger, whole, _⟩ := roundUp4096 positive bound
  obtain ⟨grown, endEq⟩ := inv.grown positive bound run endHigh
  have startEq := grown.heapStart
  have bounds := inv.toHeapChain.bounds
  have written := expandWrites_mem inv positive bound member
  omega

/-! `malloc`. -/

/-- The length of the last segment once the heap has grown until `size` bytes fit. -/
def tailLength (size : Nat) (previous : Segment) : Nat :=
  let pages := roundUp size 0x1000
  if previous.free then previous.length + pages
  else if size + 29 ≤ pages then pages - 29
  else pages - 29 + pages

/-- Allocating `size` bytes, and growing for it if need be, does not cut the last segment. -/
structure LastKept (size : Nat) (segments : List Segment) : Prop where
  fitting : ∀ skipped found, FirstFit size segments skipped found [] → ¬Room size found.length
  growing : (∀ other ∈ segments, ¬Fits size other) →
    ∀ previous ∈ segments.getLast?, ¬Room size (tailLength size previous)

theorem LastKept.grown {front : List Segment} {previous : Segment} {size : Nat} (heapEnd : Nat)
    (kept : LastKept size (front ++ [previous])) (positive : 0 < size)
    (bound : size ≤ 2 ^ 64 - 0x1000)
    (unfit : ∀ other ∈ front ++ [previous], ¬Fits size other) :
    LastKept size (grownFront front previous ++ [grownLast heapEnd size previous]) := by
  obtain ⟨larger, whole, _⟩ := roundUp4096 positive bound
  have tail := kept.growing unfit previous (by simp)
  refine ⟨?_, ?_⟩
  · rintro skipped found ⟨split, _, fits⟩
    have same : grownLast heapEnd size previous = found :=
      List.singleton_inj.mp (List.append_inj_right' split rfl)
    have enough := fits.2
    rw [← same] at enough ⊢
    rw [tailLength] at tail
    rw [grownLast] at enough ⊢
    split at enough
    · rename_i isFree
      simp only [isFree, if_true] at tail ⊢
      exact tail
    · rename_i notFree
      simp only at enough
      have fitting : size + 29 ≤ roundUp size 0x1000 := by omega
      simp only [notFree, fitting, if_true] at tail ⊢
      exact tail
  · intro stillUnfit last member
    rw [List.getLast?_concat, Option.mem_some_iff] at member
    subst member
    have short := stillUnfit (grownLast heapEnd size previous) (by simp)
    have isFree := grownLast_free heapEnd size previous
    have less : (grownLast heapEnd size previous).length < size := by
      by_contra enough
      exact short ⟨isFree, by omega⟩
    rw [tailLength] at tail ⊢
    simp only [isFree, if_true]
    rw [grownLast] at less ⊢
    split at less
    · simp only at less
      omega
    · rename_i notFree
      simp only at less
      have tight : ¬size + 29 ≤ roundUp size 0x1000 := by omega
      simp only [notFree, tight, if_false] at tail ⊢
      exact tail

theorem mem_stamp {writes : List Nat} {write : HeaderWrite} :
    write ∈ stamp heap writes ↔
      ∃ hdr ∈ writes, write = { heapStart := heap.heapStart, heapEnd := heap.heapEnd, hdr := hdr } := by
  simp only [stamp, List.mem_map, eq_comm]

theorem mallocWrites_inside {need : Nat} (positive : 0 < need) (bound : need ≤ 2 ^ 64 - 0x1000)
    (multiple : need % 0x10 = 0) (fuel : Nat) {size : Nat} (rounded : roundUp size 0x10 = need)
    (inv : HeapInv heap segments) (kept : LastKept need segments)
    (noWrap : ∀ write ∈ mallocWrites mapPage fuel heap size, write.heapEnd < 2 ^ 64) :
    ∀ write ∈ mallocWrites mapPage fuel heap size, write.Inside := by
  induction fuel generalizing heap segments size with
  | zero => simp [mallocWrites]
  | succ fuel ih =>
      have nonzero : need ≠ 0 := by omega
      rw [mallocWrites] at noWrap ⊢
      simp only [rounded, nonzero, if_false] at noWrap ⊢
      obtain ⟨first, rest, split⟩ := List.exists_cons_of_ne_nil inv.nonempty
      have firstEq : first.addr = heap.heapStart := (split ▸ inv.tiles).1
      intro write member
      rcases List.mem_append.mp member with scanned | later
      · obtain ⟨hdr, inScan, rfl⟩ := mem_stamp.mp scanned
        rw [← firstEq] at inScan
        have chain : HeapChain heap ([] ++ first :: rest) := split ▸ inv.toHeapChain
        exact scanWrites_inside rest [] first fuel chain (split ▸ kept.fitting) hdr inScan
      cases scan : mallocScan fuel heap need heap.heapStart with
      | error fault => simp [scan] at later
      | ok result =>
          cases result with
          | some found => simp [scan] at later
          | none =>
              cases expansion : expandHeap mapPage heap need with
              | error fault => simp [scan, expansion] at later
              | ok expanded =>
                  simp only [scan, expansion] at later noWrap
                  obtain ⟨front, previous, rfl⟩ := inv.eq_concat
                  have unfit : ∀ other ∈ front ++ [previous], ¬Fits need other := by
                    rw [← firstEq] at scan
                    have chain : HeapChain heap ([] ++ first :: rest) := split ▸ inv.toHeapChain
                    rcases mallocScan_chain (by omega) rest [] first fuel _ chain scan with
                      ⟨_, none⟩ | ⟨_, _, _, _, _, _, _, impossible, _⟩
                    · rwa [split]
                    · simp at impossible
                  have endHigh : expanded.heapEnd < 2 ^ 64 :=
                    noWrap ⟨expanded.heapStart, expanded.heapEnd, heap.lastHdr⟩
                      (List.mem_append_right _ (List.mem_append_left _
                        (mem_stamp.mpr ⟨heap.lastHdr, by simp [expandWrites], rfl⟩)))
                  rcases List.mem_append.mp later with expanding | further
                  · obtain ⟨hdr, inExpand, rfl⟩ := mem_stamp.mp expanding
                    exact expandWrites_inside inv positive bound expansion endHigh inExpand
                  · obtain ⟨grown, _⟩ := inv.grown positive bound expansion endHigh
                    exact ih (roundUp_rounded multiple) grown.inv (kept.grown heap.heapEnd positive bound unfit)
                      (fun write member => noWrap write
                        (List.mem_append_right _ (List.mem_append_right _ member)))
                      write further

/-! Whole runs. -/

/-- The condition on a call of `malloc`. -/
def SparesLast (heap : Heap σ) (size : Nat) : Prop :=
  roundUp size 0x10 = 0 ∨ size ≤ 2 ^ 64 - 0x1000 ∧
    ∀ segments, HeapInv heap segments → LastKept (roundUp size 0x10) segments

/-- Runs of the heap with all header stores they make.  `Meets` is asked about every call
of `malloc`; a call that does not return ends the run. -/
inductive LoggedRun (mapPage : σ → Nat → Except Fault σ) (Meets : Heap σ → Nat → Prop) :
    Option (HeapSystem σ) → List HeaderWrite → Prop
  | init {heap heap' : Heap σ} {heapAddress pageCount : Nat} (nonzero : 0 < heapAddress)
      (aligned : heapAddress % 0x1000 = 0) (onePage : 1 ≤ pageCount)
      (noWrap : heapAddress + pageCount * 0x1000 < 2 ^ 64)
      (run : initHeap mapPage heap heapAddress pageCount = .ok heap') :
      LoggedRun mapPage Meets (some { heap := heap', live := [] })
        (stamp heap' [heapAddress, heapAddress, heapAddress, heapAddress])
  | malloc {system : HeapSystem σ} {log : List HeaderWrite} {fuel size pointer : Nat}
      {heap' : Heap σ} : LoggedRun mapPage Meets (some system) log → Meets system.heap size →
      malloc mapPage fuel system.heap size = .ok (pointer, heap') →
      LoggedRun mapPage Meets
        (some { heap := heap'
                live := if pointer = 0 then system.live
                  else { ptr := pointer, size := size } :: system.live })
        (log ++ mallocWrites mapPage fuel system.heap size)
  | halt {system : HeapSystem σ} {log : List HeaderWrite} {fuel size : Nat} {fault : Fault} :
      LoggedRun mapPage Meets (some system) log → Meets system.heap size →
      OkeOS.malloc mapPage fuel system.heap size = .error fault →
      LoggedRun mapPage Meets none (log ++ mallocWrites mapPage fuel system.heap size)
  | free {system : HeapSystem σ} {log : List HeaderWrite} {block : Block} :
      LoggedRun mapPage Meets (some system) log → block ∈ system.live →
      LoggedRun mapPage Meets
        (some { heap := OkeOS.free system.heap block.ptr, live := system.live.erase block })
        (log ++ stamp system.heap (freeWrites system.heap block.ptr))
  | sfree {system : HeapSystem σ} {log : List HeaderWrite} {block : Block} {size : Nat} :
      LoggedRun mapPage Meets (some system) log → block ∈ system.live →
      size ≤ length system.heap.mem (headerOf block.ptr) →
      LoggedRun mapPage Meets
        (some { heap := OkeOS.sfree system.heap block.ptr size, live := system.live.erase block })
        (log ++ stamp system.heap (freeWrites system.heap block.ptr))
  | write {system : HeapSystem σ} {log : List HeaderWrite} {block : Block} {address : Nat}
      (byte : UInt8) : LoggedRun mapPage Meets (some system) log → block ∈ system.live →
      block.Contains address →
      LoggedRun mapPage Meets
        (some { system with heap :=
          { system.heap with mem := writeByte system.heap.mem address byte } }) log

theorem SystemInv.freeWrites_inside {system : HeapSystem σ} (inv : SystemInv system segments)
    {block : Block} (live : block ∈ system.live) :
    ∀ write ∈ stamp system.heap (freeWrites system.heap block.ptr), write.Inside := by
  intro write member
  obtain ⟨hdr, inFree, rfl⟩ := mem_stamp.mp member
  obtain ⟨owner, ownerMem, _, ownerPtr, _⟩ := inv.owners block live
  obtain ⟨before, after, split⟩ := List.append_of_mem ownerMem
  rw [← ownerPtr] at inFree
  exact OkeOS.freeWrites_inside (split ▸ inv.inv.toHeapChain) inFree

/-- The end of the heap is stamped on a store of the call that moved it there. -/
theorem malloc_end_logged {fuel size pointer : Nat}
    (run : malloc mapPage fuel heap size = .ok (pointer, heap')) :
    heap'.heapEnd = heap.heapEnd ∨
      ∃ write ∈ mallocWrites mapPage fuel heap size, write.heapEnd = heap'.heapEnd := by
  induction fuel generalizing heap size with
  | zero => simp [malloc] at run
  | succ fuel ih =>
      rcases malloc_ok run with ⟨_, _, same⟩ | ⟨nonzero, outcome⟩
      · exact Or.inl (by rw [same])
      rcases outcome with scanned | ⟨none, expanded, grown, again⟩
      · exact Or.inl (mallocScan_bounds scanned).heapEnd
      · right
        rw [mallocWrites]
        simp only [nonzero, if_false, none, grown]
        rcases ih again with same | ⟨write, member, endEq⟩
        · exact ⟨⟨expanded.heapStart, expanded.heapEnd, heap.lastHdr⟩, List.mem_append_right _
            (List.mem_append_left _ (mem_stamp.mpr ⟨heap.lastHdr, by simp [expandWrites], rfl⟩)),
            same.symm⟩
        · exact ⟨write, List.mem_append_right _ (List.mem_append_right _ member), endEq⟩

theorem SystemInv.mallocWrites_inside {system : HeapSystem σ} (inv : SystemInv system segments)
    {fuel size : Nat} (spares : SparesLast system.heap size)
    (noWrap : ∀ write ∈ mallocWrites mapPage fuel system.heap size, write.heapEnd < 2 ^ 64) :
    ∀ write ∈ mallocWrites mapPage fuel system.heap size, write.Inside := by
  by_cases zero : roundUp size 0x10 = 0
  · cases fuel with
    | zero => simp [mallocWrites]
    | succ fuel => simp [mallocWrites, zero]
  · obtain ⟨bound, kept⟩ := spares.resolve_left zero
    obtain ⟨_, _, multiple, roundedBound⟩ := roundUp16 bound
    exact OkeOS.mallocWrites_inside (by omega) roundedBound multiple fuel rfl inv.inv
      (kept segments inv.inv) noWrap

theorem SystemInv.malloc {system : HeapSystem σ} (inv : SystemInv system segments)
    {fuel size pointer : Nat} (fine : roundUp size 0x10 = 0 ∨ size ≤ 2 ^ 64 - 0x1000)
    (run : malloc mapPage fuel system.heap size = .ok (pointer, heap'))
    (endHigh : heap'.heapEnd < 2 ^ 64) :
    ∃ segments', SystemInv { heap := heap', live := if pointer = 0 then system.live
      else { ptr := pointer, size := size } :: system.live } segments' := by
  rcases fine with zero | bound
  · cases fuel with
    | zero => simp [OkeOS.malloc] at run
    | succ fuel =>
        rcases malloc_ok run with ⟨_, rfl, rfl⟩ | ⟨nonzero, _⟩
        · exact ⟨segments, inv⟩
        · exact absurd zero nonzero
  · exact (inv.call (.malloc bound run) endHigh).1

/-- While no call of `malloc` cuts the last segment, every header store of a run lies in the
heap. -/
theorem loggedRun_inside {state : Option (HeapSystem σ)} {log : List HeaderWrite}
    (run : LoggedRun mapPage SparesLast state log)
    (noWrap : ∀ write ∈ log, write.heapEnd < 2 ^ 64) : ∀ write ∈ log, write.Inside := by
  suffices both : (∀ write ∈ log, write.Inside) ∧
      ∀ system ∈ state, system.heap.heapEnd < 2 ^ 64 ∧ ∃ segments, SystemInv system segments from
    both.1
  induction run with
  | @init heap heap' heapAddress pageCount nonzero aligned onePage below run =>
      have inv := SystemInv.init nonzero aligned onePage below run
      have isHeader : IsHeader [⟨heapAddress, pageCount * 0x1000 - 29, true⟩] heapAddress :=
        ⟨_, List.mem_singleton_self _, rfl⟩
      refine ⟨?_, ?_⟩
      · intro write member
        obtain ⟨hdr, inInit, rfl⟩ := mem_stamp.mp member
        simp only [List.mem_cons, List.not_mem_nil, or_false, or_self] at inInit
        rw [inInit]
        exact inv.inv.toHeapChain.header_inside isHeader
      · intro system same
        rw [← Option.mem_some_iff.mp same]
        exact ⟨inv.inv.endHigh, _, inv⟩
  | @malloc system log fuel size pointer heap' _ spares run ih =>
      obtain ⟨inside, invs⟩ := ih fun write member => noWrap write (List.mem_append_left _ member)
      obtain ⟨endHigh, segments, inv⟩ := invs system rfl
      have later (write : HeaderWrite) (member : write ∈ mallocWrites mapPage fuel system.heap size) :=
        noWrap write (List.mem_append_right _ member)
      refine ⟨List.forall_mem_append.mpr ⟨inside, inv.mallocWrites_inside spares later⟩, ?_⟩
      intro system' same
      rw [← Option.mem_some_iff.mp same]
      have endHigh' : heap'.heapEnd < 2 ^ 64 := by
        rcases malloc_end_logged run with unchanged | ⟨write, member, endEq⟩
        · rwa [unchanged]
        · rw [← endEq]
          exact later write member
      exact ⟨endHigh', inv.malloc (spares.imp_right And.left) run endHigh'⟩
  | @halt system log fuel size fault _ spares run ih =>
      obtain ⟨inside, invs⟩ := ih fun write member => noWrap write (List.mem_append_left _ member)
      obtain ⟨endHigh, segments, inv⟩ := invs system rfl
      exact ⟨List.forall_mem_append.mpr ⟨inside, inv.mallocWrites_inside spares
        fun write member => noWrap write (List.mem_append_right _ member)⟩, by simp⟩
  | @free system log block _ live ih =>
      obtain ⟨inside, invs⟩ := ih fun write member => noWrap write (List.mem_append_left _ member)
      obtain ⟨endHigh, segments, inv⟩ := invs system rfl
      refine ⟨List.forall_mem_append.mpr ⟨inside, inv.freeWrites_inside live⟩, ?_⟩
      intro system' same
      rw [← Option.mem_some_iff.mp same]
      have endHigh' : (OkeOS.free system.heap block.ptr).heapEnd < 2 ^ 64 := by
        rwa [(free_bounds _ _).heapEnd]
      exact ⟨endHigh', (inv.call (HeapCall.free live : HeapCall mapPage system _) endHigh').1⟩
  | @sfree system log block size _ live bound ih =>
      obtain ⟨inside, invs⟩ := ih fun write member => noWrap write (List.mem_append_left _ member)
      obtain ⟨endHigh, segments, inv⟩ := invs system rfl
      refine ⟨List.forall_mem_append.mpr ⟨inside, inv.freeWrites_inside live⟩, ?_⟩
      intro system' same
      rw [← Option.mem_some_iff.mp same]
      have endHigh' : (OkeOS.sfree system.heap block.ptr size).heapEnd < 2 ^ 64 := by
        rwa [(sfree_bounds _ _ _).heapEnd]
      exact ⟨endHigh', (inv.call (HeapCall.sfree live bound : HeapCall mapPage system _) endHigh').1⟩
  | @write system log block address byte _ live contains ih =>
      obtain ⟨inside, invs⟩ := ih noWrap
      obtain ⟨endHigh, segments, inv⟩ := invs system rfl
      refine ⟨inside, ?_⟩
      intro system' same
      rw [← Option.mem_some_iff.mp same]
      exact ⟨endHigh, segments, inv.write byte live contains⟩

end

/-! Closed instances. -/

/-- One page of heap, and what the first call of `malloc` stores to. -/
def firstMalloc (size : Nat) : Except Fault (Nat × List HeaderWrite) := do
  let heap ← initHeap mapAny emptyHeap 0x800000 1
  let (pointer, _) ← malloc mapAny 2 heap size
  return (pointer, mallocWrites mapAny 2 heap size)

theorem firstMalloc_ok {size pointer : Nat} {log : List HeaderWrite}
    (evaluated : firstMalloc size = .ok (pointer, log)) :
    ∃ heap heap', initHeap mapAny emptyHeap 0x800000 1 = .ok heap ∧
      malloc mapAny 2 heap size = .ok (pointer, heap') ∧ mallocWrites mapAny 2 heap size = log ∧
      HeapInv heap [{ addr := 0x800000, length := 4067, free := true }] ∧
      heap.heapStart = 0x800000 ∧ heap.heapEnd = 0x801000 := by
  obtain ⟨heap, boot, rest⟩ := Fault.peel evaluated
  obtain ⟨⟨taken, heap'⟩, called, result⟩ := Fault.peel rest
  simp only [Pure.pure, Except.pure, Except.ok.injEq, Prod.mk.injEq] at result
  obtain ⟨rfl, rfl⟩ := result
  have inv := initHeap_inv (by decide) (by decide) (by decide) (by decide) boot
  have startEq : 0x800000 = heap.heapStart := inv.tiles.1
  have endEq : heap.heapStart + 29 + 4067 = heap.heapEnd := inv.tiles.2
  exact ⟨heap, heap', boot, called, rfl, inv, startEq.symm, by omega⟩

theorem loggedRun_inside_wholePage :
    ∃ state log, LoggedRun mapAny SparesLast state log ∧ (∀ write ∈ log, write.Inside) ∧
      { heapStart := 0x800000, heapEnd := 0x801000, hdr := 0x800000 } ∈ log := by
  have evaluated : firstMalloc 4064 = .ok (0x80001d, [⟨0x800000, 0x801000, 0x800000⟩]) := by
    decide +kernel
  obtain ⟨heap, heap', boot, called, logged, inv, startEq, endEq⟩ := firstMalloc_ok evaluated
  have spares : SparesLast heap 4064 := by
    refine Or.inr ⟨by decide, fun segments other => ?_⟩
    rw [other.unique inv]
    have fits : Fits (roundUp 4064 0x10) { addr := 0x800000, length := 4067, free := true } := by
      decide
    refine ⟨?_, fun unfit => absurd fits (unfit _ (by simp))⟩
    rintro skipped found ⟨split, _, _⟩
    have short : found.length = 4067 := by
      have same := List.append_inj_right' ((List.nil_append _).trans split) rfl
      rw [← List.singleton_inj.mp same]
    rw [short]
    rintro ⟨room, _⟩
    exact absurd room (by decide)
  have run := (LoggedRun.init (by decide) (by decide) (by decide) (by decide) boot :
    LoggedRun mapAny SparesLast _ _).malloc spares called
  refine ⟨_, _, run, loggedRun_inside run ?_, ?_⟩
  · rw [logged]
    intro write member
    simp only [stamp, startEq, endEq, List.map_cons, List.map_nil, List.cons_append, List.nil_append,
      List.mem_cons, List.not_mem_nil, or_false, or_self] at member
    rw [member]
    decide
  · rw [logged]
    simp

/-- The first allocation in a fresh heap stores to the header at `NULL`. -/
theorem loggedRun_firstMalloc :
    ∃ state log, LoggedRun mapAny (fun _ _ => True) state log ∧
      (∀ write ∈ log, write.heapEnd < 2 ^ 64) ∧ ∃ write ∈ log, write.hdr = 0 ∧ ¬write.Inside := by
  have evaluated : firstMalloc 16 = .ok (0x80001d, [0, 0x80002d, 0x800000, 0x80002d, 0x80002d,
      0x80002d, 0x800000, 0x800000].map (HeaderWrite.mk 0x800000 0x801000)) := by
    decide +kernel
  obtain ⟨heap, heap', boot, called, logged, inv, startEq, endEq⟩ := firstMalloc_ok evaluated
  have run := (LoggedRun.init (by decide) (by decide) (by decide) (by decide) boot :
    LoggedRun mapAny (fun _ _ => True) _ _).malloc trivial called
  refine ⟨_, _, run, ?_, ⟨0x800000, 0x801000, 0⟩, ?_, rfl, by rintro ⟨lower, _⟩; simp at lower⟩
  · rw [logged]
    intro write member
    rcases List.mem_append.mp member with booted | allocated
    · obtain ⟨_, _, rfl⟩ := mem_stamp.mp booted
      simp only [endEq]
      decide
    · obtain ⟨_, _, rfl⟩ := List.mem_map.mp allocated
      exact (by decide : 0x801000 < 2 ^ 64)
  · rw [logged]
    exact List.mem_append_right _ (by simp)

end OkeOS
