import OkeOS.HeapChain

/-!
One lemma for each operation on the chain: what `combineForward`, `combineBackward`,
`free`, `split` and `mallocScan` do to the list of segments, and which bytes they
leave alone.
-/

namespace OkeOS

open ByteMemory Tiling
open HeapSegHdr hiding free

/-- `second` is `first` with its chain rewritten to `segments'`; only header bytes of
`segments` have changed. -/
structure Rechained {σ : Type} (first : Heap σ) (segments : List Segment)
    (second : Heap σ) (segments' : List Segment) : Prop where
  chain : HeapChain second segments'
  bounds : SameBounds second first
  frame : ∀ address, ¬InHeader segments address → second.mem address = first.mem address

section

variable {σ : Type} {heap : Heap σ}

theorem Rechained.refl {segments : List Segment} (chain : HeapChain heap segments) :
    Rechained heap segments heap segments :=
  ⟨chain, SameBounds.refl heap, fun _ _ => rfl⟩

theorem Rechained.trans {second third : Heap σ} {segments segments' segments'' : List Segment}
    (left : Rechained heap segments second segments')
    (right : Rechained second segments' third segments'')
    (headers : ∀ address, InHeader segments' address → InHeader segments address) :
    Rechained heap segments third segments'' := by
  refine ⟨right.chain, right.bounds.trans left.bounds, ?_⟩
  intro address outside
  rw [right.frame address fun inside => outside (headers address inside),
    left.frame address outside]

theorem combineForward_bounds (heap : Heap σ) (this : Nat) :
    SameBounds (combineForward heap this) heap := by
  simp only [combineForward]
  split
  · exact SameBounds.refl heap
  · split
    · exact SameBounds.refl heap
    · exact ⟨rfl, rfl, rfl⟩

theorem combineBackward_bounds (heap : Heap σ) (this : Nat) :
    SameBounds (combineBackward heap this) heap := by
  simp only [combineBackward]
  split
  · exact combineForward_bounds heap _
  · exact SameBounds.refl heap

theorem inHeader_push {before after : List Segment} {segment : Segment} {address : Nat}
    (inside : InHeader (before ++ push 29 segment after) address) :
    InHeader (before ++ segment :: after) address := by
  obtain ⟨owner, member, lower, upper⟩ := inside
  rcases List.mem_append.mp member with earlier | pushed
  · exact ⟨owner, by simp [earlier], lower, upper⟩
  · cases after with
    | nil =>
        rw [push, List.mem_singleton] at pushed
        exact ⟨segment, by simp, by rwa [← pushed], by rwa [← pushed]⟩
    | cons next rest =>
        rw [push] at pushed
        split at pushed
        · rcases List.mem_cons.mp pushed with merged | later
          · subst merged
            exact ⟨segment, by simp, lower, upper⟩
          · exact ⟨owner, by simp [later], lower, upper⟩
        · exact ⟨owner, List.mem_append_right _ pushed, lower, upper⟩

/-! `combineForward`: the segment takes over the length and the successor of the next one. -/

/-- Write `prev` to the `last` field of the header at `target`, unless that is `NULL`. -/
def relink (mem : Memory) (target prev : Nat) : Memory :=
  if target ≠ 0 then setLast mem target prev else mem

theorem relink_header_apart (mem : Memory) {target other : Nat} (prev : Nat)
    (apart : target ≠ 0 → HeadersApart other target) :
    header (relink mem target prev) other = header mem other := by
  unfold relink
  split
  · rename_i nonzero
    exact header_setLast_apart _ _ _ (apart nonzero)
  · rfl

/-- The memory after `combineForward` has merged the segment after `this` into it. -/
def joined (mem : Memory) (this target length : Nat) : Memory :=
  setNext (setLength (relink mem target this) this length) this target

theorem joined_header_this (mem : Memory) {this target length : Nat}
    (apart : target ≠ 0 → HeadersApart this target)
    (lengthBound : length < 2 ^ 64) (targetBound : target < 2 ^ 64) :
    header (joined mem this target length) this =
      { header mem this with length := length, next := target } := by
  rw [joined, header_setNext _ _ targetBound, header_setLength _ _ lengthBound,
    relink_header_apart _ _ apart]

theorem joined_header_apart (mem : Memory) {this target length other : Nat}
    (apart : HeadersApart other this) :
    header (joined mem this target length) other = header (relink mem target this) other := by
  rw [joined, header_setNext_apart _ _ _ apart, header_setLength_apart _ _ _ apart]

theorem joined_outside (mem : Memory) {this target length address : Nat}
    (outside : address < this ∨ this + 29 ≤ address)
    (outsideTarget : target ≠ 0 → address < target ∨ target + 29 ≤ address) :
    joined mem this target length address = mem address := by
  rw [joined, setNext_outside _ _ _ outside, setLength_outside _ _ _ outside, relink]
  split
  · rename_i nonzero
    exact setLast_outside _ _ _ (outsideTarget nonzero)
  · rfl

/-- The new length is a sum of 64-bit words. -/
theorem combineForward_joined {this second target first length : Nat}
    (nextEq : next heap.mem this = second) (secondFree : HeapSegHdr.free heap.mem second = true)
    (targetEq : next heap.mem second = target)
    (firstEq : HeapSegHdr.length heap.mem this = first)
    (lengthEq : HeapSegHdr.length heap.mem second = length)
    (nonzero : second ≠ 0) (thisApart : HeadersApart second this)
    (targetApart : target ≠ 0 → HeadersApart this target ∧ HeadersApart second target) :
    combineForward heap this =
      { heap with
        mem := joined heap.mem this target (add64 (add64 first length) sizeofHeapSegHdr)
        lastHdr := if second = heap.lastHdr then this else heap.lastHdr } := by
  have thisHeader := relink_header_apart heap.mem this
    fun nonempty => (targetApart nonempty).1
  have secondHeader := relink_header_apart heap.mem this
    fun nonempty => (targetApart nonempty).2
  have thisLength : HeapSegHdr.length (relink heap.mem target this) this = first :=
    (header_length thisHeader).trans firstEq
  have secondLength : HeapSegHdr.length (relink heap.mem target this) second = length :=
    (header_length secondHeader).trans lengthEq
  have secondNext (value : Nat) :
      next (setLength (relink heap.mem target this) this value) second = target :=
    (header_next ((header_setLength_apart _ _ _ thisApart).trans secondHeader)).trans
      targetEq
  simp only [combineForward, nextEq, targetEq, nonzero, secondFree, ↓reduceIte,
    Bool.true_eq_false]
  change Heap.mk (setNext (setLength (relink heap.mem target this) _ _) _ _) _ _ _ _ = _
  rw [← relink, thisLength, secondLength, secondNext, joined]

theorem combineForward_eq {this second target first length : Nat}
    (nextEq : next heap.mem this = second) (secondFree : HeapSegHdr.free heap.mem second = true)
    (targetEq : next heap.mem second = target)
    (firstEq : HeapSegHdr.length heap.mem this = first)
    (lengthEq : HeapSegHdr.length heap.mem second = length)
    (nonzero : second ≠ 0) (bound : first + length + 29 < 2 ^ 64)
    (thisApart : HeadersApart second this)
    (targetApart : target ≠ 0 → HeadersApart this target ∧ HeadersApart second target) :
    combineForward heap this =
      { heap with
        mem := joined heap.mem this target (first + length + 29)
        lastHdr := if second = heap.lastHdr then this else heap.lastHdr } := by
  have sum : add64 (add64 first length) sizeofHeapSegHdr = first + length + 29 := by
    rw [sizeofHeapSegHdr, add64_of_lt (show first + length < 2 ^ 64 by omega),
      add64_of_lt bound]
  rw [← sum]
  exact combineForward_joined nextEq secondFree targetEq firstEq lengthEq nonzero thisApart
    targetApart

/-- Redirecting the `last` field of the first segment relinks the whole list. -/
theorem linked_relink {mem : Memory} {prev start stop : Nat} (prev' : Nat) {segments : List Segment}
    (linked : Linked mem prev segments 0) (tiles : Tiles 29 start segments stop)
    (positive : 0 < start) (bound : prev' < 2 ^ 64) :
    Linked (relink mem (headAddr 0 segments) prev') prev' segments 0 := by
  cases segments with
  | nil => trivial
  | cons first rest =>
      have startEq := tiles.1
      have nonzero : first.addr ≠ 0 := by omega
      rw [headAddr, relink, if_pos nonzero]
      refine ⟨?_, ?_⟩
      · rw [header_setLast _ _ bound, linked.1]
      · apply linked_frame linked.2
        intro other member
        have later := (tiles_mem tiles.2 member).1
        exact header_setLast_apart _ _ _ (Or.inr (by omega))

theorem headAddr_bounds {start stop : Nat} {segments : List Segment}
    (tiles : Tiles 29 start segments stop) (nonempty : headAddr 0 segments ≠ 0) :
    headAddr 0 segments = start ∧ start + 29 ≤ stop := by
  cases segments with
  | nil => exact absurd rfl nonempty
  | cons first rest =>
      have bounds := (tiles_mem tiles (by simp : first ∈ first :: rest)).2
      have startEq := tiles.1
      exact ⟨startEq, by omega⟩

theorem lastAddr_mem (start : Nat) {segments : List Segment} (nonempty : segments ≠ []) :
    ∃ segment ∈ segments, lastAddr start segments = segment.addr := by
  induction segments generalizing start with
  | nil => exact absurd rfl nonempty
  | cons first rest ih =>
      cases rest with
      | nil => exact ⟨first, by simp, rfl⟩
      | cons second others =>
          obtain ⟨segment, member, same⟩ := ih first.addr (by simp)
          exact ⟨segment, by simp [member], same⟩

theorem combineForward_chain {before after : List Segment} {segment : Segment}
    (chain : HeapChain heap (before ++ segment :: after)) (isFree : segment.free = true) :
    Rechained heap (before ++ segment :: after) (combineForward heap segment.addr)
      (before ++ push 29 segment after) := by
  have segmentHeader := chain.header_eq
  have nextEq : next heap.mem segment.addr = headAddr 0 after :=
    header_next segmentHeader
  cases after with
  | nil =>
      have nothing : combineForward heap segment.addr = heap := by
        simp [combineForward, nextEq, headAddr]
      rw [nothing]
      exact Rechained.refl chain
  | cons second rest =>
      have startLow := chain.startLow
      have endHigh := chain.endHigh
      have segmentBounds := chain.bounds
      obtain ⟨front, secondEq, restTiles⟩ := tiles_split chain.tiles
      have restStart := tiles_le restTiles
      have secondHeader : header heap.mem second.addr = _ := chain.linked_after.1
      have secondFree : HeapSegHdr.free heap.mem second.addr = second.free :=
        header_free secondHeader
      by_cases bothFree : second.free = true
      · have target := headAddr_bounds restTiles
        have secondNext : next heap.mem second.addr = headAddr 0 rest :=
          header_next secondHeader
        have segmentLength : length heap.mem segment.addr = segment.length :=
          header_length segmentHeader
        have secondLength : length heap.mem second.addr = second.length :=
          header_length secondHeader
        have merged : push 29 segment (second :: rest) = merge 29 segment second :: rest := by
          simp [push, isFree, bothFree]
        have segmentNext : next heap.mem segment.addr = second.addr := nextEq
        have forward := combineForward_eq segmentNext
          (secondFree.trans bothFree) secondNext segmentLength secondLength
          (by omega) (by omega) (Or.inr (by omega))
          (fun nonempty => by
            have bounds := target nonempty
            exact ⟨Or.inl (by omega), Or.inl (by omega)⟩)
        rw [forward, merged]
        refine ⟨⟨?_, ?_, ?_, startLow, endHigh⟩, ⟨rfl, rfl, rfl⟩, ?_⟩
        · refine linked_append.mpr ⟨?_, ?_, ?_⟩
          · apply linked_frame chain.linked_before
            intro other member
            have earlier := (tiles_mem front member).2
            rw [joined_header_apart _ (Or.inl (by omega))]
            exact relink_header_apart _ _ fun nonempty =>
              Or.inl (by have := target nonempty; omega)
          · have targetBound : headAddr 0 rest < 2 ^ 64 := by
              by_cases empty : headAddr 0 rest = 0
              · omega
              · have bounds := target empty
                omega
            refine (joined_header_this heap.mem
              (fun nonempty => Or.inl (by have := target nonempty; omega)) (by omega)
              targetBound).trans ?_
            rw [segmentHeader]
            rfl
          · have relinked := linked_relink segment.addr chain.linked_after.2 restTiles
              (by omega) (by omega)
            apply linked_frame relinked
            intro other member
            have later := (tiles_mem restTiles member).1
            exact joined_header_apart _ (Or.inr (by omega))
        · have whole : Tiles 29 segment.addr (segment :: second :: rest) heap.heapEnd :=
            ⟨rfl, secondEq, restTiles⟩
          have pushed := push_tiles whole
          rw [merged] at pushed
          exact tiles_append.mpr ⟨_, front, pushed⟩
        · have lastEq := chain.lastHdr
          rw [lastAddr_append] at lastEq ⊢
          simp only [lastAddr] at lastEq
          simp only [lastAddr, merge, lastEq]
          by_cases empty : rest = []
          · simp [empty, lastAddr]
          · obtain ⟨final, member, same⟩ := lastAddr_mem second.addr empty
            have later := (tiles_mem restTiles member).1
            have different : second.addr ≠ lastAddr second.addr rest := by omega
            rw [if_neg different]
            cases rest with
            | nil => exact absurd rfl empty
            | cons third others => rfl
        · intro address outside
          have outsideOf : ∀ owner ∈ before ++ segment :: second :: rest,
              address < owner.addr ∨ owner.addr + 29 ≤ address := by
            intro owner member
            by_contra inside
            exact outside ⟨owner, member, by omega, by omega⟩
          apply joined_outside
          · exact outsideOf segment (by simp)
          · intro nonempty
            cases rest with
            | nil => exact absurd rfl nonempty
            | cons third others => exact outsideOf third (by simp)
      · have nothing : combineForward heap segment.addr = heap := by
          simp only [combineForward, nextEq, headAddr, secondFree]
          split
          · rfl
          · rw [if_pos (by simpa using bothFree)]
        rw [nothing, push, if_neg (by simp [bothFree])]
        exact Rechained.refl chain

theorem combineBackward_chain_nil {after : List Segment} {segment : Segment}
    (chain : HeapChain heap (segment :: after)) :
    combineBackward heap segment.addr = heap := by
  have lastEq : last heap.mem segment.addr = 0 := header_last chain.linked.1
  simp [combineBackward, lastEq]

theorem combineBackward_chain {front after : List Segment} {previous segment : Segment}
    (chain : HeapChain heap (front ++ previous :: segment :: after)) :
    Rechained heap (front ++ previous :: segment :: after) (combineBackward heap segment.addr)
      (front ++ push 29 previous (segment :: after)) := by
  have startLow := chain.startLow
  have bounds := chain.bounds
  have lastEq : last heap.mem segment.addr = previous.addr :=
    header_last chain.linked_after.1
  have previousFree : HeapSegHdr.free heap.mem previous.addr = previous.free :=
    header_free chain.header_eq
  have nonzero : previous.addr ≠ 0 := by omega
  by_cases isFree : previous.free = true
  · have backward : combineBackward heap segment.addr = combineForward heap previous.addr := by
      simp [combineBackward, lastEq, previousFree, isFree, nonzero]
    rw [backward]
    exact combineForward_chain chain isFree
  · have nothing : combineBackward heap segment.addr = heap := by
      simp [combineBackward, lastEq, previousFree, isFree]
    rw [nothing, push, if_neg (by simp [isFree])]
    exact Rechained.refl chain

theorem setFree_chain {before after : List Segment} {segment : Segment} (value : Bool)
    (chain : HeapChain heap (before ++ segment :: after)) :
    Rechained heap (before ++ segment :: after)
      { heap with mem := setFree heap.mem segment.addr value }
      (before ++ { segment with free := value } :: after) := by
  obtain ⟨front, back⟩ := tiles_split chain.tiles
  refine ⟨⟨?_, ?_, ?_, chain.startLow, chain.endHigh⟩, ⟨rfl, rfl, rfl⟩, ?_⟩
  · refine linked_append.mpr ⟨?_, ?_, ?_⟩
    · apply linked_frame chain.linked_before
      intro other member
      exact header_setFree_apart _ _ _ (chain.before_apart member (Nat.le_refl _))
    · exact (header_setFree _ _ _).trans (by rw [chain.header_eq])
    · apply linked_frame chain.linked_after
      intro other member
      exact header_setFree_apart _ _ _ (chain.after_apart member (by omega))
  · exact tiles_append.mpr ⟨_, front, rfl, back⟩
  · have lastEq := chain.lastHdr
    rw [lastAddr_append] at lastEq ⊢
    exact lastEq
  · intro address outside
    apply setFree_outside
    by_contra inside
    exact outside ⟨segment, by simp, by omega, by omega⟩

/-- In a tiling only the chosen segment has the chosen address. -/
theorem markFree_split {start stop : Nat} {before after : List Segment} {segment : Segment}
    (tiles : Tiles 29 start (before ++ segment :: after) stop) :
    markFree segment.addr (before ++ segment :: after) =
      before ++ { segment with free := true } :: after := by
  obtain ⟨front, back⟩ := tiles_split tiles
  have keep (others : List Segment) (different : ∀ other ∈ others, other.addr ≠ segment.addr) :
      markFree segment.addr others = others := by
    have pointwise := List.map_congr_left fun other member => markOne_of_ne (different other member)
    exact pointwise.trans (List.map_id' others)
  have marked : markOne segment.addr segment = { segment with free := true } := by
    simp [markOne]
  have beforeKeep := keep before fun other member => by
    have bound := (tiles_mem front member).2
    omega
  have afterKeep := keep after fun other member => by
    have bound := (tiles_mem back member).1
    omega
  unfold markFree at beforeKeep afterKeep ⊢
  rw [List.map_append, List.map_cons, marked, beforeKeep, afterKeep]

theorem HeapChain.headerOf_eq {before after : List Segment} {segment : Segment}
    (chain : HeapChain heap (before ++ segment :: after)) :
    headerOf (segment.addr + 29) = segment.addr := by
  have bounds := chain.bounds
  have endHigh := chain.endHigh
  rw [headerOf, sizeofHeapSegHdr, sub64_of_le (by omega) (by omega)]
  omega

/-- Freeing an allocated segment releases it in the list of segments. -/
theorem free_chain {before after : List Segment} {segment : Segment}
    (chain : HeapChain heap (before ++ segment :: after))
    (noPair : NoFreePair (before ++ segment :: after)) :
    Rechained heap (before ++ segment :: after) (free heap (segment.addr + 29))
      (release 29 (before ++ segment :: after) segment.addr) := by
  have marked := setFree_chain true chain
  have forward := combineForward_chain marked.chain rfl
  have afterCanonical : coalesce 29 after = after :=
    coalesce_of_noFreePair _ (List.isChain_append.mp noPair).2.1.tail
  have sameHeaders {address : Nat}
      (inside : InHeader (before ++ push 29 { segment with free := true } after) address) :
      InHeader (before ++ segment :: after) address := by
    obtain ⟨owner, member, lower, upper⟩ := inHeader_push inside
    simp only [List.mem_append, List.mem_cons] at member
    rcases member with earlier | same | later
    · exact ⟨owner, by simp [earlier], lower, upper⟩
    · exact ⟨segment, by simp, by rwa [same] at lower, by rwa [same] at upper⟩
    · exact ⟨owner, by simp [later], lower, upper⟩
  have merged := marked.trans forward (by
    rintro address ⟨owner, member, lower, upper⟩
    simp only [List.mem_append, List.mem_cons] at member
    rcases member with earlier | same | later
    · exact ⟨owner, by simp [earlier], lower, upper⟩
    · exact ⟨segment, by simp, by rwa [same] at lower, by rwa [same] at upper⟩
    · exact ⟨owner, by simp [later], lower, upper⟩)
  obtain ⟨head, tail, pushed, headAddrEq, _, _⟩ :=
    push_head 29 { segment with free := true } after
  unfold free
  simp only [chain.headerOf_eq]
  rw [release, markFree_split chain.tiles]
  rcases List.eq_nil_or_concat before with empty | ⟨front, previous, split⟩
  · subst empty
    simp only [List.nil_append, pushed] at merged ⊢
    have nothing := combineBackward_chain_nil merged.chain
    rw [headAddrEq] at nothing
    rw [nothing, coalesce, afterCanonical, pushed]
    exact merged
  · subst split
    simp only [List.concat_eq_append, List.append_assoc, List.singleton_append] at *
    rw [pushed] at merged sameHeaders
    have backward := combineBackward_chain merged.chain
    rw [headAddrEq] at backward
    have frontPair : NoFreePair (front ++ [previous]) := by
      have whole : front ++ previous :: segment :: after =
          (front ++ [previous]) ++ segment :: after := by simp
      rw [whole] at noPair
      exact (List.isChain_append.mp noPair).1
    rw [coalesce_append_cons frontPair, coalesce, coalesce, afterCanonical, pushed]
    exact merged.trans backward fun address inside => sameHeaders inside

/-! `split`: a new header is written into the payload of a free segment. -/

/-- The memory after `split` has cut the segment at `this` in front of `newHdr`. -/
def splitMem (mem : Memory) (this newHdr target size rest : Nat) (isFree : Bool) : Memory :=
  let mem := setLast mem target newHdr
  let mem := setNext mem newHdr target
  let mem := setNext mem this newHdr
  let mem := setLast mem newHdr this
  let mem := setLength mem newHdr rest
  let mem := setFree mem newHdr isFree
  setLength mem this size

section SplitMem

variable (mem : Memory) {this newHdr target size rest : Nat} {isFree : Bool}

theorem splitMem_header_new (apart : HeadersApart newHdr this)
    (thisBound : this < 2 ^ 64) (targetBound : target < 2 ^ 64) (restBound : rest < 2 ^ 64) :
    header (splitMem mem this newHdr target size rest isFree) newHdr =
      { length := rest, next := target, last := this, free := isFree } := by
  rw [splitMem, header_setLength_apart _ _ _ apart, header_setFree, header_setLength _ _ restBound,
    header_setLast _ _ thisBound, header_setNext_apart _ _ _ apart, header_setNext _ _ targetBound]

theorem splitMem_header_this (apart : HeadersApart this newHdr) (apartTarget : HeadersApart this target)
    (sizeBound : size < 2 ^ 64) (newBound : newHdr < 2 ^ 64) :
    header (splitMem mem this newHdr target size rest isFree) this =
      { header mem this with length := size, next := newHdr } := by
  rw [splitMem, header_setLength _ _ sizeBound, header_setFree_apart _ _ _ apart,
    header_setLength_apart _ _ _ apart, header_setLast_apart _ _ _ apart,
    header_setNext _ _ newBound, header_setNext_apart _ _ _ apart,
    header_setLast_apart _ _ _ apartTarget]

theorem splitMem_header_apart {other : Nat} (apart : HeadersApart other newHdr)
    (apartThis : HeadersApart other this) :
    header (splitMem mem this newHdr target size rest isFree) other =
      header (setLast mem target newHdr) other := by
  rw [splitMem, header_setLength_apart _ _ _ apartThis, header_setFree_apart _ _ _ apart,
    header_setLength_apart _ _ _ apart, header_setLast_apart _ _ _ apart,
    header_setNext_apart _ _ _ apartThis, header_setNext_apart _ _ _ apart]

theorem splitMem_outside {address : Nat} (outside : address < this ∨ this + 29 ≤ address)
    (outsideNew : address < newHdr ∨ newHdr + 29 ≤ address)
    (outsideTarget : address < target ∨ target + 29 ≤ address) :
    splitMem mem this newHdr target size rest isFree address = mem address := by
  rw [splitMem, setLength_outside _ _ _ outside, setFree_outside _ _ _ outsideNew,
    setLength_outside _ _ _ outsideNew, setLast_outside _ _ _ outsideNew,
    setNext_outside _ _ _ outside, setNext_outside _ _ _ outsideNew,
    setLast_outside _ _ _ outsideTarget]

end SplitMem

/-- The rest that `split` would leave, computed as in the code, is at least `0x10`
exactly when a header and 16 bytes still fit behind `size`. -/
theorem splitSegLength_iff {length size : Nat} (lengthBound : length < 2 ^ 64)
    (less : size < length) :
    0x10 ≤ toInt64 (sub64 (sub64 length size) sizeofHeapSegHdr) ↔
      size + 45 ≤ length ∧ length - size - 29 < 2 ^ 63 := by
  rw [sub64_of_le (by omega) lengthBound, sizeofHeapSegHdr]
  by_cases room : 29 ≤ length - size
  · rw [sub64_of_le room (by omega), toInt64]
    split <;> omega
  · have wrapped : sub64 (length - size) 29 = length - size + 2 ^ 64 - 29 := by
      rw [sub64, Nat.mod_eq_of_lt (by omega)]
    rw [wrapped, toInt64, if_neg (by omega)]
    omega

theorem split_eq {this size length : Nat} (sizeLow : 0x10 ≤ size) (less : size < length)
    (lengthEq : HeapSegHdr.length heap.mem this = length)
    (room : size + 45 ≤ length ∧ length - size - 29 < 2 ^ 63)
    (bound : this + 29 + length < 2 ^ 64)
    (apartTarget : HeadersApart this (next heap.mem this)) :
    split heap this size =
      (this + size + 29,
        { heap with
          mem := splitMem heap.mem this (this + size + 29) (next heap.mem this) size
            (length - size - 29) (HeapSegHdr.free heap.mem this)
          lastHdr := if heap.lastHdr = this then this + size + 29 else heap.lastHdr }) := by
  have newHdr : add64 (add64 this size) sizeofHeapSegHdr = this + size + 29 := by
    rw [sizeofHeapSegHdr, add64_of_lt (show this + size < 2 ^ 64 by omega),
      add64_of_lt (by omega)]
  have longEnough := (splitSegLength_iff (by omega) less).mpr room
  have restEq : (toInt64 (sub64 (sub64 length size) sizeofHeapSegHdr)).toNat =
      length - size - 29 := by
    rw [sizeofHeapSegHdr, sub64_of_le (show size ≤ length by omega) (by omega),
      sub64_of_le (by omega) (by omega), toInt64, if_pos (by omega)]
    omega
  have firstHeader := header_setLast_apart heap.mem (next heap.mem this) (this + size + 29)
    apartTarget
  have firstNext : next (setLast heap.mem (next heap.mem this) (this + size + 29)) this =
      next heap.mem this := by
    change (header _ this).next = (header _ this).next
    rw [firstHeader]
  have apartNew : HeadersApart this (this + size + 29) := Or.inl (by omega)
  have freeEq : HeapSegHdr.free
      (setLength (setLast (setNext (setNext
        (setLast heap.mem (next heap.mem this) (this + size + 29))
        (this + size + 29) (next heap.mem this)) this (this + size + 29))
        (this + size + 29) this) (this + size + 29) (length - size - 29)) this =
      HeapSegHdr.free heap.mem this := by
    change (header _ this).free = (header _ this).free
    rw [header_setLength_apart _ _ _ apartNew, header_setLast_apart _ _ _ apartNew,
      header_setNext _ _ (by omega), header_setNext_apart _ _ _ apartNew, firstHeader]
  simp only [split, lengthEq, newHdr, restEq, firstNext, freeEq]
  rw [if_neg (by omega), if_neg (by omega), splitMem]

theorem split_eq_self {this size length : Nat} (less : size < length)
    (lengthBound : length < 2 ^ 64) (lengthEq : HeapSegHdr.length heap.mem this = length)
    (noRoom : ¬(size + 45 ≤ length ∧ length - size - 29 < 2 ^ 63)) :
    (split heap this size).2 = heap := by
  have short := mt (splitSegLength_iff lengthBound less).mp noRoom
  simp only [split, lengthEq]
  split
  · rfl
  · rw [if_pos (by omega)]

end

end OkeOS
