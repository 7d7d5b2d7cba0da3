import OkeOS.HeapRun

/-!
The chain of headers as the code walks it, from `heapStart` along `next` to `NULL`, in
every state a run of the heap reaches.
-/

namespace OkeOS

open ByteMemory Tiling
open HeapSegHdr hiding free

structure ChainNode where
  addr : Nat
  header : Header
deriving DecidableEq, Repr

/-- The headers met on the way from `this` along `next` to `NULL`. -/
inductive ChainFrom (mem : Memory) : Nat → List ChainNode → Prop
  | null : ChainFrom mem 0 []
  | node {this : Nat} {rest : List ChainNode} (nonnull : this ≠ 0)
      (tail : ChainFrom mem (next mem this) rest) :
      ChainFrom mem this ({ addr := this, header := header mem this } :: rest)

theorem ChainFrom.unique {mem : Memory} {this : Nat} {chain chain' : List ChainNode}
    (first : ChainFrom mem this chain) (second : ChainFrom mem this chain') : chain = chain' := by
  induction first generalizing chain' with
  | null =>
      cases second with
      | null => rfl
      | node nonnull tail => exact absurd rfl nonnull
  | node nonnull tail ih =>
      cases second with
      | null => exact absurd rfl nonnull
      | node nonnull' tail' => rw [ih tail']

theorem ChainFrom.starts {mem : Memory} {this : Nat} {chain : List ChainNode}
    (walk : ChainFrom mem this chain) (nonnull : this ≠ 0) :
    ∃ rest, chain = { addr := this, header := header mem this } :: rest := by
  cases walk with
  | null => exact absurd rfl nonnull
  | node _ _ => exact ⟨_, rfl⟩

theorem ChainFrom.next_eq {mem mem' : Memory} {this : Nat} {chain : List ChainNode}
    (first : ChainFrom mem this chain) (second : ChainFrom mem' this chain) (nonnull : this ≠ 0) :
    next mem this = next mem' this := by
  obtain ⟨rest, eq⟩ := first.starts nonnull
  obtain ⟨rest', eq'⟩ := second.starts nonnull
  rw [eq] at eq'
  obtain ⟨_, same⟩ := ChainNode.mk.inj (List.cons.inj eq').1
  exact (header_next same).trans (header_next rfl).symm

structure Neighbours (first second : ChainNode) : Prop where
  adjacent : second.addr = first.addr + 29 + first.header.length
  back : second.header.last = first.addr
  notBothFree : ¬(first.header.free = true ∧ second.header.free = true)

structure ChainShape {σ : Type} (heap : Heap σ) (chain : List ChainNode) : Prop where
  reached : ChainFrom heap.mem heap.heapStart chain
  neighbours : chain.IsChain Neighbours
  first : ∀ node ∈ chain.head?, node.header.last = 0
  final : ∃ node, chain.getLast? = some node ∧ node.addr = heap.lastHdr ∧
    node.addr + 29 + node.header.length = heap.heapEnd
  lengths : ∀ node ∈ chain, 0x10 ≤ node.header.length

/-- The nodes that a list of segments stands for. -/
def chainOf : Nat → List Segment → List ChainNode
  | _, [] => []
  | prev, segment :: rest =>
      { addr := segment.addr
        header := { length := segment.length, next := headAddr 0 rest, last := prev,
                    free := segment.free } } :: chainOf segment.addr rest

theorem linked_chainFrom {mem : Memory} {prev start stop : Nat} {segments : List Segment}
    (linked : Linked mem prev segments 0) (tiles : Tiles 29 start segments stop)
    (positive : 0 < start) : ChainFrom mem (headAddr 0 segments) (chainOf prev segments) := by
  induction segments generalizing prev start with
  | nil => exact ChainFrom.null
  | cons segment rest ih =>
      have addrEq : segment.addr = start := tiles.1
      have tail := ih linked.2 tiles.2 (by omega)
      have nextEq : next mem segment.addr = headAddr 0 rest := header_next linked.1
      rw [← nextEq] at tail
      have node := ChainFrom.node (by omega) tail
      rwa [linked.1] at node

theorem chainOf_neighbours {prev start stop : Nat} {segments : List Segment}
    (tiles : Tiles 29 start segments stop) (noPair : NoFreePair segments) :
    (chainOf prev segments).IsChain Neighbours := by
  induction segments generalizing prev start with
  | nil => exact List.isChain_nil
  | cons segment rest ih =>
      have tail : (chainOf segment.addr rest).IsChain Neighbours := ih tiles.2 noPair.tail
      cases rest with
      | nil => exact List.isChain_singleton _
      | cons second others =>
          refine List.isChain_cons_cons.mpr ⟨⟨?_, rfl, ?_⟩, tail⟩
          · have first : segment.addr = start := tiles.1
            have next : second.addr = start + 29 + segment.length := tiles.2.1
            simp only
            omega
          · exact (List.isChain_cons_cons.mp noPair).1

theorem chainOf_final (prev : Nat) {start stop : Nat} {segments : List Segment}
    (tiles : Tiles 29 start segments stop) (nonempty : segments ≠ []) :
    ∃ node, (chainOf prev segments).getLast? = some node ∧ node.addr = lastAddr prev segments ∧
      node.addr + 29 + node.header.length = stop := by
  induction segments generalizing prev start with
  | nil => exact absurd rfl nonempty
  | cons segment rest ih =>
      cases rest with
      | nil =>
          have first : segment.addr = start := tiles.1
          have last : start + 29 + segment.length = stop := tiles.2
          refine ⟨_, rfl, rfl, ?_⟩
          change segment.addr + 29 + segment.length = stop
          omega
      | cons second others =>
          obtain ⟨node, final, addrEq, ends⟩ := ih segment.addr tiles.2 (by simp)
          refine ⟨node, ?_, addrEq, ends⟩
          rw [chainOf, List.getLast?_cons, final]
          rfl

theorem chainOf_length {prev : Nat} {segments : List Segment} {node : ChainNode}
    (member : node ∈ chainOf prev segments) :
    ∃ segment ∈ segments, node.addr = segment.addr ∧ node.header.length = segment.length := by
  induction segments generalizing prev with
  | nil => simp [chainOf] at member
  | cons segment rest ih =>
      rcases List.mem_cons.mp member with same | later
      · exact ⟨segment, by simp, by rw [same], by rw [same]⟩
      · obtain ⟨found, foundMem, equal⟩ := ih later
        exact ⟨found, by simp [foundMem], equal⟩

section

variable {σ : Type} {heap : Heap σ} {segments : List Segment}

theorem HeapInv.chainFrom (inv : HeapInv heap segments) :
    ChainFrom heap.mem heap.heapStart (chainOf 0 segments) := by
  have positive := inv.startLow
  have reached := linked_chainFrom inv.linked inv.tiles (by omega)
  obtain ⟨first, rest, split⟩ := List.exists_cons_of_ne_nil inv.nonempty
  subst split
  have firstAddr : first.addr = heap.heapStart := inv.tiles.1
  rwa [headAddr, firstAddr] at reached

theorem HeapInv.chainShape (inv : HeapInv heap segments) :
    ChainShape heap (chainOf 0 segments) := by
  refine ⟨inv.chainFrom, chainOf_neighbours inv.tiles inv.noFreePair, ?_, ?_, ?_⟩
  · intro node head
    obtain ⟨first, rest, split⟩ := List.exists_cons_of_ne_nil inv.nonempty
    rw [split, chainOf, List.head?_cons, Option.mem_some_iff] at head
    rw [← head]
  · rw [inv.lastHdr]
    exact chainOf_final _ inv.tiles inv.nonempty
  · intro node member
    obtain ⟨segment, segmentMem, _, lengthEq⟩ := chainOf_length member
    rw [lengthEq]
    exact inv.lengths segment segmentMem

end

/-! Freeing several blocks one after another. -/

def freeAll {σ : Type} (heap : Heap σ) (pointers : List Nat) : Heap σ :=
  pointers.foldl free heap

section

variable {σ : Type} {heap : Heap σ} {segments : List Segment}

theorem freeAll_cons (heap : Heap σ) (pointer : Nat) (rest : List Nat) :
    freeAll heap (pointer :: rest) = freeAll (free heap pointer) rest :=
  List.foldl_cons

/-- `free` of distinct allocated blocks releases their segments one by one. -/
theorem HeapInv.freeAll {pointers : List Nat} (inv : HeapInv heap segments)
    (distinct : pointers.Nodup)
    (owned : ∀ pointer ∈ pointers, ∃ owner ∈ segments, owner.free = false ∧
      owner.addr + 29 = pointer) :
    HeapInv (freeAll heap pointers)
        ((pointers.map fun pointer => pointer - 29).foldl (release 29) segments) ∧
      SameBounds (OkeOS.freeAll heap pointers) heap := by
  induction pointers generalizing heap segments with
  | nil => exact ⟨inv, SameBounds.refl heap⟩
  | cons pointer rest ih =>
      obtain ⟨owner, member, _, ownerPtr⟩ := owned pointer (by simp)
      obtain ⟨notRest, distinct⟩ := List.nodup_cons.mp distinct
      obtain ⟨inv', bounds, _⟩ := inv.free member
      have addrEq : pointer - 29 = owner.addr := by omega
      rw [ownerPtr] at inv' bounds
      have others : ∀ other ∈ rest, ∃ owner' ∈ release 29 segments owner.addr,
          owner'.free = false ∧ owner'.addr + 29 = other := by
        intro other otherMem
        obtain ⟨holder, holderMem, holderFree, holderPtr⟩ := owned other (by simp [otherMem])
        refine ⟨holder, (mem_release_allocated holderFree).mpr ⟨holderMem, ?_⟩, holderFree,
          holderPtr⟩
        intro same
        have equal : other = pointer := by omega
        exact notRest (equal ▸ otherMem)
      obtain ⟨inv'', bounds'⟩ := ih inv' distinct others
      rw [freeAll_cons, List.map_cons, List.foldl_cons, addrEq]
      exact ⟨inv'', bounds'.trans bounds⟩

theorem mem_foldl_release {addrs : List Nat} {segment : Segment} (notFree : segment.free = false)
    (member : segment ∈ addrs.foldl (release 29) segments) :
    segment ∈ segments ∧ segment.addr ∉ addrs := by
  induction addrs generalizing segments with
  | nil => exact ⟨member, by simp⟩
  | cons addr addrs ih =>
      obtain ⟨released, notRest⟩ := ih member
      obtain ⟨original, different⟩ := (mem_release_allocated notFree).mp released
      exact ⟨original, by simp [different, notRest]⟩

theorem HeapInv.all_free (inv : HeapInv heap segments)
    (allFree : ∀ segment ∈ segments, segment.free = true) :
    segments = [⟨heap.heapStart, heap.heapEnd - heap.heapStart - 29, true⟩] := by
  rw [← coalesce_of_noFreePair 29 inv.noFreePair]
  exact coalesce_all_free inv.nonempty inv.tiles allFree

end

section

variable {σ : Type} {mapPage : σ → Nat → Except Fault σ} {system : HeapSystem σ}

/-- In every state of a run the headers form one doubly linked chain that tiles the heap. -/
theorem heap_representation (run : HeapRun mapPage system)
    (noWrap : system.heap.heapEnd < 2 ^ 64) :
    ∃ chain, ChainShape system.heap chain := by
  obtain ⟨segments, inv⟩ := run.inv noWrap
  exact ⟨_, inv.inv.chainShape⟩

theorem heap_representation_twoBlocks :
    ∃ system : HeapSystem Unit, system.live.length = 2 ∧
      ∃ chain, ChainShape system.heap chain := by
  obtain ⟨system, run, noWrap, live⟩ := twoBlocks_run
  exact ⟨system, by rw [live]; rfl, heap_representation run noWrap⟩

/-- The order in which live blocks are freed does not show in the chain, and freeing
all of them leaves one free segment. -/
theorem free_order_independent (run : HeapRun mapPage system)
    (noWrap : system.heap.heapEnd < 2 ^ 64) {first second : List Nat}
    (permutation : first.Perm second) (distinct : first.Nodup)
    (live : ∀ pointer ∈ first, pointer ∈ system.live.map Block.ptr) :
    (∃ chain, ChainFrom (freeAll system.heap first).mem system.heap.heapStart chain ∧
        ChainFrom (freeAll system.heap second).mem system.heap.heapStart chain) ∧
      (freeAll system.heap first).lastHdr = (freeAll system.heap second).lastHdr ∧
      ((∀ block ∈ system.live, block.ptr ∈ first) →
        ChainFrom (freeAll system.heap first).mem system.heap.heapStart
          [{ addr := system.heap.heapStart
             header := { length := system.heap.heapEnd - system.heap.heapStart - 29, next := 0,
                         last := 0, free := true } }]) := by
  obtain ⟨segments, inv⟩ := run.inv noWrap
  have owned : ∀ pointer ∈ first, ∃ owner ∈ segments, owner.free = false ∧
      owner.addr + 29 = pointer := by
    intro pointer member
    obtain ⟨block, blockLive, same⟩ := List.mem_map.mp (live pointer member)
    obtain ⟨owner, ownerMem, ownerFree, ownerPtr, _⟩ := inv.owners block blockLive
    exact ⟨owner, ownerMem, ownerFree, ownerPtr.trans same⟩
  obtain ⟨firstInv, firstBounds⟩ := inv.inv.freeAll distinct owned
  obtain ⟨secondInv, secondBounds⟩ := inv.inv.freeAll (permutation.nodup_iff.mp distinct)
    fun pointer member => owned pointer (permutation.mem_iff.mpr member)
  rw [← foldl_release_perm (permutation.map _) inv.inv.noFreePair] at secondInv
  have firstChain := firstInv.chainFrom
  have secondChain := secondInv.chainFrom
  rw [firstBounds.heapStart] at firstChain
  rw [secondBounds.heapStart] at secondChain
  refine ⟨⟨_, firstChain, secondChain⟩, firstInv.lastHdr.trans secondInv.lastHdr.symm, ?_⟩
  intro all
  have allFree : ∀ segment ∈ (first.map fun pointer => pointer - 29).foldl (release 29) segments,
      segment.free = true := by
    intro segment member
    by_contra notFree
    rw [Bool.not_eq_true] at notFree
    obtain ⟨original, notFreed⟩ := mem_foldl_release notFree member
    obtain ⟨block, blockLive, blockPtr⟩ := inv.covered segment original notFree
    exact notFreed (List.mem_map.mpr ⟨block.ptr, all block blockLive, by omega⟩)
  rw [firstInv.all_free allFree, firstBounds.heapStart, firstBounds.heapEnd] at firstChain
  exact firstChain

theorem free_order_independent_twoBlocks :
    ∃ system : HeapSystem Unit, system.live.length = 2 ∧
      (freeAll system.heap [0x80001d, 0x80006a]).lastHdr =
        (freeAll system.heap [0x80006a, 0x80001d]).lastHdr := by
  obtain ⟨system, run, noWrap, live⟩ := twoBlocks_run
  refine ⟨system, by rw [live]; rfl, ?_⟩
  exact (free_order_independent run noWrap (List.Perm.swap _ _ _) (by decide)
    (by rw [live]; decide)).2.1

end

end OkeOS
