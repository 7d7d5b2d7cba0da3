import OkeOS.HeapShape

/-!
Isolation of the live blocks: from each other, from the headers, and from the calls
made on behalf of other blocks.
-/

namespace OkeOS

open ByteMemory Tiling
open HeapSegHdr hiding free

/-- The live blocks lie in the heap, apart from each other and from the headers of `chain`. -/
structure Separated {σ : Type} (system : HeapSystem σ) (chain : List ChainNode) : Prop where
  reached : ChainFrom system.heap.mem system.heap.heapStart chain
  inside : ∀ block ∈ system.live, system.heap.heapStart ≤ block.ptr ∧
    block.ptr + roundUp block.size 0x10 ≤ system.heap.heapEnd
  apart : system.live.Pairwise fun first second =>
    first.ptr ≠ second.ptr ∧ ∀ address, ¬(first.Contains address ∧ second.Contains address)
  offHeaders : ∀ block ∈ system.live, ∀ node ∈ chain, ∀ address, block.Contains address →
    address < node.addr ∨ node.addr + 29 ≤ address

/-- The bytes of the blocks live before and after the call. -/
def KeepsBlocks {σ : Type} (system system' : HeapSystem σ) : Prop :=
  ∀ block ∈ system.live, block ∈ system'.live → ∀ address, block.Contains address →
    system'.heap.mem address = system.heap.mem address

/-- `sfreed` has the chain of `freed`, and its `size` bytes at `pointer` are zero. -/
structure FreedAndZeroed {σ : Type} (freed sfreed : Heap σ) (pointer size : Nat) : Prop where
  chain : ∃ chain, ChainFrom freed.mem freed.heapStart chain ∧
    ChainFrom sfreed.mem sfreed.heapStart chain
  lastHdr : sfreed.lastHdr = freed.lastHdr
  heapStart : sfreed.heapStart = freed.heapStart
  heapEnd : sfreed.heapEnd = freed.heapEnd
  zeroed : ∀ address, pointer ≤ address → address < pointer + size → sfreed.mem address = 0

section

variable {σ : Type} {mapPage : σ → Nat → Except Fault σ} {system : HeapSystem σ}
  {segments : List Segment}

theorem SystemInv.blocks_apart (inv : SystemInv system segments) {first second : Block}
    (firstMem : first ∈ system.live) (secondMem : second ∈ system.live)
    (different : first.ptr ≠ second.ptr) (address : Nat) :
    ¬(first.Contains address ∧ second.Contains address) := by
  rintro ⟨⟨firstLower, firstUpper⟩, secondLower, secondUpper⟩
  obtain ⟨owner, ownerMem, _, ownerPtr, ownerEnough⟩ := inv.owners first firstMem
  obtain ⟨holder, holderMem, _, holderPtr, holderEnough⟩ := inv.owners second secondMem
  rcases tiles_apart inv.inv.tiles ownerMem holderMem with same | earlier | later
  · rw [same] at ownerPtr
    omega
  · omega
  · omega

theorem SystemInv.separated (inv : SystemInv system segments) :
    Separated system (chainOf 0 segments) := by
  refine ⟨inv.inv.chainFrom, ?_, ?_, ?_⟩
  · intro block live
    obtain ⟨owner, member, _, ownerPtr, enough⟩ := inv.owners block live
    have bounds := tiles_mem inv.inv.tiles member
    omega
  · have different : system.live.Pairwise fun first second => first.ptr ≠ second.ptr :=
      List.pairwise_map.mp inv.distinct
    refine different.imp_of_mem ?_
    intro first second firstMem secondMem different
    exact ⟨different, inv.blocks_apart firstMem secondMem different⟩
  · intro block live node nodeMem address inside
    obtain ⟨segment, segmentMem, addrEq, _⟩ := chainOf_length nodeMem
    have outside := (inv.inv.payload_bounds (inv.payload live inside)).2.2
    by_contra touched
    exact outside ⟨segment, segmentMem, by omega, by omega⟩

theorem FreedAndZeroed.of_chain {freed sfreed : Heap σ} {segments' : List Segment}
    {pointer size : Nat} (freedInv : HeapInv freed segments') (sfreedInv : HeapInv sfreed segments')
    (bounds : SameBounds sfreed freed)
    (zeroed : ∀ address, pointer ≤ address → address < pointer + size → sfreed.mem address = 0) :
    FreedAndZeroed freed sfreed pointer size :=
  ⟨⟨_, freedInv.chainFrom, sfreedInv.chainFrom⟩,
    sfreedInv.lastHdr.trans freedInv.lastHdr.symm, bounds.heapStart, bounds.heapEnd, zeroed⟩

theorem sfree_zeroes (heap : Heap σ) (pointer size address : Nat) (lower : pointer ≤ address)
    (upper : address < pointer + size) : (sfree heap pointer size).mem address = 0 := by
  rw [sfree_eq, zeroPayload_apply, if_pos ⟨lower, upper⟩]

theorem SystemInv.sfree (inv : SystemInv system segments) {block : Block} {size : Nat}
    (live : block ∈ system.live) (bound : size ≤ length system.heap.mem (headerOf block.ptr)) :
    FreedAndZeroed (free system.heap block.ptr) (sfree system.heap block.ptr size)
      block.ptr size := by
  obtain ⟨owner, member, _, ownerPtr, _⟩ := inv.owners block live
  rw [inv.length_eq member ownerPtr] at bound
  have freedInv := (inv.inv.free member).1
  have sfreedInv := inv.inv.sfree member bound
  rw [ownerPtr] at freedInv sfreedInv
  have bounds := zeroPayload_bounds (free system.heap block.ptr) block.ptr size
  rw [← sfree_eq] at bounds
  exact FreedAndZeroed.of_chain freedInv sfreedInv bounds (sfree_zeroes _ _ _)

/-- In every state of a run the live blocks are isolated, and no call touches the bytes
of a block it is not about. -/
theorem heap_isolation (run : HeapRun mapPage system) (noWrap : system.heap.heapEnd < 2 ^ 64) :
    (∃ chain, Separated system chain) ∧
      (∀ system', HeapCall mapPage system system' → system'.heap.heapEnd < 2 ^ 64 →
        KeepsBlocks system system') ∧
      ∀ block ∈ system.live, ∀ size ≤ length system.heap.mem (headerOf block.ptr),
        FreedAndZeroed (free system.heap block.ptr) (sfree system.heap block.ptr size)
          block.ptr size := by
  obtain ⟨segments, inv⟩ := run.inv noWrap
  refine ⟨⟨_, inv.separated⟩, ?_, ?_⟩
  · intro system' call noWrap'
    exact (inv.call call noWrap').2
  · intro block live size bound
    exact inv.sfree live bound

theorem heap_isolation_twoBlocks :
    ∃ system : HeapSystem Unit, system.live.length = 2 ∧ ∃ chain, Separated system chain := by
  obtain ⟨system, run, noWrap, live⟩ := twoBlocks_run
  exact ⟨system, by rw [live]; rfl, (heap_isolation run noWrap).1⟩

end

end OkeOS
