import OkeOS.HeapAccount
import OkeOS.HeapClear
import OkeOS.HeapIsolation

/-!
What a client of the heap can rely on while it makes calls of its own: the segments and the
bytes of the blocks that others hold, and the bytes outside of the heap.
-/

namespace OkeOS

open ByteMemory Tiling
open HeapSegHdr hiding free

/-- The byte lies outside of a heap that ends at `limit` or below, and not in the page at
`NULL`, where `split` writes. -/
def OutsideHeap (start limit address : Nat) : Prop :=
  0x1000 ≤ address ∧ (address < start ∨ limit ≤ address)

def Held (base : List Block) (start limit address : Nat) : Prop :=
  (∃ block ∈ base, block.Contains address) ∨ OutsideHeap start limit address

section

variable {σ : Type} {mapPage : σ → Nat → Except Fault σ} {heap heap' : Heap σ}
  {segments : List Segment} {limit address : Nat}

theorem HeapChain.outside_not_header (chain : HeapChain heap segments)
    (below : heap.heapEnd ≤ limit) (outside : OutsideHeap heap.heapStart limit address) :
    ¬InHeader segments address := by
  rintro ⟨owner, member, lower, upper⟩
  have bounds := tiles_mem chain.tiles member
  have place := outside.2
  omega

theorem HeapInv.expandHeap_outside {size : Nat} (inv : HeapInv heap segments)
    (positive : 0 < size) (bound : size ≤ 2 ^ 64 - 0x1000)
    (run : OkeOS.expandHeap mapPage heap size = .ok heap') (noWrap : heap'.heapEnd < 2 ^ 64)
    (below : heap'.heapEnd ≤ limit) (outside : OutsideHeap heap.heapStart limit address) :
    heap'.mem address = heap.mem address := by
  obtain ⟨front, previous, rfl⟩ := inv.eq_concat
  obtain ⟨larger, whole, _⟩ := roundUp4096 positive bound
  have endEq := (inv.grown positive bound run noWrap).2
  have bounds := inv.toHeapChain.bounds
  by_contra changed
  obtain ⟨hdr, member, least, most⟩ := expandHeap_covered run address changed
  have written := expandWrites_mem inv positive bound member
  have place := outside.2
  omega

theorem HeapInv.malloc_outside {fuel size pointer : Nat} (inv : HeapInv heap segments)
    (bound : size ≤ 2 ^ 64 - 0x1000)
    (run : OkeOS.malloc mapPage fuel heap size = .ok (pointer, heap'))
    (noWrap : heap'.heapEnd < 2 ^ 64) (below : heap'.heapEnd ≤ limit)
    (outside : OutsideHeap heap.heapStart limit address) :
    heap'.mem address = heap.mem address := by
  induction fuel generalizing heap segments size with
  | zero => simp [OkeOS.malloc] at run
  | succ fuel ih =>
      obtain ⟨_, _, multiple, roundedBound⟩ := roundUp16 bound
      have ends := malloc_end_le run
      rcases malloc_ok run with ⟨_, _, rfl⟩ | ⟨nonzero, scanned | ⟨_, expanded, grown, again⟩⟩
      · rfl
      · rw [← inv.headAddr_start inv.nonempty] at scanned
        obtain ⟨first, rest, rfl⟩ := List.exists_cons_of_ne_nil inv.nonempty
        rcases mallocScan_chain (by omega) rest [] first fuel _ inv.toHeapChain scanned with
          ⟨impossible, _⟩ | ⟨skipped, found, others, heap1, split, _, _, eq, taken⟩
        · simp at impossible
        · simp only [Option.some.injEq, Prod.mk.injEq] at eq
          rw [split] at inv
          have bounds := inv.toHeapChain.bounds
          have place := outside.2
          rw [eq.2]
          exact taken.frame address outside.1
            (inv.toHeapChain.outside_not_header (by omega) outside) (by omega)
      · have grownEnd := malloc_end_le again
        obtain ⟨segments1, expansion⟩ := inv.expandHeap (by omega) roundedBound grown (by omega)
        rw [ih expansion.inv roundedBound again (by rwa [expansion.heapStart])]
        exact inv.expandHeap_outside (by omega) roundedBound grown (by omega) (by omega) outside

end

section

variable {σ : Type} {mapPage : σ → Nat → Except Fault σ} {system system' : HeapSystem σ}
  {segments : List Segment} {base : List Block} {limit address : Nat}

theorem SystemInv.call_outside (inv : SystemInv system segments)
    (call : HeapCall mapPage system system') (noWrap : limit < 2 ^ 64)
    (below : system'.heap.heapEnd ≤ limit)
    (outside : OutsideHeap system.heap.heapStart limit address) :
    system'.heap.mem address = system.heap.mem address := by
  have ends := call.end_le
  have endHigh : system'.heap.heapEnd < 2 ^ 64 := by omega
  have notHeader := inv.inv.toHeapChain.outside_not_header (by omega) outside
  cases call with
  | malloc bound run => exact inv.inv.malloc_outside bound run endHigh below outside
  | @free block live =>
      obtain ⟨owner, member, _, ownerPtr, _⟩ := inv.owners block live
      have frame := (inv.inv.free member).2.2 address notHeader
      rw [ownerPtr] at frame
      have kept : ∀ heap' blocks, OkeOS.free system.heap block.ptr = heap' →
          (HeapSystem.mk heap' blocks).heap.mem address = system.heap.mem address := by
        intro heap' _ freed
        rw [freed] at frame
        exact frame
      exact kept _ _ rfl
  | @sfree block size live bound =>
      obtain ⟨owner, member, _, ownerPtr, _⟩ := inv.owners block live
      rw [inv.length_eq member ownerPtr] at bound
      have bounds := tiles_mem inv.inv.tiles member
      have place := outside.2
      have ends := inv.inv.endHigh
      have kept := inv.inv.sfree_frame size member address (by omega) notHeader
      rwa [ownerPtr] at kept
  | expandHeap positive bound run =>
      exact inv.inv.expandHeap_outside positive bound run endHigh below outside

theorem SystemInv.call_held (inv : SystemInv system segments)
    (call : HeapCall mapPage system system') (noWrap : limit < 2 ^ 64)
    (below : system'.heap.heapEnd ≤ limit) (live : ∀ block ∈ base, block ∈ system.live)
    (live' : ∀ block ∈ base, block ∈ system'.live)
    (held : Held base system.heap.heapStart limit address) :
    system'.heap.mem address = system.heap.mem address := by
  rcases held with ⟨block, member, inside⟩ | outside
  · exact (inv.call call (by omega)).2 block (live block member) (live' block member) address inside
  · exact inv.call_outside call noWrap below outside

/-- `second` comes from `first` by calls and writes of one client: the blocks of `base` have
kept their segments and the spared bytes their values. -/
structure Evolves (base : List Block) (Spared : Nat → Prop) (first second : HeapSystem σ) :
    Prop where
  heapStart : second.heap.heapStart = first.heap.heapStart
  endLe : first.heap.heapEnd ≤ second.heap.heapEnd
  bytes : ∀ address, Spared address → second.heap.mem address = first.heap.mem address
  owners : ∀ segments, SystemInv first segments →
    ∃ segments', SystemInv second segments' ∧ SameOwners base segments segments'

theorem Evolves.refl (base : List Block) (Spared : Nat → Prop) (system : HeapSystem σ) :
    Evolves base Spared system system :=
  ⟨rfl, Nat.le_refl _, fun _ _ => rfl, fun segments inv => ⟨segments, inv, fun _ _ => Iff.rfl⟩⟩

theorem Evolves.trans {Spared : Nat → Prop} {first second third : HeapSystem σ}
    (left : Evolves base Spared first second) (right : Evolves base Spared second third) :
    Evolves base Spared first third := by
  refine ⟨right.heapStart.trans left.heapStart, left.endLe.trans right.endLe, ?_, ?_⟩
  · intro address spared
    rw [right.bytes address spared, left.bytes address spared]
  · intro segments inv
    obtain ⟨between, betweenInv, same⟩ := left.owners segments inv
    obtain ⟨segments', inv', same'⟩ := right.owners between betweenInv
    exact ⟨segments', inv', fun owner owns => (same' owner owns).trans (same owner owns)⟩

theorem Evolves.call {Spared : Nat → Prop} (inv : SystemInv system segments)
    (call : HeapCall mapPage system system') (noWrap : limit < 2 ^ 64)
    (below : system'.heap.heapEnd ≤ limit) (live : ∀ block ∈ base, block ∈ system.live)
    (live' : ∀ block ∈ base, block ∈ system'.live)
    (held : ∀ address, Spared address → Held base system.heap.heapStart limit address) :
    Evolves base Spared system system' := by
  refine ⟨call.heapStart, call.end_le, ?_, ?_⟩
  · intro address spared
    exact inv.call_held call noWrap below live live' (held address spared)
  · intro other otherInv
    exact otherInv.call_owners call (by omega) live live'

/-- Writes to what the client holds touch no header. -/
theorem SystemInv.rewrite {mem : Memory} (inv : SystemInv system segments)
    (below : system.heap.heapEnd ≤ limit)
    (changes : ∀ address, mem address ≠ system.heap.mem address →
      Held system.live system.heap.heapStart limit address) :
    SystemInv { system with heap := { system.heap with mem := mem } } segments := by
  refine ⟨inv.inv.of_frame ?_, inv.owners, inv.covered, inv.distinct⟩
  intro address inside
  by_contra changed
  rcases changes address changed with ⟨block, live, contains⟩ | outside
  · exact (inv.inv.payload_bounds (inv.payload live contains)).2.2 inside
  · exact inv.inv.toHeapChain.outside_not_header below outside inside

theorem Evolves.rewrite {Spared : Nat → Prop} {mem : Memory} (below : system.heap.heapEnd ≤ limit)
    (changes : ∀ address, mem address ≠ system.heap.mem address →
      Held system.live system.heap.heapStart limit address)
    (spared : ∀ address, Spared address → mem address = system.heap.mem address) :
    Evolves base Spared system { system with heap := { system.heap with mem := mem } } :=
  ⟨rfl, Nat.le_refl _, spared, fun segments inv =>
    ⟨segments, inv.rewrite below changes, fun _ _ => Iff.rfl⟩⟩

theorem Evolves.mono {Spared Fewer : Nat → Prop} {fewer : List Block}
    (evolves : Evolves base Spared system system') (blocks : ∀ block ∈ fewer, block ∈ base)
    (bytes : ∀ address, Fewer address → Spared address) : Evolves fewer Fewer system system' := by
  refine ⟨evolves.heapStart, evolves.endLe, fun address spared =>
    evolves.bytes address (bytes address spared), ?_⟩
  intro segments inv
  obtain ⟨segments', inv', same⟩ := evolves.owners segments inv
  refine ⟨segments', inv', ?_⟩
  rintro owner ⟨used, block, member, ownerPtr⟩
  exact same owner ⟨used, block, blocks block member, ownerPtr⟩

theorem Held.mono {more : List Block} {start : Nat} (held : Held base start limit address)
    (blocks : ∀ block ∈ base, block ∈ more) : Held more start limit address := by
  rcases held with ⟨block, member, inside⟩ | outside
  · exact .inl ⟨block, blocks block member, inside⟩
  · exact .inr outside

/-- A live block has no byte in common with what is held apart from it. -/
theorem SystemInv.held_apart (inv : SystemInv system segments)
    (below : system.heap.heapEnd ≤ limit) {block : Block} (member : block ∈ system.live)
    (others : ∀ other ∈ base, other ∈ system.live ∧ other.ptr ≠ block.ptr)
    (held : Held base system.heap.heapStart limit address) : ¬block.Contains address := by
  intro contains
  rcases held with ⟨other, otherMem, inside⟩ | outside
  · obtain ⟨live, different⟩ := others other otherMem
    exact inv.blocks_apart live member different address ⟨inside, contains⟩
  · obtain ⟨owner, ownerMem, _, ownerPtr, enough⟩ := inv.owners block member
    have bounds := tiles_mem inv.inv.tiles ownerMem
    have place := outside.2
    obtain ⟨lower, upper⟩ := contains
    omega

theorem SystemInv.block_bounds (inv : SystemInv system segments) {block : Block}
    (member : block ∈ system.live) :
    0 < block.ptr ∧ block.ptr + roundUp block.size 0x10 ≤ system.heap.heapEnd := by
  obtain ⟨owner, ownerMem, _, ownerPtr, enough⟩ := inv.owners block member
  have bounds := tiles_mem inv.inv.tiles ownerMem
  omega

theorem SystemInv.perm {heap : Heap σ} {live live' : List Block}
    (inv : SystemInv { heap := heap, live := live } segments) (same : live.Perm live') :
    SystemInv { heap := heap, live := live' } segments := by
  refine ⟨inv.inv, fun block member => inv.owners block (same.mem_iff.mpr member), ?_,
    (same.map Block.ptr).nodup_iff.mp inv.distinct⟩
  intro owner member used
  obtain ⟨block, live, ownerPtr⟩ := inv.covered owner member used
  exact ⟨block, same.mem_iff.mp live, ownerPtr⟩

end

/-! The steps of a client that keeps track of its blocks. -/

section

variable {σ : Type} {mapPage : σ → Nat → Except Fault σ} {heap heap' : Heap σ}
  {live : List Block} {segments : List Segment} {limit : Nat} {Spared : Nat → Prop}

theorem SystemInv.malloc_step {fuel size pointer : Nat}
    (inv : SystemInv { heap := heap, live := live } segments) (positive : 0 < size)
    (bound : size ≤ 2 ^ 64 - 0x1000)
    (run : OkeOS.malloc mapPage fuel heap size = .ok (pointer, heap'))
    (noWrap : limit < 2 ^ 64) (below : heap'.heapEnd ≤ limit)
    (held : ∀ address, Spared address → Held live heap.heapStart limit address) :
    pointer ≠ 0 ∧
      (∃ segments', SystemInv
        { heap := heap', live := { ptr := pointer, size := size } :: live } segments') ∧
      Evolves live Spared { heap := heap, live := live }
        { heap := heap', live := { ptr := pointer, size := size } :: live } := by
  have endHigh : heap'.heapEnd < 2 ^ 64 := by omega
  have larger := (roundUp16 bound).1
  have nonzero : pointer ≠ 0 := by
    rcases inv.inv.malloc bound run endHigh with ⟨zero, _⟩ | ⟨_, allocation⟩
    · omega
    · obtain ⟨owner, _, _, ownerPtr, _⟩ := allocation.owner
      omega
  have call : HeapCall mapPage { heap := heap, live := live }
      { heap := heap', live := { ptr := pointer, size := size } :: live } := by
    have call : HeapCall mapPage { heap := heap, live := live } _ := .malloc bound run
    rwa [if_neg nonzero] at call
  exact ⟨nonzero, (inv.call call endHigh).1, .call inv call noWrap below (fun _ member => member)
    (fun _ member => List.mem_cons_of_mem _ member) held⟩

/-- `free` and `sfree` map no pages. -/
def keepPages (pages : σ) (_ : Nat) : Except Fault σ := .ok pages

theorem SystemInv.free_step {block : Block}
    (inv : SystemInv { heap := heap, live := live } segments) (member : block ∈ live)
    (freed : free heap block.ptr = heap') (noWrap : limit < 2 ^ 64)
    (below : heap.heapEnd ≤ limit)
    (held : ∀ address, Spared address → Held (live.erase block) heap.heapStart limit address) :
    heap'.heapEnd = heap.heapEnd ∧
      (∃ segments', SystemInv { heap := heap', live := live.erase block } segments') ∧
      Evolves (live.erase block) Spared { heap := heap, live := live }
        { heap := heap', live := live.erase block } := by
  have call : HeapCall keepPages { heap := heap, live := live }
      { heap := free heap block.ptr, live := live.erase block } := .free member
  rw [freed] at call
  have sameEnd := (free_bounds heap block.ptr).heapEnd
  rw [freed] at sameEnd
  exact ⟨sameEnd, (inv.call call (by simp only; omega)).1, .call inv call noWrap
    (by simp only; omega) (fun _ member => List.mem_of_mem_erase member) (fun _ member => member)
    held⟩

theorem SystemInv.sfree_step {block : Block} {size : Nat}
    (inv : SystemInv { heap := heap, live := live } segments) (member : block ∈ live)
    (small : size ≤ roundUp block.size 0x10) (freed : OkeOS.sfree heap block.ptr size = heap')
    (noWrap : limit < 2 ^ 64) (below : heap.heapEnd ≤ limit)
    (held : ∀ address, Spared address → Held (live.erase block) heap.heapStart limit address) :
    heap'.heapEnd = heap.heapEnd ∧
      (∃ segments', SystemInv { heap := heap', live := live.erase block } segments') ∧
      Evolves (live.erase block) Spared { heap := heap, live := live }
        { heap := heap', live := live.erase block } := by
  obtain ⟨owner, ownerMem, _, ownerPtr, enough⟩ := inv.owners block member
  have call : HeapCall keepPages { heap := heap, live := live }
      { heap := OkeOS.sfree heap block.ptr size, live := live.erase block } :=
    .sfree member (by
      rw [inv.length_eq ownerMem ownerPtr]
      omega)
  rw [freed] at call
  have sameEnd := (sfree_bounds heap block.ptr size).heapEnd
  rw [freed] at sameEnd
  exact ⟨sameEnd, (inv.call call (by simp only; omega)).1, .call inv call noWrap
    (by simp only; omega) (fun _ member => List.mem_of_mem_erase member) (fun _ member => member)
    held⟩

end

end OkeOS
