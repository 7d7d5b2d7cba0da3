import Mathlib.Data.List.Nodup
import OkeOS.HeapInvariant

/-!
Runs of the heap and what holds in every state they reach: the chain of headers is
well formed, and live blocks are isolated from each other and from the headers.
-/

namespace OkeOS

open ByteMemory Tiling
open HeapSegHdr hiding free

/-- A pointer that `malloc` returned, with the size it was asked for. -/
structure Block where
  ptr : Nat
  size : Nat
deriving DecidableEq, Repr

/-- The bytes a client may use. -/
def Block.Contains (block : Block) (address : Nat) : Prop :=
  block.ptr ≤ address ∧ address < block.ptr + roundUp block.size 0x10

structure HeapSystem (σ : Type) where
  heap : Heap σ
  live : List Block

section

variable {σ : Type} (mapPage : σ → Nat → Except Fault σ)

/-- A call into the heap that returns; a call that panics or loops reaches no state. -/
inductive HeapCall : HeapSystem σ → HeapSystem σ → Prop
  | malloc {system : HeapSystem σ} {fuel size pointer : Nat} {heap' : Heap σ}
      (bound : size ≤ 2 ^ 64 - 0x1000)
      (run : malloc mapPage fuel system.heap size = .ok (pointer, heap')) :
      HeapCall system
        { heap := heap'
          live := if pointer = 0 then system.live
            else { ptr := pointer, size := size } :: system.live }
  | free {system : HeapSystem σ} {block : Block} (live : block ∈ system.live) :
      HeapCall system
        { heap := free system.heap block.ptr, live := system.live.erase block }
  | sfree {system : HeapSystem σ} {block : Block} {size : Nat} (live : block ∈ system.live)
      (bound : size ≤ length system.heap.mem (headerOf block.ptr)) :
      HeapCall system
        { heap := sfree system.heap block.ptr size, live := system.live.erase block }
  | expandHeap {system : HeapSystem σ} {length : Nat} {heap' : Heap σ} (positive : 0 < length)
      (bound : length ≤ 2 ^ 64 - 0x1000)
      (run : expandHeap mapPage system.heap length = .ok heap') :
      HeapCall system { heap := heap', live := system.live }

inductive HeapStep : HeapSystem σ → HeapSystem σ → Prop
  | call {system system' : HeapSystem σ} : HeapCall mapPage system system' →
      HeapStep system system'
  | write {system : HeapSystem σ} {block : Block} {address : Nat} (byte : UInt8)
      (live : block ∈ system.live) (inside : block.Contains address) :
      HeapStep system
        { system with heap :=
            { system.heap with mem := writeByte system.heap.mem address byte } }

/-- The states a run reaches from `initHeap`. -/
inductive HeapRun : HeapSystem σ → Prop
  | init {heap heap' : Heap σ} {heapAddress pageCount : Nat} (nonzero : 0 < heapAddress)
      (aligned : heapAddress % 0x1000 = 0) (onePage : 1 ≤ pageCount)
      (noWrap : heapAddress + pageCount * 0x1000 < 2 ^ 64)
      (run : initHeap mapPage heap heapAddress pageCount = .ok heap') :
      HeapRun { heap := heap', live := [] }
  | step {system system' : HeapSystem σ} : HeapRun system → HeapStep mapPage system system' →
      HeapRun system'

end

/-- The allocated segments are exactly the segments of the live blocks. -/
structure SystemInv {σ : Type} (system : HeapSystem σ) (segments : List Segment) : Prop where
  inv : HeapInv system.heap segments
  owners : ∀ block ∈ system.live, ∃ owner ∈ segments, owner.free = false ∧
    owner.addr + 29 = block.ptr ∧ roundUp block.size 0x10 ≤ owner.length
  covered : ∀ owner ∈ segments, owner.free = false →
    ∃ block ∈ system.live, owner.addr + 29 = block.ptr
  distinct : (system.live.map Block.ptr).Nodup

section

variable {σ : Type} {mapPage : σ → Nat → Except Fault σ} {system system' : HeapSystem σ}
  {segments : List Segment}

theorem initHeap_inv {heap heap' : Heap σ} {heapAddress pageCount : Nat}
    (nonzero : 0 < heapAddress) (aligned : heapAddress % 0x1000 = 0) (onePage : 1 ≤ pageCount)
    (noWrap : heapAddress + pageCount * 0x1000 < 2 ^ 64)
    (run : initHeap mapPage heap heapAddress pageCount = .ok heap') :
    HeapInv heap' [{ addr := heapAddress, length := pageCount * 0x1000 - 29, free := true }] := by
  simp only [initHeap] at run
  cases mapped : mapPages mapPage pageCount heapAddress heap.pages with
  | error fault => simp [mapped, Bind.bind, Except.bind] at run
  | ok pages =>
      simp only [mapped, Bind.bind, Except.bind, Except.ok.injEq] at run
      have lengthEq : sub64 (pageCount * 0x1000 % 2 ^ 64) sizeofHeapSegHdr =
          pageCount * 0x1000 - 29 := by
        rw [Nat.mod_eq_of_lt (by omega), sizeofHeapSegHdr, sub64_of_le (by omega) (by omega)]
      rw [lengthEq] at run
      subst run
      refine ⟨⟨⟨?_, trivial⟩, ⟨rfl, ?_⟩, rfl, ?_, ?_⟩, by simp, ?_, List.isChain_singleton _, ?_⟩
      · rw [header_setFree, header_setLast _ _ (by omega), header_setNext _ _ (by omega),
          header_setLength _ _ (by omega)]
        rfl
      · simp only [Tiles]
        omega
      · simp only
        omega
      · simp only
        omega
      · intro segment member
        rw [List.mem_singleton] at member
        rw [member]
        simp only
        omega
      · simp only
        omega

theorem SystemInv.ptr_addr (inv : SystemInv system segments) {block : Block} {owner : Segment}
    (member : owner ∈ segments) (same : owner.addr + 29 = block.ptr) :
    headerOf block.ptr = owner.addr := by
  have bounds := tiles_mem inv.inv.tiles member
  have endHigh := inv.inv.endHigh
  rw [← same, headerOf, sizeofHeapSegHdr, sub64_of_le (by omega) (by omega)]
  omega

theorem SystemInv.length_eq (inv : SystemInv system segments) {block : Block} {owner : Segment}
    (member : owner ∈ segments) (same : owner.addr + 29 = block.ptr) :
    length system.heap.mem (headerOf block.ptr) = owner.length := by
  obtain ⟨before, after, split⟩ := List.append_of_mem member
  rw [inv.ptr_addr member same]
  exact header_length (HeapChain.header_eq (split ▸ inv.inv.toHeapChain))

theorem SystemInv.eq_of_ptr (inv : SystemInv system segments) {first second : Block}
    (firstMem : first ∈ system.live) (secondMem : second ∈ system.live)
    (same : first.ptr = second.ptr) : first = second :=
  List.inj_on_of_nodup_map inv.distinct firstMem secondMem same

theorem SystemInv.erase (inv : SystemInv system segments) {block : Block} {heap' : Heap σ}
    {owner : Segment} (live : block ∈ system.live)
    (ownerPtr : owner.addr + 29 = block.ptr)
    (inv' : HeapInv heap' (release 29 segments owner.addr)) :
    SystemInv { heap := heap', live := system.live.erase block }
      (release 29 segments owner.addr) := by
  have nodup : system.live.Nodup := List.Nodup.of_map _ inv.distinct
  refine ⟨inv', ?_, ?_, ?_⟩
  · intro other member
    obtain ⟨different, otherLive⟩ := (nodup.mem_erase_iff).mp member
    obtain ⟨holder, holderMem, holderFree, holderPtr, enough⟩ := inv.owners other otherLive
    refine ⟨holder, (mem_release_allocated holderFree).mpr ⟨holderMem, ?_⟩, holderFree,
      holderPtr, enough⟩
    intro same
    exact different (inv.eq_of_ptr otherLive live (by omega))
  · intro holder member holderFree
    obtain ⟨holderMem, different⟩ := (mem_release_allocated holderFree).mp member
    obtain ⟨other, otherLive, otherPtr⟩ := inv.covered holder holderMem holderFree
    refine ⟨other, (nodup.mem_erase_iff).mpr ⟨?_, otherLive⟩, otherPtr⟩
    intro same
    subst same
    exact different (by omega)
  · exact inv.distinct.sublist ((List.erase_sublist).map _)

theorem SystemInv.payload (inv : SystemInv system segments) {block : Block}
    (live : block ∈ system.live) {address : Nat} (inside : block.Contains address) :
    InPayload segments address := by
  obtain ⟨owner, member, ownerFree, ownerPtr, enough⟩ := inv.owners block live
  obtain ⟨lower, upper⟩ := inside
  exact ⟨owner, member, ownerFree, by omega, by omega⟩

/-- What a call keeps: the invariant, and the bytes of the blocks that stay live. -/
def Isolated (system system' : HeapSystem σ) : Prop :=
  (∃ segments', SystemInv system' segments') ∧
    ∀ block ∈ system.live, block ∈ system'.live → ∀ address, block.Contains address →
      system'.heap.mem address = system.heap.mem address

theorem SystemInv.released (inv : SystemInv system segments) {block : Block} {heap' : Heap σ}
    {owner : Segment} {size : Nat} (live : block ∈ system.live) (member : owner ∈ segments)
    (ownerPtr : owner.addr + 29 = block.ptr) (bound : size ≤ owner.length)
    (inv' : HeapInv heap' (release 29 segments owner.addr))
    (frame : ∀ address, address < block.ptr ∨ block.ptr + size ≤ address →
      ¬InHeader segments address → heap'.mem address = system.heap.mem address) :
    Isolated system { heap := heap', live := system.live.erase block } := by
  have nodup : system.live.Nodup := List.Nodup.of_map _ inv.distinct
  refine ⟨⟨_, inv.erase live ownerPtr inv'⟩, ?_⟩
  intro other otherLive otherLive' address inside
  have different := ((nodup.mem_erase_iff).mp otherLive').1
  refine frame address ?_ (inv.inv.payload_bounds (inv.payload otherLive inside)).2.2
  obtain ⟨holder, holderMem, holderFree, holderPtr, holderEnough⟩ := inv.owners other otherLive
  obtain ⟨lower, upper⟩ := inside
  rcases tiles_apart inv.inv.tiles member holderMem with same | earlier | later
  · subst same
    exact absurd (inv.eq_of_ptr otherLive live (by omega)) different
  · omega
  · omega

/-- Every call keeps the invariant and the bytes of the blocks that stay live. -/
theorem SystemInv.call (inv : SystemInv system segments) (call : HeapCall mapPage system system')
    (noWrap : system'.heap.heapEnd < 2 ^ 64) : Isolated system system' := by
  cases call with
  | malloc bound run =>
      rcases inv.inv.malloc bound run noWrap with ⟨_, null, same⟩ | ⟨segments', allocation⟩
      · rw [null, if_pos rfl, same]
        exact ⟨⟨segments, inv⟩, fun block live _ address inside => rfl⟩
      · obtain ⟨owner, member, ownerFree, ownerPtr, enough, allocated, fresh⟩ := allocation.owner
        refine ⟨⟨segments', ?_⟩, fun block live _ address inside =>
          allocation.frame address (inv.payload live inside)⟩
        rw [if_neg (by omega)]
        refine ⟨allocation.inv, ?_, ?_, ?_⟩
        · intro block live
          rcases List.mem_cons.mp live with new | old
          · subst new
            exact ⟨owner, member, ownerFree, ownerPtr, enough⟩
          · obtain ⟨holder, holderMem, holderFree, holderPtr, holderEnough⟩ := inv.owners block old
            exact ⟨holder, (allocated holder holderFree).mpr (Or.inl holderMem), holderFree,
              holderPtr, holderEnough⟩
        · intro holder holderMem holderFree
          rcases (allocated holder holderFree).mp holderMem with old | new
          · obtain ⟨block, live, blockPtr⟩ := inv.covered holder old holderFree
            exact ⟨block, by simp [live], blockPtr⟩
          · subst new
            exact ⟨_, List.mem_cons_self, ownerPtr⟩
        · refine List.nodup_cons.mpr ⟨?_, inv.distinct⟩
          intro member
          obtain ⟨block, live, same⟩ := List.mem_map.mp member
          obtain ⟨holder, holderMem, holderFree, holderPtr, _⟩ := inv.owners block live
          simp only at same
          exact fresh holder holderMem holderFree (by omega)
  | @free block live =>
      obtain ⟨owner, member, ownerFree, ownerPtr, enough⟩ := inv.owners block live
      obtain ⟨inv', _, frame⟩ := inv.inv.free member
      rw [ownerPtr] at inv' frame
      exact inv.released live member ownerPtr (Nat.zero_le _) inv' fun address _ => frame address
  | @sfree block size live bound =>
      obtain ⟨owner, member, ownerFree, ownerPtr, enough⟩ := inv.owners block live
      rw [inv.length_eq member ownerPtr] at bound
      have inv' := inv.inv.sfree member bound
      have frame := inv.inv.sfree_frame size member
      rw [ownerPtr] at inv' frame
      exact inv.released live member ownerPtr bound inv' frame
  | expandHeap positive bound run =>
      obtain ⟨segments', expansion⟩ := inv.inv.expandHeap positive bound run noWrap
      refine ⟨⟨segments', expansion.inv, ?_, ?_, inv.distinct⟩, fun block live _ address inside =>
        expansion.frame address (inv.payload live inside)⟩
      · intro block live
        obtain ⟨holder, holderMem, holderFree, holderPtr, enough⟩ := inv.owners block live
        exact ⟨holder, (expansion.allocated holder holderFree).mpr holderMem, holderFree,
          holderPtr, enough⟩
      · intro holder holderMem holderFree
        exact inv.covered holder ((expansion.allocated holder holderFree).mp holderMem) holderFree

theorem free_bounds (heap : Heap σ) (address : Nat) : SameBounds (free heap address) heap := by
  simp only [free]
  generalize headerOf address = segment
  exact (combineBackward_bounds _ _).trans ((combineForward_bounds _ _).trans ⟨rfl, rfl, rfl⟩)

theorem sfree_bounds (heap : Heap σ) (address size : Nat) :
    SameBounds (sfree heap address size) heap := by
  rw [sfree_eq]
  exact (zeroPayload_bounds _ _ _).trans (free_bounds heap address)

theorem HeapCall.end_le (call : HeapCall mapPage system system') :
    system.heap.heapEnd ≤ system'.heap.heapEnd := by
  cases call with
  | malloc bound run => exact malloc_end_le run
  | @free block live => exact Nat.le_of_eq (free_bounds system.heap block.ptr).heapEnd.symm
  | @sfree block size live bound =>
      exact Nat.le_of_eq (sfree_bounds system.heap block.ptr size).heapEnd.symm
  | expandHeap positive bound run => exact expandHeap_end_le run

theorem HeapCall.heapStart (call : HeapCall mapPage system system') :
    system'.heap.heapStart = system.heap.heapStart := by
  cases call with
  | malloc bound run => exact malloc_start run
  | @free block live => exact (free_bounds system.heap block.ptr).heapStart
  | @sfree block size live bound => exact (sfree_bounds system.heap block.ptr size).heapStart
  | expandHeap positive bound run => exact expandHeap_start run

theorem HeapRun.startAligned (run : HeapRun mapPage system) :
    system.heap.heapStart % 0x1000 = 0 := by
  induction run with
  | init nonzero aligned onePage below run =>
      obtain ⟨pages, _, result⟩ := Fault.peel run
      rw [Except.ok.injEq] at result
      rw [← result]
      exact aligned
  | step _ step ih =>
      cases step with
      | call call => rw [call.heapStart, ih]
      | write byte live inside => exact ih

theorem SystemInv.write (inv : SystemInv system segments) {block : Block} {address : Nat}
    (byte : UInt8) (live : block ∈ system.live) (inside : block.Contains address) :
    SystemInv { system with heap :=
      { system.heap with mem := writeByte system.heap.mem address byte } } segments := by
  refine ⟨?_, inv.owners, inv.covered, inv.distinct⟩
  apply inv.inv.of_frame
  intro other header
  apply writeByte_other
  rintro rfl
  obtain ⟨owner, member, ownerFree, ownerPtr, enough⟩ := inv.owners _ live
  obtain ⟨lower, upper⟩ := inside
  exact inv.inv.payload_not_header member (by omega) (by omega) header

theorem SystemInv.repage (inv : SystemInv system segments) (pages : σ) :
    SystemInv { system with heap := { system.heap with pages := pages } } segments :=
  ⟨⟨⟨inv.inv.linked, inv.inv.tiles, inv.inv.lastHdr, inv.inv.startLow, inv.inv.endHigh⟩,
    inv.inv.nonempty, inv.inv.lengths, inv.inv.noFreePair, inv.inv.endAligned⟩, inv.owners,
    inv.covered, inv.distinct⟩

theorem SystemInv.init {heap heap' : Heap σ} {heapAddress pageCount : Nat}
    (nonzero : 0 < heapAddress) (aligned : heapAddress % 0x1000 = 0) (onePage : 1 ≤ pageCount)
    (below : heapAddress + pageCount * 0x1000 < 2 ^ 64)
    (run : initHeap mapPage heap heapAddress pageCount = .ok heap') :
    SystemInv { heap := heap', live := [] }
      [{ addr := heapAddress, length := pageCount * 0x1000 - 29, free := true }] := by
  refine ⟨initHeap_inv nonzero aligned onePage below run, by simp, ?_, by simp⟩
  intro owner member allocated
  rw [List.mem_singleton] at member
  rw [member] at allocated
  exact absurd allocated (by simp)

theorem HeapRun.inv (run : HeapRun mapPage system) (noWrap : system.heap.heapEnd < 2 ^ 64) :
    ∃ segments, SystemInv system segments := by
  induction run with
  | init nonzero aligned onePage below run =>
      exact ⟨_, .init nonzero aligned onePage below run⟩
  | step _ step ih =>
      cases step with
      | call call =>
          have grown := call.end_le
          obtain ⟨segments, inv⟩ := ih (by omega)
          exact (inv.call call noWrap).1
      | write byte live inside =>
          obtain ⟨segments, inv⟩ := ih noWrap
          exact ⟨segments, inv.write byte live inside⟩

end

/-! A short run, for the closed instances of the theorems about runs. -/

def emptyHeap : Heap Unit :=
  { mem := fun _ => 0, heapStart := 0, heapEnd := 0, lastHdr := 0, pages := () }

def mapAny (pages : Unit) (_ : Nat) : Except Fault Unit := .ok pages

def twoBlocks : Except Fault (Nat × Nat × Heap Unit) := do
  let heap ← initHeap mapAny emptyHeap 0x800000 1
  let (first, heap) ← malloc mapAny 2 heap 40
  let (second, heap) ← malloc mapAny 3 heap 24
  return (first, second, heap)

theorem twoBlocks_run : ∃ system : HeapSystem Unit, HeapRun mapAny system ∧
    system.heap.heapEnd < 2 ^ 64 ∧
    system.live = [{ ptr := 0x80006a, size := 24 }, { ptr := 0x80001d, size := 40 }] := by
  have result : twoBlocks.toOption.map (fun run => (run.1, run.2.1, run.2.2.heapEnd)) =
      some (0x80001d, 0x80006a, 0x801000) := by rfl
  cases booted : initHeap mapAny emptyHeap 0x800000 1 with
  | error fault => simp [twoBlocks, booted, Bind.bind, Except.bind, Except.toOption] at result
  | ok heap =>
      cases first : malloc mapAny 2 heap 40 with
      | error fault =>
          simp [twoBlocks, booted, first, Bind.bind, Except.bind, Except.toOption] at result
      | ok taken =>
          cases second : malloc mapAny 3 taken.2 24 with
          | error fault =>
              simp [twoBlocks, booted, first, second, Bind.bind, Except.bind, Except.toOption]
                at result
          | ok taken' =>
              simp only [twoBlocks, booted, first, second, Bind.bind, Except.bind, Pure.pure,
                Except.pure, Except.toOption, Option.map_some, Option.some.injEq,
                Prod.mk.injEq] at result
              obtain ⟨firstPtr, secondPtr, heapEnd⟩ := result
              have run := HeapRun.init (by decide) (by decide) (by decide) (by decide) booted
              have run := run.step (.call (.malloc (by decide) first))
              have run := run.step (.call (.malloc (by decide) second))
              refine ⟨_, run, by simp only [heapEnd]; decide, ?_⟩
              simp [firstPtr, secondPtr]

end OkeOS
