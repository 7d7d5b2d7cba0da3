import OkeOS.FrameOwnership
import OkeOS.HeapHuge
import OkeOS.HeapRun

/-!
`malloc` on the heap of the running kernel.  Every size is served, refused with `NULL` or
stopped by the frame allocator, except for the sizes of the last page of the address space,
which `expandHeap` rounds up to no page.
-/

namespace OkeOS

open ByteMemory Tiling PageFrameAllocator
open HeapSegHdr hiding free

/-! The frame allocator is the only part that fails. -/

theorem requestPage_error {state : Phys Globals} {fault : Fault}
    (failed : requestPage state = .error fault) : fault = .panic "Out of memory" := by
  rw [requestPage] at failed
  split at failed
  · rw [Except.error.injEq] at failed
    exact failed.symm
  · exact (requestScan_stuck failed).1

theorem nextTable_error {state : Phys Globals} {table index : Nat} {fault : Fault}
    (failed : nextTable requestPage state table index = .error fault) :
    fault = .panic "Out of memory" := by
  simp only [nextTable] at failed
  split at failed
  · rcases Fault.peel_error failed with refused | ⟨⟨frame, between⟩, _, later⟩
    · exact requestPage_error refused
    · simp only [readEntry_writeEntry, (linkEntry_flags _ _).1, Bool.true_eq_false, if_false] at later
      exact absurd later (by simp)
  · exact absurd failed (by simp)

theorem mapMemory_error {state : Phys Globals} {root virt phys : Nat} {fault : Fault}
    (failed : mapMemory requestPage state root virt phys = .error fault) :
    fault = .panic "Out of memory" := by
  simp only [mapMemory] at failed
  rcases Fault.peel_error failed with refused | ⟨⟨pdp, first⟩, _, failed⟩
  · exact nextTable_error refused
  rcases Fault.peel_error failed with refused | ⟨⟨pd, second⟩, _, failed⟩
  · exact nextTable_error refused
  rcases Fault.peel_error failed with refused | ⟨⟨pt, third⟩, _, failed⟩
  · exact nextTable_error refused
  simp only [readEntry_writeEntry, (linkEntry_flags _ _).1, Bool.true_eq_false, if_false] at failed
  exact absurd failed (by simp)

theorem mapHeapPage_error {state : Phys Globals} {root pos : Nat} {fault : Fault}
    (failed : mapHeapPage root state pos = .error fault) : fault = .panic "Out of memory" := by
  rcases Fault.peel_error failed with refused | ⟨⟨frame, between⟩, _, failed⟩
  · exact requestPage_error refused
  · exact mapMemory_error failed

theorem mapPages_error {state : Phys Globals} {root pageCount pos : Nat} {fault : Fault}
    (failed : mapPages (mapHeapPage root) pageCount pos state = .error fault) :
    fault = .panic "Out of memory" := by
  induction pageCount generalizing state pos with
  | zero => exact absurd failed (by simp [mapPages])
  | succ pageCount ih =>
      rcases Fault.peel_error failed with refused | ⟨between, _, failed⟩
      · exact mapHeapPage_error refused
      · exact ih failed

theorem expandHeap_error {heap : Heap (Phys Globals)} {root length : Nat} {fault : Fault}
    (failed : expandHeap (mapHeapPage root) heap length = .error fault) :
    fault = .panic "Out of memory" := by
  rcases Fault.peel_error failed with refused | ⟨pages, _, failed⟩
  · exact mapPages_error refused
  · exact absurd failed (by simp)

/-! The heap of the running kernel. -/

/-- The states from `initHeap` on: calls into the heap and writes to live blocks, and, as
before, further mappings outside the heap and writes to the frames behind it. -/
inductive HeapLife (memmap : List MemmapEntry) (root : Nat) : HeapSystem (Phys Globals) → Prop
  | start {heap heap' : Heap (Phys Globals)} {pageCount : Nat}
      (booted : KernelRun memmap OutsidePages root heap) (fresh : heap.heapStart = 0)
      (onePage : 1 ≤ pageCount)
      (boot : initHeap (mapHeapPage root) heap 0x800000 pageCount = .ok heap') :
      HeapLife memmap root { heap := heap', live := [] }
  | step {system system' : HeapSystem (Phys Globals)} : HeapLife memmap root system →
      HeapStep (mapHeapPage root) system system' → HeapLife memmap root system'
  | map {system : HeapSystem (Phys Globals)} {state' : Phys Globals} {virt phys : Nat} :
      HeapLife memmap root system → virt < 2 ^ 64 → OutsidePages system.heap virt →
      mapMemory requestPage system.heap.pages root virt phys = .ok state' →
      HeapLife memmap root { system with heap := { system.heap with pages := state' } }
  | write {system : HeapSystem (Phys Globals)} {mem : Memory} :
      HeapLife memmap root system →
      (∀ address, mem address ≠ system.heap.pages.mem address → ∃ virt frame,
        InHeap system.heap virt ∧ backing system.heap.pages.mem root virt = some frame ∧
          InFrame frame address) →
      HeapLife memmap root
        { system with heap :=
            { system.heap with pages := { system.heap.pages with mem := mem } } }

/-- The heap starts at its place and lies on mapped pages. -/
def OnPages (memmap : List MemmapEntry) (root : Nat) (heap : Heap (Phys Globals)) : Prop :=
  heap.heapStart = 0x800000 ∧ ∃ handed data, HeapBacked (FrameInv memmap) root heap handed data

section

variable {memmap : List MemmapEntry} {root : Nat} {heap heap' : Heap (Phys Globals)}
  {system : HeapSystem (Phys Globals)}

theorem OnPages.end_lt (valid : ValidMap memmap) (onPages : OnPages memmap root heap) :
    heap.heapEnd < 2 ^ 64 := by
  obtain ⟨start, handed, data, inv⟩ := onPages
  have short := inv.backed.data_le (fewFrames_of_valid valid)
  have bounds := inv.bounds
  omega

theorem OnPages.same (same : SameBounds heap' heap) (onPages : OnPages memmap root heap) :
    OnPages memmap root heap' := by
  obtain ⟨start, handed, data, inv⟩ := onPages
  refine ⟨same.heapStart.trans start, handed, data, ?_, ?_, ?_⟩
  · rw [same.pages, same.heapStart]
    exact inv.backed
  · rw [same.heapStart]
    exact inv.aligned
  · rw [same.heapStart, same.heapEnd]
    exact inv.bounds

theorem OnPages.expandHeap (valid : ValidMap memmap) {length : Nat}
    (run : expandHeap (mapHeapPage root) heap length = .ok heap')
    (onPages : OnPages memmap root heap) : OnPages memmap root heap' := by
  obtain ⟨start, handed, data, inv⟩ := onPages
  obtain ⟨handed', data', inv', startEq, _⟩ :=
    inv.expandHeap (FrameInv.contract valid) (fewFrames_of_valid valid) run
  exact ⟨startEq.trans start, handed', data', inv'⟩

theorem OnPages.malloc (valid : ValidMap memmap) {fuel size pointer : Nat}
    (run : malloc (mapHeapPage root) fuel heap size = .ok (pointer, heap'))
    (onPages : OnPages memmap root heap) : OnPages memmap root heap' :=
  malloc_keeps (OnPages memmap root) OnPages.same (OnPages.expandHeap valid) run onPages

theorem OnPages.call (valid : ValidMap memmap) {system system' : HeapSystem (Phys Globals)}
    (call : HeapCall (mapHeapPage root) system system')
    (onPages : OnPages memmap root system.heap) : OnPages memmap root system'.heap := by
  cases call with
  | malloc bound run => exact onPages.malloc valid run
  | @free block live =>
      have same := free_bounds system.heap block.ptr
      generalize OkeOS.free system.heap block.ptr = heap' at *
      exact onPages.same same
  | @sfree block size live bound =>
      have same := sfree_bounds system.heap block.ptr size
      generalize OkeOS.sfree system.heap block.ptr size = heap' at *
      exact onPages.same same
  | expandHeap positive bound run => exact onPages.expandHeap valid run

theorem HeapLife.inv (valid : ValidMap memmap) (life : HeapLife memmap root system) :
    OnPages memmap root system.heap ∧ ∃ segments, SystemInv system segments := by
  induction life with
  | @start heap heap' pageCount booted fresh onePage boot =>
      obtain ⟨handed, data, inv⟩ := booted.heapBacked valid
      obtain ⟨handed', data', inv', startEq, endEq, _⟩ :=
        inv.initHeap (FrameInv.contract valid) (fewFrames_of_valid valid) boot
      have onPages : OnPages memmap root heap' := ⟨startEq, handed', data', inv'⟩
      have below := onPages.end_lt valid
      exact ⟨onPages, _, .init (by decide) (by decide) onePage (by omega) boot⟩
  | step _ step ih =>
      obtain ⟨onPages, segments, inv⟩ := ih
      cases step with
      | call call =>
          have onPages' := onPages.call valid call
          exact ⟨onPages', (inv.call call (onPages'.end_lt valid)).1⟩
      | write byte live inside =>
          obtain ⟨start, handed, data, backed⟩ := onPages
          exact ⟨⟨start, handed, data, backed.backed, backed.aligned, backed.bounds⟩, segments,
            inv.write byte live inside⟩
  | map _ _ outside call ih =>
      obtain ⟨⟨start, handed, data, backed⟩, segments, inv⟩ := ih
      obtain ⟨handed', backed'⟩ := backed.map valid outside call
      exact ⟨⟨start, handed', data, backed'⟩, segments, inv.repage _⟩
  | write _ changed ih =>
      obtain ⟨⟨start, handed, data, backed⟩, segments, inv⟩ := ih
      have backed' := (backed.write (FrameInv.contract valid) changed).1
      exact ⟨⟨start, handed, data, backed'⟩, segments, inv.repage _⟩

/-! What a call comes to. -/

/-- `NULL`, a block inside the heap on mapped pages, or the panic of the frame allocator. -/
def Served (root size : Nat) : Except Fault (Nat × Heap (Phys Globals)) → Prop
  | .error fault => fault = .panic "Out of memory"
  | .ok (pointer, heap') => ∃ segments', HeapInv heap' segments' ∧
      (pointer = 0 ∨ ∃ owner ∈ segments', owner.free = false ∧ owner.addr + 29 = pointer ∧
        size ≤ owner.length ∧ heap'.heapStart ≤ owner.addr ∧
        owner.addr + 29 + owner.length ≤ heap'.heapEnd ∧
        ∀ virt, owner.addr ≤ virt → virt < owner.addr + 29 + owner.length →
          ∃ frame, backing heap'.pages.mem root virt = some frame)

/-- The call comes to an end, and to one of these. -/
def MallocServed (root : Nat) (heap : Heap (Phys Globals)) (size : Nat) : Prop :=
  ∃ outcome, Settles (mapHeapPage root) heap size outcome ∧ Served root size outcome

section

variable {segments : List Segment} {size : Nat} (valid : ValidMap memmap)
  (inv : HeapInv heap segments) (onPages : OnPages memmap root heap)

include inv

theorem mallocServed_null (zero : roundUp size 0x10 = 0) : MallocServed root heap size :=
  ⟨_, settles_null _ heap zero, segments, inv, Or.inl rfl⟩

include valid onPages

theorem mallocServed_bounded (bound : size ≤ 2 ^ 64 - 0x1000) : MallocServed root heap size := by
  obtain ⟨larger, _, multiple, roundedBound⟩ := roundUp16 bound
  by_cases zero : roundUp size 0x10 = 0
  · exact mallocServed_null inv zero
  rcases outcome_of_inv rfl (roundUp_rounded multiple) (by omega) roundedBound inv onPages
    (fun onPages grown => ⟨onPages.expandHeap valid grown,
      (onPages.expandHeap valid grown).end_lt valid⟩) with ⟨settles⟩ | ⟨settles, failed⟩
  · rename_i result
    obtain ⟨pointer, heap'⟩ := result
    obtain ⟨fuel, later⟩ := settles
    have call := later fuel (Nat.le_refl _)
    have onPages' := onPages.malloc valid call
    refine ⟨_, ⟨fuel, later⟩, ?_⟩
    rcases inv.malloc bound call (onPages'.end_lt valid) with ⟨null, _⟩ | ⟨segments', allocation⟩
    · exact absurd null zero
    · obtain ⟨owner, member, allocated, place, enough, _⟩ := allocation.owner
      have bounds := tiles_mem allocation.inv.tiles member
      obtain ⟨_, handed, data, backed⟩ := onPages'
      refine ⟨segments', allocation.inv, Or.inr ⟨owner, member, allocated, place, by omega,
        bounds.1, bounds.2, ?_⟩⟩
      intro virt lower upper
      have endEq := backed.bounds
      obtain ⟨frame, _, found⟩ := backed.backed.backing (FrameInv.contract valid) backed.aligned
        (show heap'.heapStart ≤ virt by omega) (by omega)
      exact ⟨frame, found⟩
  · exact ⟨_, settles, expandHeap_error failed⟩

omit valid onPages

/-- A size of the last page of the address space: the call goes on forever or returns bytes
behind the heap. -/
theorem not_mallocServed (huge : Huge (roundUp size 0x10)) : ¬MallocServed root heap size := by
  rintro ⟨outcome, settles, served⟩
  have high := huge.high
  have multiple := huge.multiple
  obtain ⟨front, previous, rfl⟩ := inv.eq_concat
  cases isFree : previous.free with
  | true =>
      rw [settles.eq_outOfFuel (malloc_huge_lastFree inv isFree rfl huge)] at served
      exact absurd served (by simp [Served])
  | false =>
      by_cases long : 2 ^ 64 - 29 < roundUp size 0x10
      · rw [settles.eq_outOfFuel (malloc_huge_top inv isFree rfl huge long)] at served
        exact absurd served (by simp [Served])
      obtain ⟨between, dangling, same, returns⟩ :
          ∃ between, Dangling between (front ++ [previous]) ∧ SameBounds between heap ∧
            Settles (mapHeapPage root) heap size
              (.ok (takeFit between between.heapEnd (roundUp size 0x10))) :=
        malloc_huge_behind inv isFree rfl huge (by omega)
      rw [settles.unique returns] at served
      have endHigh := dangling.endHigh
      have endAligned := dangling.endAligned
      have place := takeFit_fst between between.heapEnd (roundUp size 0x10)
      have endEq := (takeFit_bounds between between.heapEnd (roundUp size 0x10)).heapEnd
      rw [sizeofHeapSegHdr, add64_of_lt (by omega)] at place
      generalize takeFit between between.heapEnd (roundUp size 0x10) = taken at *
      obtain ⟨pointer, heap'⟩ := taken
      simp only at place endEq
      obtain ⟨segments', _, null | ⟨owner, _, _, ownerPlace, _, _, upper, _⟩⟩ := served
      · omega
      · omega

end

/-- In every state of the running kernel `malloc` behaves for every size outside the last page
of the address space, apart from the topmost 15, which it refuses, and for no other. -/
theorem malloc_served_iff (valid : ValidMap memmap) (life : HeapLife memmap root system)
    {size : Nat} (word : size < 2 ^ 64) :
    MallocServed root system.heap size ↔ size ≤ 2 ^ 64 - 0x1000 ∨ 2 ^ 64 - 0x10 < size := by
  obtain ⟨onPages, segments, inv⟩ := life.inv valid
  constructor
  · intro served
    by_contra neither
    rw [not_or] at neither
    exact not_mallocServed inv.inv (huge_roundUp (by omega) (by omega)) served
  · rintro (bound | top)
    · exact mallocServed_bounded valid inv.inv onPages bound
    · exact mallocServed_null inv.inv (roundUp_top top word)

end

theorem malloc_served_iff_onePage :
    ∃ root system, HeapLife evenMap root system ∧ MallocServed root system.heap 16 ∧
      MallocServed root system.heap (2 ^ 64 - 1) := by
  have valid : ValidMap evenMap := ⟨⟨by decide, by decide⟩, by decide⟩
  obtain ⟨root, booted, heap, _, run, fresh, boot, _⟩ := onePage_boot OutsidePages
  have life : HeapLife evenMap root { heap := heap, live := [] } :=
    .start run fresh (by decide) boot
  exact ⟨root, _, life, (malloc_served_iff valid life (by decide)).mpr (by decide),
    (malloc_served_iff valid life (by decide)).mpr (by decide)⟩

/-- On a heap of one free page `malloc(2 ^ 64 - 16)` expands the heap by no page, over and
over. -/
theorem malloc_forever : ValidMap evenMap ∧ ∃ root system, HeapLife evenMap root system ∧
    (∀ fuel, malloc (mapHeapPage root) fuel system.heap (2 ^ 64 - 16) = .error .outOfFuel) ∧
      ¬MallocServed root system.heap (2 ^ 64 - 16) := by
  obtain ⟨root, booted, heap, _, run, fresh, boot, _⟩ := onePage_boot OutsidePages
  have inv : HeapInv heap ([] ++ [{ addr := 0x800000, length := 1 * 0x1000 - 29, free := true }]) :=
    initHeap_inv (by decide) (by decide) (by decide) (by decide) boot
  have huge : Huge (roundUp (2 ^ 64 - 16) 0x10) := huge_roundUp (by decide) (by decide)
  exact ⟨⟨⟨by decide, by decide⟩, by decide⟩, root, _, .start run fresh (by decide) boot,
    malloc_huge_lastFree inv rfl rfl huge, not_mallocServed inv huge⟩

end OkeOS
