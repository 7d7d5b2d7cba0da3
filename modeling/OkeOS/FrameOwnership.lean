import OkeOS.BootMap
import OkeOS.HeapPages

/-!
Who owns which frame once the allocator, the page tables and the heap work together: a
frame handed out is a page table or backs one page of the heap, never both.
-/

namespace OkeOS

open ByteMemory PathTree PageDirectoryEntry PageFrameAllocator

/-- The states of the kernel from the allocation of `globalPageTable` on.  `Outside` says
which addresses may be mapped by hand; the heap globals start out as zero.  The bytes of
frames that back the heap may change at any time. -/
inductive KernelRun (memmap : List MemmapEntry) (Outside : Heap (Phys Globals) → Nat → Prop)
    (root : Nat) : Heap (Phys Globals) → Prop
  | boot {state booted rooted : Phys Globals} {mem : Memory}
      (word : state.globals.hhdmOffset < 2 ^ 64) (boot : init state memmap = .ok booted)
      (made : newTable requestPage booted = .ok (root, rooted)) :
      KernelRun memmap Outside root
        { mem := mem, heapStart := 0, heapEnd := 0, lastHdr := 0, pages := rooted }
  | map {heap : Heap (Phys Globals)} {state' : Phys Globals} {virt phys : Nat} :
      KernelRun memmap Outside root heap → virt < 2 ^ 64 → Outside heap virt →
      mapMemory requestPage heap.pages root virt phys = .ok state' →
      KernelRun memmap Outside root { heap with pages := state' }
  | initHeap {heap heap' : Heap (Phys Globals)} {pageCount : Nat} :
      KernelRun memmap Outside root heap → heap.heapStart = 0 →
      initHeap (mapHeapPage root) heap 0x800000 pageCount = .ok heap' →
      KernelRun memmap Outside root heap'
  | expandHeap {heap heap' : Heap (Phys Globals)} {length : Nat} :
      KernelRun memmap Outside root heap → heap.heapStart ≠ 0 →
      expandHeap (mapHeapPage root) heap length = .ok heap' →
      KernelRun memmap Outside root heap'
  | write {heap : Heap (Phys Globals)} {mem : Memory} :
      KernelRun memmap Outside root heap →
      (∀ address, mem address ≠ heap.pages.mem address → ∃ virt frame, InHeap heap virt ∧
        backing heap.pages.mem root virt = some frame ∧ InFrame frame address) →
      KernelRun memmap Outside root { heap with pages := { heap.pages with mem := mem } }

/-! Runs of the kernel. -/

/-- The address shares bits 12 to 47 with no page of the heap. -/
def OutsidePages (heap : Heap (Phys Globals)) (virt : Nat) : Prop :=
  ∀ other, InHeap heap other → ¬SamePage other virt

section

variable {memmap : List MemmapEntry} {root : Nat} {heap heap' : Heap (Phys Globals)}
  {handed data : List Nat}

theorem fewFrames_of_valid (valid : ValidMap memmap) : FewFrames (FrameInv memmap) := by
  intro state handed data inv subset distinct
  have frames := inv.handed_le valid
  have short := (List.subperm_of_subset distinct subset).length_le
  omega

theorem HeapBacked.map (valid : ValidMap memmap) (inv : HeapBacked (FrameInv memmap) root heap handed data)
    {virt phys : Nat} {state' : Phys Globals} (outside : OutsidePages heap virt)
    (run : mapMemory requestPage heap.pages root virt phys = .ok state') :
    ∃ handed', HeapBacked (FrameInv memmap) root { heap with pages := state' } handed' data := by
  obtain ⟨handed', _, backed⟩ := inv.backed.map (FrameInv.contract valid) (fun i inside => outside _ ⟨by omega, by
    rw [inv.bounds]
    omega⟩) run
  exact ⟨handed', backed, inv.aligned, inv.bounds⟩

theorem KernelRun.heapBacked (valid : ValidMap memmap)
    (run : KernelRun memmap OutsidePages root heap) :
    ∃ handed data, HeapBacked (FrameInv memmap) root heap handed data := by
  induction run with
  | @boot state booted rooted mem word boot made =>
      obtain ⟨mapped, _, _⟩ := newTable_mapped (FrameInv.contract valid)
        (FrameInv.init valid word boot) made
      exact ⟨[root], [], ⟨mapped, List.nil_subset _, List.nodup_nil, by simp, by simp⟩, rfl, rfl⟩
  | map _ _ outside call ih =>
      obtain ⟨handed, data, inv⟩ := ih
      obtain ⟨handed', inv'⟩ := inv.map valid outside call
      exact ⟨handed', data, inv'⟩
  | initHeap _ _ call ih =>
      obtain ⟨handed, data, inv⟩ := ih
      obtain ⟨handed', data', inv', _⟩ :=
        inv.initHeap (FrameInv.contract valid) (fewFrames_of_valid valid) call
      exact ⟨handed', data', inv'⟩
  | expandHeap _ _ call ih =>
      obtain ⟨handed, data, inv⟩ := ih
      obtain ⟨handed', data', inv', _⟩ :=
        inv.expandHeap (FrameInv.contract valid) (fewFrames_of_valid valid) call
      exact ⟨handed', data', inv'⟩
  | write _ changed ih =>
      obtain ⟨handed, data, inv⟩ := ih
      exact ⟨handed, data, (inv.write (FrameInv.contract valid) changed).1⟩

/-- The tables form a tree, every heap page has a frame of its own, and the bitmap marks
the frames of the tables, of the heap and of itself as used. -/
structure FramesOwned (memmap : List MemmapEntry) (root : Nat) (heap : Heap (Phys Globals)) :
    Prop where
  rootParent : ∀ table index, Reached (edge heap.pages.mem) root 2 table →
    edge heap.pages.mem table index ≠ some root
  parent : ∀ table, IsTable heap.pages.mem root table → table ≠ root →
    ∃! slot : Nat × Fin 512, Reached (edge heap.pages.mem) root 2 slot.1 ∧
      edge heap.pages.mem slot.1 slot.2 = some table
  backed : ∀ virt, InHeap heap virt → ∃ frame, backing heap.pages.mem root virt = some frame
  distinct : ∀ first second frame, InHeap heap first → InHeap heap second →
    backing heap.pages.mem root first = some frame →
    backing heap.pages.mem root second = some frame → first / 4096 = second / 4096
  noTable : ∀ virt frame, InHeap heap virt → backing heap.pages.mem root virt = some frame →
    ¬IsTable heap.pages.mem root frame
  noBitmap : ∀ virt frame, InHeap heap virt → backing heap.pages.mem root virt = some frame →
    ¬BitmapFrame memmap (frame / 4096)
  tableBits : ∀ table, IsTable heap.pages.mem root table → bit heap.pages (table / 4096) = true
  heapBits : ∀ virt frame, InHeap heap virt → backing heap.pages.mem root virt = some frame →
    bit heap.pages (frame / 4096) = true
  bitmapBits : ∀ index, BitmapFrame memmap index → bit heap.pages index = true

theorem HeapBacked.framesOwned (valid : ValidMap memmap)
    (inv : HeapBacked (FrameInv memmap) root heap handed data) : FramesOwned memmap root heap := by
  have owned := inv.backed.mapped.owned
  have tree := inv.backed.mapped.tree
  have found (virt : Nat) (inside : InHeap heap virt) :
      ∃ frame, data[(virt - heap.heapStart) / 4096]? = some frame ∧
        backing heap.pages.mem root virt = some frame :=
    inv.backed.backing (FrameInv.contract valid) inv.aligned inside.1 (inv.bounds ▸ inside.2)
  have inData (virt frame : Nat) (inside : InHeap heap virt)
      (back : backing heap.pages.mem root virt = some frame) :
      data[(virt - heap.heapStart) / 4096]? = some frame := by
    obtain ⟨other, at_, otherBack⟩ := found virt inside
    rw [back] at otherBack
    rw [at_, otherBack]
  have held (virt frame : Nat) (inside : InHeap heap virt)
      (back : backing heap.pages.mem root virt = some frame) : frame ∈ handed :=
    inv.backed.owned (List.mem_of_getElem? (inData virt frame inside back))
  refine ⟨?_, ?_, ?_, ?_, ?_, ?_, ?_, ?_, ?_⟩
  · intro table index reached
    exact tree.unique.root_parentless reached (by decide)
  · intro table reached notRoot
    exact tree.unique.parent reached notRoot
  · intro virt inside
    obtain ⟨frame, _, back⟩ := found virt inside
    exact ⟨frame, back⟩
  · intro first second frame inFirst inSecond firstBack secondBack
    have aligned := inv.aligned
    have firstAt := inData first frame inFirst firstBack
    have secondAt := inData second frame inSecond secondBack
    obtain ⟨firstInside, _⟩ := List.getElem?_eq_some_iff.mp firstAt
    have same := (List.getElem?_inj firstInside inv.backed.distinct).mp
      (firstAt.trans secondAt.symm)
    have firstLower := inFirst.1
    have secondLower := inSecond.1
    omega
  · rintro virt frame inside back ⟨path, length, reached⟩
    exact inv.backed.noTable path frame length reached
      (List.mem_of_getElem? (inData virt frame inside back))
  · intro virt frame inside back
    exact (owned.bit_handed (held virt frame inside back)).2
  · rintro table ⟨path, length, reached⟩
    exact (owned.bit_handed (tree.handed path table length reached)).1
  · intro virt frame inside back
    exact (owned.bit_handed (held virt frame inside back)).1
  · intro index reserved
    exact owned.bit_bitmap valid reserved

/-- In every state of the kernel each frame has one use. -/
theorem kernelRun_framesOwned (valid : ValidMap memmap)
    (run : KernelRun memmap OutsidePages root heap) : FramesOwned memmap root heap := by
  obtain ⟨handed, data, inv⟩ := run.heapBacked valid
  exact inv.framesOwned valid

end

/-! Closed instances: a heap of one page. -/

theorem Mapped.mapMemory_few {memmap : List MemmapEntry} (valid : ValidMap memmap)
    {state : Phys Globals} {root : Nat} {handed : List Nat}
    (mapped : Mapped (FrameInv memmap) state root handed) (virt phys : Nat)
    (enough : handed.length + 3 ≤ supply memmap) :
    ∃ state' handed', OkeOS.mapMemory requestPage state root virt phys = .ok state' ∧
      Mapped (FrameInv memmap) state' root handed' ∧ handed'.length ≤ handed.length + 3 ∧
      ∃ entry, walk state'.mem root virt = some (linkEntry entry phys) := by
  have contract := FrameInv.contract valid
  have lengths : ∀ path ∈ prefixes virt, path.length ≤ 3 := fun _ => prefixes_length
  have few : missing state.mem root (prefixes virt) ≤ 3 := List.countP_le_length
  obtain ⟨state', run⟩ := mapped.mapMemory_total virt phys contract
    (fun _ _ inv few => inv.supplied valid few) lengths (fun _ member => member) (by omega)
  obtain ⟨handed', mapped', step⟩ := mapped.mapMemory contract run
  have cost := step.cost (prefixes virt) lengths (by simp)
  exact ⟨state', handed', run, mapped', by omega, step.mapped _ _ (by simp [lastCall, SamePage])⟩

theorem onePage_boot (Outside : Heap (Phys Globals) → Nat → Prop) :
    ∃ root booted heap handed, KernelRun evenMap Outside root booted ∧ booted.heapStart = 0 ∧
      initHeap (mapHeapPage root) booted 0x800000 1 = .ok heap ∧
      Mapped (FrameInv evenMap) heap.pages root handed ∧ handed.length ≤ 5 := by
  have valid : ValidMap evenMap := ⟨⟨by decide, by decide⟩, by decide⟩
  have room : supply evenMap = 60 := by decide
  obtain ⟨booted, boot⟩ := init_succeeds evenMap poweredOn (by decide)
  have inv := FrameInv.init valid (by decide) boot
  obtain ⟨root, rooted, made⟩ := newTable_total valid inv (by rw [List.length_nil]; omega)
  obtain ⟨mapped, _, _⟩ := newTable_mapped (FrameInv.contract valid) inv made
  have start : KernelRun evenMap Outside root
      { mem := fun _ => 0, heapStart := 0, heapEnd := 0, lastHdr := 0, pages := rooted } :=
    .boot (by decide) boot made
  obtain ⟨frame, between, request⟩ := mapped.owned.supplied valid
    (by rw [List.length_singleton]; omega)
  obtain ⟨mapped1, _, _⟩ := mapped.request (FrameInv.contract valid) request
  obtain ⟨pages, handed, call, mapped2, few, _⟩ := mapped1.mapMemory_few valid 0x800000
    frame (by simp only [List.length_cons, List.length_nil]; omega)
  have page : mapHeapPage root rooted 0x800000 = .ok pages := by
    rw [mapHeapPage, request]
    exact call
  have whole : mapPages (mapHeapPage root) 1 0x800000 rooted = .ok pages := by
    rw [mapPages, page]
    rfl
  obtain ⟨heap, run⟩ : ∃ heap, initHeap (mapHeapPage root)
      { mem := fun _ => 0, heapStart := 0, heapEnd := 0, lastHdr := 0, pages := rooted } 0x800000 1 =
      .ok heap := by
    rw [initHeap, whole]
    exact ⟨_, rfl⟩
  obtain ⟨samePages, _, _⟩ := initHeap_bounds run
  rw [whole, Except.ok.injEq] at samePages
  refine ⟨root, _, heap, handed, start, rfl, run, samePages ▸ mapped2, ?_⟩
  simpa using few

theorem onePage_run (Outside : Heap (Phys Globals) → Nat → Prop) :
    ∃ root heap handed, KernelRun evenMap Outside root heap ∧ heap.heapStart = 0x800000 ∧
      heap.heapEnd = 0x801000 ∧ Mapped (FrameInv evenMap) heap.pages root handed ∧
      handed.length ≤ 5 := by
  obtain ⟨root, booted, heap, handed, run, fresh, boot, mapped, few⟩ := onePage_boot Outside
  obtain ⟨_, startEq, endEq⟩ := initHeap_bounds boot
  exact ⟨root, heap, handed, .initHeap run fresh boot, startEq, endEq, mapped, few⟩

theorem kernelRun_framesOwned_onePage :
    ∃ root heap, KernelRun evenMap OutsidePages root heap ∧ InHeap heap 0x800fff ∧
      FramesOwned evenMap root heap := by
  obtain ⟨root, heap, _, run, startEq, endEq, _⟩ := onePage_run OutsidePages
  exact ⟨root, heap, run, ⟨by omega, by omega⟩,
    kernelRun_framesOwned ⟨⟨by decide, by decide⟩, by decide⟩ run⟩

/-- A call for an address outside the heap whose bits 12 to 47 are those of the first heap
page puts the root table there. -/
theorem kernelRun_aliased :
    ValidMap evenMap ∧ ∃ root heap, KernelRun evenMap (fun heap virt => ¬InHeap heap virt) root heap ∧
      ¬FramesOwned evenMap root heap := by
  have valid : ValidMap evenMap := ⟨⟨by decide, by decide⟩, by decide⟩
  have room : supply evenMap = 60 := by decide
  obtain ⟨root, heap, handed, run, startEq, endEq, mapped, few⟩ :=
    onePage_run fun heap virt => ¬InHeap heap virt
  obtain ⟨state', handed', call, mapped', _, entry, walked⟩ := mapped.mapMemory_few valid
    0x1000000800000 root (by omega)
  have rootMem := mapped'.tree.handed [] root (by decide) rfl
  have aligned := (FrameInv.contract valid).aligned mapped'.owned root rootMem
  have bound := (FrameInv.contract valid).bound mapped'.owned root rootMem
  have outside : ¬InHeap heap 0x1000000800000 := fun inside => by
    have upper := inside.2
    omega
  refine ⟨valid, root, _, .map run (by decide) outside call, ?_⟩
  intro owned
  refine owned.noTable 0x800000 root ⟨by simp only; omega, by simp only; omega⟩ ?_ ⟨[], by decide, rfl⟩
  have same : SamePage 0x800000 0x1000000800000 := by decide
  rw [backing, walk_samePage same, walked, Option.map_some, linkEntry_address entry bound,
    Option.some.injEq]
  omega

end OkeOS
