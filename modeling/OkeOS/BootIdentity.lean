import OkeOS.BootFrames
import OkeOS.LowFrames

/-!
`PageTable_MapMemory` uses the physical addresses of tables as virtual ones, so the tables
must be mapped to themselves once CR3 is loaded.  They are, as long as they lie in the
first 16 MiB and outside the pages of the heap.
-/

namespace OkeOS

open ByteMemory PathTree PageDirectoryEntry PageFrameAllocator

/-- Every page table is mapped to itself. -/
def TablesIdentity (mem : Memory) (root : Nat) : Prop :=
  ∀ table, IsTable mem root table → backing mem root table = some table

/-- The states of the kernel from the load of CR3 on.  `Meets` is asked about the end of
the heap before a step reaches it; `0x800000` stands for a heap without pages. -/
inductive LoadedRun (memmap : List MemmapEntry) (hhdmOffset kVirtOffset root : Nat)
    (Meets : Nat → Prop) : Heap (Phys Globals) → Prop
  | load {state state' : Phys Globals} {mem : Memory} (word : hhdmOffset < 2 ^ 64)
      (offset : state.globals.hhdmOffset = hhdmOffset)
      (run : bootPaging state kVirtOffset memmap = .ok (root, state')) (meets : Meets 0x800000) :
      LoadedRun memmap hhdmOffset kVirtOffset root Meets
        { mem := mem, heapStart := 0, heapEnd := 0, lastHdr := 0, pages := state' }
  | initHeap {heap heap' : Heap (Phys Globals)} :
      LoadedRun memmap hhdmOffset kVirtOffset root Meets heap → heap.heapStart = 0 →
      Meets 0x900000 → initHeap (mapHeapPage root) heap 0x800000 256 = .ok heap' →
      LoadedRun memmap hhdmOffset kVirtOffset root Meets heap'
  | expandHeap {heap heap' : Heap (Phys Globals)} {length : Nat} :
      LoadedRun memmap hhdmOffset kVirtOffset root Meets heap → heap.heapStart ≠ 0 →
      Meets (heap.heapEnd + roundUp length 0x1000 / 0x1000 * 0x1000) →
      expandHeap (mapHeapPage root) heap length = .ok heap' →
      LoadedRun memmap hhdmOffset kVirtOffset root Meets heap'
  | write {heap : Heap (Phys Globals)} {mem : Memory} :
      LoadedRun memmap hhdmOffset kVirtOffset root Meets heap →
      (∀ address, mem address ≠ heap.pages.mem address → ∃ virt frame, InHeap heap virt ∧
        backing heap.pages.mem root virt = some frame ∧ InFrame frame address) →
      LoadedRun memmap hhdmOffset kVirtOffset root Meets
        { heap with pages := { heap.pages with mem := mem } }

/-- The lowest free frames, as many as there are tables, lie in the first 16 MiB and not
under the heap that ends at `heapLimit`. -/
structure TablesLow (memmap : List MemmapEntry) (hhdmOffset kVirtOffset heapLimit : Nat) :
    Prop where
  map : MapBelow memmap (2 ^ 45)
  window : heapLimit ≤ mb 16
  enough : tablesNeeded hhdmOffset kVirtOffset memmap ≤ lowerFrames memmap lowFrameCount
  apart : ∀ index < lowFrameCount, FreeAtBoot memmap index →
    lowerFrames memmap index < tablesNeeded hhdmOffset kVirtOffset memmap →
    4096 * index < 0x800000 ∨ heapLimit ≤ 4096 * index

section

variable {memmap : List MemmapEntry} {hhdmOffset kVirtOffset root : Nat}

theorem fewFrames_low : FewFrames (LowInv memmap) := by
  intro state handed data inv subset distinct
  have size := inv.size
  have within : data ⊆ (List.range (limit state)).map (4096 * ·) := by
    intro frame member
    obtain ⟨index, upper, frameEq, _⟩ := inv.owned.frames frame (subset member)
    exact List.mem_map.mpr ⟨index, List.mem_range.mpr upper, frameEq.symm⟩
  have short := (List.subperm_of_subset distinct within).length_le
  rw [List.length_map, List.length_range] at short
  omega

/-- Where the tables lie, and what the first 16 MiB are mapped to. -/
structure LowLoaded (memmap : List MemmapEntry) (hhdmOffset kVirtOffset root : Nat)
    (heap : Heap (Phys Globals)) (handed data : List Nat) : Prop where
  backed : HeapBacked (LowInv memmap) root heap handed data
  tables : ∀ table, IsTable heap.pages.mem root table → table % 4096 = 0 ∧
    table / 4096 < lowFrameCount ∧ FreeAtBoot memmap (table / 4096) ∧
    lowerFrames memmap (table / 4096) < tablesNeeded hhdmOffset kVirtOffset memmap
  present : ∀ virt < mb 16, ∀ path ∈ prefixes virt, (tableAt heap.pages.mem root path).isSome
  identity : ∀ virt < mb 16, ¬InHeap heap virt →
    ∃ entry, walk heap.pages.mem root virt = some (linkEntry entry (4096 * (virt / 4096)))
  place : heap.heapStart = 0x800000 ∨ heap.heapEnd = 0

theorem LowLoaded.load {state state' : Phys Globals} {heapLimit : Nat} (mem : Memory)
    (low : TablesLow memmap hhdmOffset kVirtOffset heapLimit) (word : hhdmOffset < 2 ^ 64)
    (offset : state.globals.hhdmOffset = hhdmOffset)
    (run : bootPaging state kVirtOffset memmap = .ok (root, state')) :
    ∃ handed, LowLoaded memmap hhdmOffset kVirtOffset root
      { mem := mem, heapStart := 0, heapEnd := 0, lastHdr := 0, pages := state' } handed [] := by
  subst offset
  obtain ⟨booted, rooted, boot, made, calls⟩ := bootPaging_steps run
  have contract := LowInv.contract low.map
  obtain ⟨mapped, _, _⟩ := newTable_mapped contract (LowInv.init low.map word boot) made
  obtain ⟨handed, mapped', steps⟩ := mapped.mapAll contract calls
  have identity : ∀ virt < mb 16, ∃ entry, walk state'.mem root virt =
      some (linkEntry entry (4096 * (virt / 4096))) :=
    fun virt less => steps.mapped virt _ (lastCall_low less)
  have cost := steps.cost (bootTables state.globals.hhdmOffset kVirtOffset memmap)
    (fun path member => by
      obtain ⟨call, _, inPrefixes⟩ := mem_bootTables.mp member
      exact prefixes_length inPrefixes)
    fun call member path inPrefixes => mem_bootTables.mpr ⟨call, member, inPrefixes⟩
  have few : missing rooted.mem root (bootTables state.globals.hhdmOffset kVirtOffset memmap) ≤
      (bootTables state.globals.hhdmOffset kVirtOffset memmap).length := List.countP_le_length
  have needed : tablesNeeded state.globals.hhdmOffset kVirtOffset memmap =
      1 + (bootTables state.globals.hhdmOffset kVirtOffset memmap).length := rfl
  rw [List.length_singleton] at cost
  refine ⟨handed, ⟨⟨mapped', List.nil_subset _, List.nodup_nil, by simp, by simp⟩, rfl, rfl⟩, ?_, ?_,
    fun virt less _ => identity virt less, Or.inr rfl⟩
  · rintro frame ⟨path, length, reached⟩
    have member := mapped'.tree.handed path frame length reached
    have enough := low.enough
    rcases mapped'.owned.counted frame member with ⟨inLow, free, lower⟩ | many
    · exact ⟨contract.aligned mapped'.owned frame member, inLow, free, by omega⟩
    · omega
  · intro virt less path member
    obtain ⟨entry, found⟩ := identity virt less
    exact tableAt_of_walk found member

/-- Mapping pages of the heap within the first 16 MiB makes no tables. -/
theorem LowLoaded.kept {heap heap' : Heap (Phys Globals)} {handed handed' data data' : List Nat}
    {start first last : Nat}
    (inv : LowLoaded memmap hhdmOffset kVirtOffset root heap handed data)
    (backed : HeapBacked (LowInv memmap) root heap' handed' data')
    (kept : PagesKept root start first last heap.pages.mem heap'.pages.mem)
    (inside : ∀ i, first ≤ i → i < last →
      start + 4096 * i < mb 16 ∧ InHeap heap' (start + 4096 * i))
    (grows : ∀ virt, InHeap heap virt → InHeap heap' virt)
    (place : heap'.heapStart = 0x800000 ∨ heap'.heapEnd = 0) :
    LowLoaded memmap hhdmOffset kVirtOffset root heap' handed' data' := by
  have size : mb 16 = 16777216 := rfl
  have same := kept.tables fun i lower upper path member =>
    inv.present _ (inside i lower upper).1 path member
  refine ⟨backed, ?_, ?_, ?_, place⟩
  · rintro table ⟨path, length, reached⟩
    rw [← tableAt, same path length] at reached
    exact inv.tables table ⟨path, length, reached⟩
  · intro virt less path member
    rw [same path (prefixes_length member)]
    exact inv.present virt less path member
  · intro virt less outside
    have others := kept.others virt fun i lower upper samePage => by
      obtain ⟨low, atLeast, below⟩ := inside i lower upper
      have aligned := backed.aligned
      have bounds := backed.bounds
      unfold SamePage at samePage
      exact outside ⟨by omega, by omega⟩
    rw [others]
    exact inv.identity virt less fun inHeap => outside (grows virt inHeap)

theorem LoadedRun.lowLoaded {heap : Heap (Phys Globals)}
    (run : LoadedRun memmap hhdmOffset kVirtOffset root (TablesLow memmap hhdmOffset kVirtOffset)
      heap) :
    ∃ handed data heapLimit, LowLoaded memmap hhdmOffset kVirtOffset root heap handed data ∧
      TablesLow memmap hhdmOffset kVirtOffset heapLimit ∧ heap.heapEnd ≤ heapLimit := by
  have size : mb 16 = 16777216 := rfl
  induction run with
  | load word offset run meets =>
      obtain ⟨handed, inv⟩ := LowLoaded.load _ meets word offset run
      exact ⟨handed, [], _, inv, meets, Nat.zero_le _⟩
  | @initHeap heap heap' _ unset meets call ih =>
      obtain ⟨handed, data, _, inv, _, _⟩ := ih
      obtain ⟨handed', data', backed, startEq, endEq, kept⟩ :=
        inv.backed.initHeap (LowInv.contract meets.map) fewFrames_low call
      have nothing : ∀ virt, ¬InHeap heap virt := by
        rintro virt ⟨lower, upper⟩
        have place := inv.place
        omega
      refine ⟨handed', data', _, inv.kept backed kept ?_ (fun virt inHeap => absurd inHeap (nothing virt))
        (Or.inl startEq), meets, by omega⟩
      intro i lower upper
      exact ⟨by omega, by omega, by omega⟩
  | expandHeap _ set meets call ih =>
      obtain ⟨handed, data, _, inv, _, _⟩ := ih
      obtain ⟨handed', data', backed, startEq, endEq, kept⟩ :=
        inv.backed.expandHeap (LowInv.contract meets.map) fewFrames_low call
      have window := meets.window
      have bounds := backed.bounds
      refine ⟨handed', data', _, inv.kept backed kept ?_ ?_ ?_, meets, by omega⟩
      · intro i lower upper
        exact ⟨by omega, by omega, by omega⟩
      · rintro virt ⟨lower, upper⟩
        exact ⟨by omega, by omega⟩
      · have oldBounds := inv.backed.bounds
        rcases inv.place with start | ended
        · exact Or.inl (startEq.trans start)
        · omega
  | write _ changed ih =>
      obtain ⟨handed, data, heapLimit, inv, meets, upper⟩ := ih
      obtain ⟨backed, kept⟩ := inv.backed.write (LowInv.contract meets.map) changed
      exact ⟨handed, data, heapLimit, inv.kept backed kept (fun i lower upper => by omega)
        (fun _ inHeap => inHeap) inv.place, meets, upper⟩

/-- While the heap stays clear of the tables and of the end of the window, every table is
mapped to itself. -/
theorem loadedRun_tablesIdentity {heap : Heap (Phys Globals)}
    (run : LoadedRun memmap hhdmOffset kVirtOffset root (TablesLow memmap hhdmOffset kVirtOffset)
      heap) : TablesIdentity heap.pages.mem root := by
  obtain ⟨handed, data, heapLimit, inv, low, ends⟩ := run.lowLoaded
  intro table isTable
  obtain ⟨aligned, inLow, free, lower⟩ := inv.tables table isTable
  have size : mb 16 = 16777216 := rfl
  have count : lowFrameCount = 4096 := rfl
  have outside : ¬InHeap heap table := by
    rintro ⟨atLeast, below⟩
    have place := inv.place
    rcases low.apart (table / 4096) inLow free lower with under | beyond
    · omega
    · omega
  obtain ⟨entry, found⟩ := inv.identity table (by omega) outside
  rw [backing, found, Option.map_some, linkEntry_address entry (by omega), Option.some.injEq]
  omega

end

/-! Closed instances. -/

/-- One and a half MiB below the heap. -/
def lowMap : List MemmapEntry :=
  [{ base := 0x1000, length := 0x180000, type := limineMemmapUsable }]

theorem lowMap_tables :
    tablesNeeded poweredOn.globals.hhdmOffset kernelVirtualBase lowMap ≤ 17 :=
  bootTables_few lowMap poweredOn.globals.hhdmOffset kernelVirtualBase gapPaths (by decide)
    (by decide +kernel)

theorem lowMap_tablesLow (heapLimit : Nat) (window : heapLimit ≤ mb 16) :
    TablesLow lowMap poweredOn.globals.hhdmOffset kernelVirtualBase heapLimit := by
  have few := lowMap_tables
  refine ⟨⟨by decide, by decide⟩, window, ?_, ?_⟩
  · have some : 17 ≤ lowerFrames lowMap 65 := by decide +kernel
    have more := lowerFrames_mono lowMap (show 65 ≤ lowFrameCount by decide)
    omega
  · rintro index _ ⟨⟨entry, member, usable, lower, upper⟩, _⟩ _
    have ends : ∀ entry ∈ lowMap, entry.type = limineMemmapUsable →
        entry.base + entry.length ≤ 0x181000 := by decide
    have inside := ends entry member usable
    omega

/-- The heap is set up and grows by a page, and the tables are still where they were. -/
theorem loadedRun_tablesIdentity_lowMap :
    ∃ root heap, LoadedRun lowMap poweredOn.globals.hhdmOffset kernelVirtualBase root
        (TablesLow lowMap poweredOn.globals.hhdmOffset kernelVirtualBase) heap ∧
      heap.heapEnd = 0x901000 ∧ TablesIdentity heap.pages.mem root := by
  have valid : ValidMap lowMap := ⟨⟨by decide, by decide⟩, by decide⟩
  have room : supply lowMap = 380 := by decide
  have few := lowMap_tables
  have size : mb 16 = 16777216 := rfl
  obtain ⟨root, state', paging⟩ := bootPaging_of_paths lowMap gapPaths valid (by decide)
    gapPaths_length (by decide) (by decide +kernel) (by decide)
  obtain ⟨handed, mapped, count, low⟩ := bootPaging_frames valid (by decide) paging
  let heap : Heap (Phys Globals) :=
    { mem := fun _ => 0, heapStart := 0, heapEnd := 0, lastHdr := 0, pages := state' }
  have loaded : LoadedRun lowMap poweredOn.globals.hhdmOffset kernelVirtualBase root
      (TablesLow lowMap poweredOn.globals.hhdmOffset kernelVirtualBase) heap :=
    .load (by decide) rfl paging (lowMap_tablesLow 0x800000 (by decide))
  -- The first 256 pages.
  have present : ∀ i < 256, ∀ path ∈ prefixes (0x800000 + 4096 * i),
      (tableAt state'.mem root path).isSome :=
    fun i less path member => low (0x800000 + 4096 * i) (by omega) path member
  obtain ⟨returns, frames⟩ := mapPages_frames valid mapped present
  obtain ⟨pages, mappedPages⟩ := returns.mpr (by omega)
  obtain ⟨handed1, mapped1, count1, tables⟩ := frames pages mappedPages
  obtain ⟨heap1, init⟩ : ∃ heap1, initHeap (mapHeapPage root) heap 0x800000 256 = .ok heap1 :=
    initHeap_returns mappedPages
  obtain ⟨mappedAgain, startEq, endEq⟩ := initHeap_bounds init
  rw [mappedPages, Except.ok.injEq] at mappedAgain
  have started := LoadedRun.initHeap loaded rfl (lowMap_tablesLow 0x900000 (by decide)) init
  -- One more page.
  have end1 : heap1.heapEnd = 0x900000 := endEq
  have one : roundUp 1 0x1000 / 0x1000 = 1 := by decide
  have next : ∃ pages', mapPages (mapHeapPage root) (roundUp 1 0x1000 / 0x1000) heap1.heapEnd
      heap1.pages = .ok pages' := by
    rw [one, end1, ← mappedAgain]
    refine (mapPages_frames valid mapped1 fun i less path member => ?_).1.mpr (by omega)
    rw [tables path (prefixes_length member)]
    exact low (0x900000 + 4096 * i) (by omega) path member
  obtain ⟨pages', mappedPages'⟩ := next
  obtain ⟨heap2, grow⟩ := expandHeap_returns (by rw [end1]) mappedPages'
  obtain ⟨_, _, endEq2⟩ := expandHeap_bounds (by rw [end1]) grow
  rw [one, end1] at endEq2
  have grown := LoadedRun.expandHeap started (by rw [startEq]; decide)
    (by rw [one, end1]; exact lowMap_tablesLow 0x901000 (by decide)) grow
  exact ⟨root, heap2, grown, endEq2, loadedRun_tablesIdentity grown⟩

theorem highMap_root {root : Nat} {state' : Phys Globals} (valid : ValidMap highMap)
    (run : bootPaging poweredOn kernelVirtualBase highMap = .ok (root, state')) :
    0x1000000 ≤ root ∧ root < 0x1100000 := by
  obtain ⟨booted, rooted, boot, made, calls⟩ := bootPaging_steps run
  obtain ⟨mapped, _, _⟩ := newTable_mapped (FrameInv.contract valid)
    (FrameInv.init valid (by decide) boot) made
  obtain ⟨index, _, frameEq, ⟨entry, member, _, lower, upper⟩, _⟩ :=
    mapped.owned.usable root (by simp)
  rw [highMap, List.mem_singleton] at member
  have base : highEntry.base = 0x1000000 := rfl
  have length : highEntry.length = 0x100000 := rfl
  rw [member] at lower upper
  omega

theorem loadedRun_highMap :
    ∃ root heap, LoadedRun highMap poweredOn.globals.hhdmOffset kernelVirtualBase root
        (fun _ => True) heap ∧ ¬TablesIdentity heap.pages.mem root := by
  have valid : ValidMap highMap := ⟨⟨by decide, by decide⟩, by decide⟩
  obtain ⟨root, state', run⟩ := bootPaging_of_paths highMap highPaths
    valid (by decide) (by decide) (by decide) (by decide +kernel) (by decide)
  obtain ⟨lower, upper⟩ := highMap_root valid run
  obtain ⟨_, _, walks⟩ := bootPaging_mapped valid.below46 (by decide) run
  have unmapped : lastCall (bootCalls poweredOn.globals.hhdmOffset kernelVirtualBase highMap) root =
      none := by
    cases last : lastCall (bootCalls poweredOn.globals.hhdmOffset kernelVirtualBase highMap) root with
    | none => rfl
    | some phys =>
        obtain ⟨call, member, same, _⟩ := lastCall_some last
        unfold SamePage at same
        rcases List.mem_append.mp member with fromEntry | fromLow
        · obtain ⟨entry, entryMem, called⟩ := List.mem_flatMap.mp fromEntry
          obtain ⟨pageIdx, inRange, rfl⟩ := List.mem_map.mp called
          rw [highMap, List.mem_singleton] at entryMem
          subst entryMem
          have few := List.mem_range.mp inRange
          have pages : sizeInPages highEntry = 256 := rfl
          have notKernel : highEntry.type ≠ limineMemmapKernelAndModules := by decide
          have base : highEntry.base = 0x1000000 := rfl
          simp only [entryCall, if_neg notKernel, base, toVirt, add64, mul64, poweredOn] at same
          omega
        · obtain ⟨i, inRange, rfl⟩ := List.mem_map.mp fromLow
          have few := List.mem_range.mp inRange
          have count : mb 16 / 0x1000 = 4096 := rfl
          simp only at same
          omega
  refine ⟨root, { mem := fun _ => 0, heapStart := 0, heapEnd := 0, lastHdr := 0, pages := state' },
    .load (by decide) rfl run trivial, ?_⟩
  intro identity
  have found := identity root ⟨[], by decide, rfl⟩
  rw [backing, (walks root).2 unmapped] at found
  simp at found

end OkeOS
