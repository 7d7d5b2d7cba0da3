import Mathlib.Data.List.Dedup
import OkeOS.BootMap
import OkeOS.HeapPages

/-!
The paging stage of `_start` to the frame: what it takes from the allocator depends on the
memory map alone, so it can be told which memory is enough for it.  The pages of the heap
take the frames that are left.
-/

namespace OkeOS

open ByteMemory PathTree PageDirectoryEntry PageFrameAllocator

/-- The paths of the tables under the root that the boot loops need. -/
def bootTables (hhdmOffset kVirtOffset : Nat) (memmap : List MemmapEntry) : List TablePath :=
  ((bootCalls hhdmOffset kVirtOffset memmap).flatMap fun call => prefixes call.1).dedup

/-- The number of tables that the boot loops leave, the root included. -/
def tablesNeeded (hhdmOffset kVirtOffset : Nat) (memmap : List MemmapEntry) : Nat :=
  1 + (bootTables hhdmOffset kVirtOffset memmap).length

/-! The calls of the boot loops and the tables on their way. -/

section

variable {memmap : List MemmapEntry} {hhdmOffset kVirtOffset : Nat}

theorem mem_bootTables {path : TablePath} :
    path ∈ bootTables hhdmOffset kVirtOffset memmap ↔
      ∃ call ∈ bootCalls hhdmOffset kVirtOffset memmap, path ∈ prefixes call.1 := by
  rw [bootTables, List.mem_dedup, List.mem_flatMap]

theorem prefixes_pos {virt : Nat} {path : TablePath} (member : path ∈ prefixes virt) :
    0 < path.length := by
  simp only [prefixes, tablePath, List.mem_cons, List.not_mem_nil, or_false] at member
  rcases member with rfl | rfl | rfl <;> simp

theorem bootTables_length {path : TablePath}
    (member : path ∈ bootTables hhdmOffset kVirtOffset memmap) :
    0 < path.length ∧ path.length ≤ 3 := by
  obtain ⟨call, _, inPrefixes⟩ := mem_bootTables.mp member
  exact ⟨prefixes_pos inPrefixes, prefixes_length inPrefixes⟩

theorem bootTables_few (memmap : List MemmapEntry) (hhdmOffset kVirtOffset : Nat)
    (paths : List TablePath) (low : ∀ path ∈ lowPaths, path ∈ paths)
    (entries : ∀ call ∈ memmap.flatMap (entryCalls hhdmOffset kVirtOffset),
      ∀ path ∈ prefixes call.1, path ∈ paths) :
    tablesNeeded hhdmOffset kVirtOffset memmap ≤ 1 + paths.length := by
  have subset : bootTables hhdmOffset kVirtOffset memmap ⊆ paths := by
    intro path member
    obtain ⟨call, inCalls, inPrefixes⟩ := mem_bootTables.mp member
    rcases List.mem_append.mp inCalls with fromEntry | fromLow
    · exact entries call fromEntry path inPrefixes
    · exact low path (lowCalls_prefixes call fromLow path inPrefixes)
  have distinct : (bootTables hhdmOffset kVirtOffset memmap).Nodup := List.nodup_dedup _
  have short := (List.subperm_of_subset distinct subset).length_le
  rw [tablesNeeded]
  omega

/-- The low calls come last and map every page to itself. -/
theorem lastCall_low {virt : Nat} (low : virt < mb 16) :
    lastCall (bootCalls hhdmOffset kVirtOffset memmap) virt = some (4096 * (virt / 4096)) := by
  have size : mb 16 = 16777216 := rfl
  have member : (virt / 4096 * 0x1000, virt / 4096 * 0x1000) ∈ lowCalls :=
    List.mem_map.mpr ⟨virt / 4096, List.mem_range.mpr (by omega), rfl⟩
  obtain ⟨phys, last⟩ := lastCall_of_mem member
    (show SamePage virt (virt / 4096 * 0x1000) by unfold SamePage; omega)
  obtain ⟨call, inCalls, same, physEq⟩ := lastCall_some last
  obtain ⟨i, inRange, rfl⟩ := List.mem_map.mp inCalls
  have bound := List.mem_range.mp inRange
  unfold SamePage at same
  rw [bootCalls, lastCall_append, last, Option.some_or, Option.some.injEq]
  simp only at physEq same
  omega

/-- The calls of the boot loops stay below the addresses that an entry can hold. -/
theorem bootCalls_phys (map : MapBelow memmap (2 ^ 46 - 1)) {call : Nat × Nat}
    (member : call ∈ bootCalls hhdmOffset kVirtOffset memmap) : call.2 < 2 ^ 46 := by
  rcases List.mem_append.mp member with fromEntry | fromLow
  · obtain ⟨entry, entryMem, called⟩ := List.mem_flatMap.mp fromEntry
    obtain ⟨pageIdx, inRange, rfl⟩ := List.mem_map.mp called
    obtain ⟨physEq, physBound⟩ := entryCall_phys map entryMem (List.mem_range.mp inRange)
    exact physEq.trans_lt physBound
  · obtain ⟨i, inRange, rfl⟩ := List.mem_map.mp fromLow
    have inside := List.mem_range.mp inRange
    have small : mb 16 = 16777216 := rfl
    simp only
    omega

end

/-! The frames handed out are as many as the allocator has, at most. -/

section

variable {memmap : List MemmapEntry} {state state' : Phys Globals} {handed : List Nat}
  {root frame : Nat}

theorem PageFrameAllocator.FrameInv.few_of_request (inv : FrameInv memmap state handed)
    (valid : ValidMap memmap) (run : requestPage state = .ok (frame, state')) :
    handed.length < supply memmap := by
  obtain ⟨_, _, _, _, _, enough, _⟩ := inv.request_index valid run
  have counter := inv.counter
  rw [supply]
  omega

/-- The invariant of the allocator, before it reports that it is out of memory. -/
structure Limited (memmap : List MemmapEntry) (state : Phys Globals) (handed : List Nat) :
    Prop where
  inv : FrameInv memmap state handed
  few : handed.length ≤ supply memmap

theorem Limited.contract (valid : ValidMap memmap) :
    FrameContract requestPage (Limited memmap) where
  request := fun limited run => ⟨limited.inv.request valid run, limited.inv.few_of_request valid run⟩
  fresh := fun limited run => (FrameInv.contract valid).fresh limited.inv run
  keeps := fun limited run => (FrameInv.contract valid).keeps limited.inv run
  write := fun limited changed => ⟨(FrameInv.contract valid).write limited.inv changed, limited.few⟩
  aligned := fun limited => (FrameInv.contract valid).aligned limited.inv
  bound := fun limited => (FrameInv.contract valid).bound limited.inv

/-- Every table has a frame of its own, and so has the root. -/
theorem TableTree.tables_le {mem : Memory} {paths : List TablePath}
    (tree : TableTree mem root handed) (distinct : paths.Nodup)
    (lengths : ∀ path ∈ paths, 0 < path.length ∧ path.length ≤ 3)
    (present : ∀ path ∈ paths, (tableAt mem root path).isSome) :
    1 + paths.length ≤ handed.length := by
  have short : ∀ path ∈ [] :: paths, path.length ≤ 3 := by
    intro path member
    rcases List.mem_cons.mp member with rfl | inPaths
    · exact Nat.zero_le 3
    · exact (lengths path inPaths).2
  have some : ∀ path ∈ [] :: paths, ∃ table, tableAt mem root path = some table := by
    intro path member
    rcases List.mem_cons.mp member with rfl | inPaths
    · exact ⟨root, rfl⟩
    · exact Option.isSome_iff_exists.mp (present path inPaths)
  have nodup : (([] :: paths).map (tableAt mem root)).Nodup := by
    refine List.Nodup.map_on ?_ (List.nodup_cons.mpr ⟨?_, distinct⟩)
    · intro first firstMem second secondMem same
      obtain ⟨table, reached⟩ := some first firstMem
      exact tree.unique first second table (short first firstMem) (short second secondMem) reached
        (same.symm.trans reached)
    · intro member
      exact absurd (lengths [] member).1 (Nat.lt_irrefl 0)
  have subset : ([] :: paths).map (tableAt mem root) ⊆ handed.map Option.some := by
    intro found member
    obtain ⟨path, inPaths, rfl⟩ := List.mem_map.mp member
    obtain ⟨table, reached⟩ := some path inPaths
    rw [reached]
    exact List.mem_map.mpr ⟨table, tree.handed path table (short path inPaths) reached, rfl⟩
  have le := (List.subperm_of_subset nodup subset).length_le
  rw [List.length_map, List.length_map, List.length_cons] at le
  omega

/-! The page tables. -/

theorem tableAt_of_walk {mem : Memory} {virt : Nat} {entry : BitVec 64}
    (found : walk mem root virt = some entry) {path : TablePath} (member : path ∈ prefixes virt) :
    (tableAt mem root path).isSome := by
  obtain ⟨rest, split⟩ : ∃ rest, tablePath virt = path ++ rest := by
    simp only [prefixes, List.mem_cons, List.not_mem_nil, or_false] at member
    rcases member with rfl | rfl | rfl
    · exact ⟨_, rfl⟩
    · exact ⟨_, rfl⟩
    · exact ⟨[], (List.append_nil _).symm⟩
  cases reached : tableAt mem root path with
  | some table => rfl
  | none =>
      have missing : tableAt mem root (tablePath virt) = none := by
        rw [split, tableAt, follow_append, show follow (edge mem) root path = none from reached]
        rfl
      rw [walk_eq, leaf_none _ missing] at found
      simp at found

/-- The boot loops take a frame for each of their tables, and no others. -/
theorem bootPaging_frames {kVirtOffset : Nat} (valid : ValidMap memmap)
    (word : state.globals.hhdmOffset < 2 ^ 64)
    (run : bootPaging state kVirtOffset memmap = .ok (root, state')) :
    ∃ handed, Mapped (Limited memmap) state' root handed ∧
      handed.length = tablesNeeded state.globals.hhdmOffset kVirtOffset memmap ∧
      ∀ virt < mb 16, ∀ path ∈ prefixes virt, (tableAt state'.mem root path).isSome := by
  obtain ⟨booted, rooted, boot, made, calls⟩ := bootPaging_steps run
  have start : Limited memmap booted [] := ⟨.init valid word boot, Nat.zero_le _⟩
  obtain ⟨mapped, _, _⟩ := newTable_mapped (Limited.contract valid) start made
  obtain ⟨handed, mapped', steps⟩ := mapped.mapAll (Limited.contract valid) calls
  have present (virt phys : Nat)
      (last : lastCall (bootCalls state.globals.hhdmOffset kVirtOffset memmap) virt = some phys) :
      ∀ path ∈ prefixes virt, (tableAt state'.mem root path).isSome := by
    obtain ⟨entry, found⟩ := steps.mapped virt phys last
    exact fun path member => tableAt_of_walk found member
  have all : ∀ path ∈ bootTables state.globals.hhdmOffset kVirtOffset memmap,
      (tableAt state'.mem root path).isSome := by
    intro path member
    obtain ⟨call, inCalls, inPrefixes⟩ := mem_bootTables.mp member
    obtain ⟨phys, last⟩ := lastCall_of_mem inCalls (show SamePage call.1 call.1 from rfl)
    exact present call.1 phys last path inPrefixes
  have cost := steps.cost (bootTables state.globals.hhdmOffset kVirtOffset memmap)
    (fun path member => (bootTables_length member).2)
    fun call member path inPrefixes => mem_bootTables.mpr ⟨call, member, inPrefixes⟩
  have few : missing rooted.mem root (bootTables state.globals.hhdmOffset kVirtOffset memmap) ≤
      (bootTables state.globals.hhdmOffset kVirtOffset memmap).length := List.countP_le_length
  have distinct : (bootTables state.globals.hhdmOffset kVirtOffset memmap).Nodup :=
    List.nodup_dedup _
  have many := mapped'.tree.tables_le distinct (fun path => bootTables_length) all
  have needed : tablesNeeded state.globals.hhdmOffset kVirtOffset memmap =
      1 + (bootTables state.globals.hhdmOffset kVirtOffset memmap).length := rfl
  rw [List.length_singleton] at cost
  refine ⟨handed, mapped', ?_, fun virt less => present virt _ (lastCall_low less)⟩
  omega

/-- Every address is translated as the last call for its page says, or not at all. -/
theorem bootPaging_backing {kVirtOffset : Nat} (map : MapBelow memmap (2 ^ 46 - 1))
    (word : state.globals.hhdmOffset < 2 ^ 64)
    (run : bootPaging state kVirtOffset memmap = .ok (root, state')) (virt : Nat) :
    backing state'.mem root virt =
      (lastCall (bootCalls state.globals.hhdmOffset kVirtOffset memmap) virt).map
        fun phys => phys / 4096 * 4096 := by
  obtain ⟨_, _, walks⟩ := bootPaging_mapped map word run
  obtain ⟨mapped, absent⟩ := walks virt
  cases last : lastCall (bootCalls state.globals.hhdmOffset kVirtOffset memmap) virt with
  | none => rw [backing, absent last, Option.map_none, Option.map_none]
  | some phys =>
      obtain ⟨call, member, _, rfl⟩ := lastCall_some last
      obtain ⟨entry, found⟩ := mapped call.2 last
      have bound := bootCalls_phys map member
      rw [backing, found, Option.map_some, linkEntry_address entry (by omega), Option.map_some]

/-- The boot loops go through exactly when the largest usable entry, less the frames that the
allocator keeps back, holds the bitmap and the page tables.  Then these frames are taken and no
others, every table lies in usable memory and not on the bitmap, and every address is translated
as the last call for its page says. -/
theorem bootPaging_returns_iff {kVirtOffset : Nat} (valid : ValidMap memmap)
    (word : state.globals.hhdmOffset < 2 ^ 64) :
    ((∃ result, bootPaging state kVirtOffset memmap = .ok result) ↔
        (largestFreeSegment memmap).1 ≠ 0 ∧
        tablesNeeded state.globals.hhdmOffset kVirtOffset memmap ≤ supply memmap) ∧
      ∀ globalPageTable state',
        bootPaging state kVirtOffset memmap = .ok (globalPageTable, state') →
        getFreeRAM state' + 4096 * (bitmapSizeInPages memmap +
          tablesNeeded state.globals.hhdmOffset kVirtOffset memmap) =
            (largestFreeSegment memmap).2 ∧
        (∀ table, IsTable state'.mem globalPageTable table →
          ∃ index, table = 4096 * index ∧ UsableFrame memmap index ∧
            ¬BitmapFrame memmap index) ∧
        ∀ virt, backing state'.mem globalPageTable virt =
          (lastCall (bootCalls state.globals.hhdmOffset kVirtOffset memmap) virt).map
            fun phys => phys / 4096 * 4096 := by
  constructor
  · constructor
    · rintro ⟨⟨root, state'⟩, run⟩
      obtain ⟨handed, mapped, count, _⟩ := bootPaging_frames valid word run
      obtain ⟨booted, _, boot, _⟩ := bootPaging_steps run
      rw [← count]
      exact ⟨(init_ok boot).1, mapped.owned.few⟩
    · rintro ⟨found, enough⟩
      obtain ⟨root, state', run⟩ :
          ∃ root state', bootPaging state kVirtOffset memmap = .ok (root, state') :=
        bootPaging_total valid word found (fun path member => (bootTables_length member).2)
          (fun call member path inPrefixes => mem_bootTables.mpr ⟨call, member, inPrefixes⟩)
          enough
      exact ⟨(root, state'), run⟩
  · intro root state' run
    obtain ⟨handed, mapped, count, _⟩ := bootPaging_frames valid word run
    have counter := mapped.owned.inv.counter
    rw [count] at counter
    refine ⟨counter, ?_, bootPaging_backing valid.below46 word run⟩
    rintro table ⟨path, length, reached⟩
    have member := mapped.tree.handed path table length reached
    obtain ⟨index, _, tableEq, usable, notBitmap⟩ := mapped.owned.inv.usable table member
    exact ⟨index, tableEq, usable, notBitmap⟩

/-- The four pages of usable memory that leave nothing for a table. -/
def fourPages : List MemmapEntry :=
  [{ base := 0x1000, length := 0x4000, type := limineMemmapUsable }]

/-- The 64 pages of the one map are enough, the four of the other are not. -/
theorem bootPaging_returns_evenMap :
    (∃ globalPageTable state',
        bootPaging poweredOn kernelVirtualBase evenMap = .ok (globalPageTable, state') ∧
        backing state'.mem globalPageTable 0x5123 = some 0x5000) ∧
      ¬∃ result, bootPaging poweredOn kernelVirtualBase fourPages = .ok result := by
  have few := bootTables_few evenMap poweredOn.globals.hhdmOffset kernelVirtualBase gapPaths
    (by decide) (by decide +kernel)
  have plenty : supply evenMap = 60 := by decide
  have none : supply fourPages = 0 := by decide
  obtain ⟨returns, results⟩ := @bootPaging_returns_iff evenMap poweredOn
    kernelVirtualBase ⟨⟨by decide, by decide⟩, by decide⟩ (by decide)
  constructor
  · obtain ⟨⟨root, state'⟩, run⟩ := returns.mpr ⟨by decide, plenty ▸ few.trans (by decide)⟩
    obtain ⟨_, _, translated⟩ := results root state' run
    refine ⟨root, state', run, ?_⟩
    rw [translated, lastCall_low (by decide)]
    rfl
  · intro result
    have room := ((bootPaging_returns_iff ⟨⟨by decide, by decide⟩, by decide⟩
      (by decide)).1.mp result).2
    rw [none, tablesNeeded] at room
    omega

/-! The pages of the heap, whose tables exist. -/

theorem mapHeapPage_frames {pos : Nat} (valid : ValidMap memmap)
    (mapped : Mapped (Limited memmap) state root handed)
    (present : ∀ path ∈ prefixes pos, (tableAt state.mem root path).isSome)
    (run : mapHeapPage root state pos = .ok state') :
    ∃ handed', Mapped (Limited memmap) state' root handed' ∧
      handed'.length = handed.length + 1 ∧
      ∀ path : TablePath, path.length ≤ 3 →
        tableAt state'.mem root path = tableAt state.mem root path := by
  obtain ⟨⟨frame, between⟩, request, call⟩ := Fault.peel run
  obtain ⟨requested, tables, _⟩ := mapped.request (Limited.contract valid) request
  obtain ⟨handed', mapped', step⟩ := requested.mapMemory (Limited.contract valid) call
  have still : ∀ path ∈ prefixes pos, (tableAt between.mem root path).isSome := by
    intro path member
    rw [tables path (prefixes_length member)]
    exact present path member
  have none := missing_eq_zero still
  have cost := step.cost (prefixes pos) (fun path member => prefixes_length member) (by simp)
  have grows := step.suffix.length_le
  rw [List.length_cons] at cost grows
  refine ⟨handed', mapped', by omega, fun path length => ?_⟩
  rw [step.same_tables mapped'.tree (by simpa using still) length, tables path length]

theorem mapHeapPage_returns (pos : Nat) (valid : ValidMap memmap)
    (mapped : Mapped (Limited memmap) state root handed)
    (present : ∀ path ∈ prefixes pos, (tableAt state.mem root path).isSome)
    (enough : handed.length < supply memmap) :
    ∃ state', mapHeapPage root state pos = .ok state' := by
  obtain ⟨frame, between, request⟩ := mapped.owned.inv.supplied valid enough
  obtain ⟨requested, tables, _⟩ := mapped.request (Limited.contract valid) request
  have none : missing between.mem root (prefixes pos) = 0 := by
    refine missing_eq_zero fun path member => ?_
    rw [tables path (prefixes_length member)]
    exact present path member
  obtain ⟨after, call⟩ := requested.mapMemory_total pos frame (Limited.contract valid)
    (fun _ _ limited few => limited.inv.supplied valid few)
    (fun _ member => prefixes_length member) (fun _ member => member)
    (by rw [List.length_cons]; omega)
  refine ⟨after, ?_⟩
  rw [mapHeapPage, request]
  exact call

/-- Each page takes one frame, and the pages are mapped exactly when there are as many. -/
theorem mapPages_frames {pageCount pos : Nat} (valid : ValidMap memmap)
    (mapped : Mapped (Limited memmap) state root handed)
    (present : ∀ i < pageCount, ∀ path ∈ prefixes (pos + 4096 * i),
      (tableAt state.mem root path).isSome) :
    ((∃ state', mapPages (mapHeapPage root) pageCount pos state = .ok state') ↔
        handed.length + pageCount ≤ supply memmap) ∧
      ∀ state', mapPages (mapHeapPage root) pageCount pos state = .ok state' →
        ∃ handed', Mapped (Limited memmap) state' root handed' ∧
          handed'.length = handed.length + pageCount ∧
          ∀ path : TablePath, path.length ≤ 3 →
            tableAt state'.mem root path = tableAt state.mem root path := by
  induction pageCount generalizing pos state handed with
  | zero =>
      refine ⟨iff_of_true ⟨state, rfl⟩ mapped.owned.few, fun state' run => ?_⟩
      cases run
      exact ⟨handed, mapped, rfl, fun _ _ => rfl⟩
  | succ pageCount ih =>
      have first := present 0 (Nat.zero_lt_succ _)
      rw [Nat.mul_zero, Nat.add_zero] at first
      have step {between : Phys Globals} (page : mapHeapPage root state pos = .ok between) :
          ((∃ state', mapPages (mapHeapPage root) pageCount (pos + 0x1000) between = .ok state') ↔
              handed.length + 1 + pageCount ≤ supply memmap) ∧
            ∀ state', mapPages (mapHeapPage root) pageCount (pos + 0x1000) between = .ok state' →
              ∃ handed', Mapped (Limited memmap) state' root handed' ∧
                handed'.length = handed.length + 1 + pageCount ∧
                ∀ path : TablePath, path.length ≤ 3 →
                  tableAt state'.mem root path = tableAt state.mem root path := by
        obtain ⟨handed1, mapped1, count, tables⟩ := mapHeapPage_frames valid mapped first page
        obtain ⟨returns, frames⟩ := ih mapped1 fun i less path member => by
          rw [tables path (prefixes_length member)]
          refine present (i + 1) (by omega) path ?_
          rwa [show pos + 4096 * (i + 1) = pos + 0x1000 + 4096 * i by omega]
        rw [← count]
        refine ⟨returns, fun state' run => ?_⟩
        obtain ⟨handed', mapped', count', tables'⟩ := frames state' run
        exact ⟨handed', mapped', count',
          fun path length => (tables' path length).trans (tables path length)⟩
      have total : handed.length + (pageCount + 1) = handed.length + 1 + pageCount := by omega
      rw [total]
      constructor
      · constructor
        · rintro ⟨state', run⟩
          obtain ⟨between, page, run⟩ := Fault.peel run
          exact (step page).1.mp ⟨state', run⟩
        · intro room
          obtain ⟨between, page⟩ := mapHeapPage_returns pos valid mapped first (by omega)
          obtain ⟨state', run⟩ := (step page).1.mpr room
          refine ⟨state', ?_⟩
          rw [mapPages, page]
          exact run
      · intro state' run
        obtain ⟨between, page, run⟩ := Fault.peel run
        exact (step page).2 state' run

end

end OkeOS
