import OkeOS.BootCore
import OkeOS.PagingRun

/-!
What the boot mapping loops leave in the page tables: every page is mapped by the last
call made for it, so the direct map holds exactly the pages that some entry counts.
-/

namespace OkeOS

open ByteMemory PageDirectoryEntry PageFrameAllocator

theorem lastCall_some {calls : List (Nat × Nat)} {virt phys : Nat}
    (last : lastCall calls virt = some phys) :
    ∃ call ∈ calls, SamePage virt call.1 ∧ call.2 = phys := by
  induction calls with
  | nil => simp [lastCall] at last
  | cons call rest ih =>
      rw [lastCall] at last
      cases later : lastCall rest virt with
      | some found =>
          rw [later, Option.some_or] at last
          obtain ⟨other, member, found⟩ := ih (later.trans last)
          exact ⟨other, by simp [member], found⟩
      | none =>
          rw [later, Option.none_or] at last
          split at last
          · rename_i same
            exact ⟨call, by simp, same, Option.some.inj last⟩
          · simp at last

theorem lastCall_of_mem {calls : List (Nat × Nat)} {virt : Nat} {call : Nat × Nat}
    (member : call ∈ calls) (same : SamePage virt call.1) :
    ∃ phys, lastCall calls virt = some phys := by
  induction calls with
  | nil => simp at member
  | cons first rest ih =>
      rw [lastCall]
      cases later : lastCall rest virt with
      | some found => exact ⟨found, rfl⟩
      | none =>
          rcases List.mem_cons.mp member with rfl | inRest
          · exact ⟨call.2, by simp [same]⟩
          · obtain ⟨phys, found⟩ := ih inRest
            rw [later] at found
            simp at found

section

variable {memmap : List MemmapEntry} {state state' : Phys Globals} {kVirtOffset root : Nat}

/-- The three steps of a boot that goes through. -/
theorem bootPaging_steps (run : bootPaging state kVirtOffset memmap = .ok (root, state')) :
    ∃ booted rooted, init state memmap = .ok booted ∧
      newTable requestPage booted = .ok (root, rooted) ∧
      mapAll requestPage rooted root (bootCalls state.globals.hhdmOffset kVirtOffset memmap) =
        .ok state' := by
  obtain ⟨booted, boot, run⟩ := Fault.peel run
  obtain ⟨⟨table, rooted⟩, made, run⟩ := Fault.peel run
  obtain ⟨after, calls, run⟩ := Fault.peel run
  simp only [Except.ok.injEq, Prod.mk.injEq] at run
  obtain ⟨rfl, rfl⟩ := run
  exact ⟨booted, rooted, boot, made, calls⟩

theorem bootPaging_mapped (map : MapBelow memmap (2 ^ 46 - 1))
    (word : state.globals.hhdmOffset < 2 ^ 64)
    (run : bootPaging state kVirtOffset memmap = .ok (root, state')) :
    ∃ handed, Mapped Owned state' root handed ∧
      ∀ virt, (∀ phys, lastCall (bootCalls state.globals.hhdmOffset kVirtOffset memmap) virt =
          some phys → ∃ entry, walk state'.mem root virt = some (linkEntry entry phys)) ∧
        (lastCall (bootCalls state.globals.hhdmOffset kVirtOffset memmap) virt = none →
          walk state'.mem root virt = none) := by
  obtain ⟨booted, rooted, boot, made, calls⟩ := bootPaging_steps run
  obtain ⟨mapped, _, zero⟩ := newTable_mapped PageFrameAllocator.contract
    (init_owned map word boot) made
  obtain ⟨handed, mapped', steps⟩ := mapped.mapAll PageFrameAllocator.contract calls
  refine ⟨handed, mapped', fun virt => ⟨steps.mapped virt, ?_⟩⟩
  intro none
  rw [steps.others virt none]
  exact walk_zeroed zero virt

theorem bootPaging_total (valid : ValidMap memmap) (word : state.globals.hhdmOffset < 2 ^ 64)
    (found : (largestFreeSegment memmap).1 ≠ 0) {paths : List TablePath}
    (lengths : ∀ path ∈ paths, path.length ≤ 3)
    (needed : ∀ call ∈ bootCalls state.globals.hhdmOffset kVirtOffset memmap,
      ∀ path ∈ prefixes call.1, path ∈ paths)
    (enough : 1 + paths.length ≤ supply memmap) :
    ∃ root state', bootPaging state kVirtOffset memmap = .ok (root, state') := by
  obtain ⟨booted, boot⟩ := init_succeeds memmap state found
  have inv := FrameInv.init valid word boot
  obtain ⟨root, rooted, made⟩ := newTable_total valid inv (by rw [List.length_nil]; omega)
  obtain ⟨mapped, _, _⟩ := newTable_mapped (FrameInv.contract valid) inv made
  have few : missing rooted.mem root paths ≤ paths.length := List.countP_le_length
  obtain ⟨after, calls⟩ := mapped.mapAll_total (FrameInv.contract valid)
    (fun _ _ inv few => inv.supplied valid few) lengths needed
    (by rw [List.length_singleton]; omega)
  refine ⟨root, after, ?_⟩
  simp only [bootPaging, boot, made, calls, Bind.bind, Except.bind]

end

/-! The direct map. -/

/-- The direct map window meets neither the kernel window nor the first 16 MiB. -/
structure Windows (hhdmOffset kVirtOffset : Nat) (memmap : List MemmapEntry) : Prop where
  word : hhdmOffset < 2 ^ 64
  aligned : hhdmOffset % 4096 = 0
  low : ∀ address < 2 ^ 46, ∀ other < mb 16, ¬SamePage (toVirt hhdmOffset address) other
  kernel : ∀ address < 2 ^ 46, ∀ entry ∈ memmap, entry.type = limineMemmapKernelAndModules →
    ∀ pageIdx < sizeInPages entry,
      ¬SamePage (toVirt hhdmOffset address) (add64 kVirtOffset (mul64 pageIdx 4096))

/-- Some entry that the direct map holds counts the page among its pages. -/
def PageCounted (memmap : List MemmapEntry) (page : Nat) : Prop :=
  ∃ entry ∈ memmap, entry.type ≠ limineMemmapKernelAndModules ∧ entry.base / 4096 ≤ page ∧
    page < entry.base / 4096 + sizeInPages entry

/-- Every byte of every entry but the kernel's is reached through the direct map. -/
def DirectMapCovers (mem : Memory) (root hhdmOffset : Nat) (memmap : List MemmapEntry) : Prop :=
  ∀ entry ∈ memmap, entry.type ≠ limineMemmapKernelAndModules → ∀ address, entry.base ≤ address →
    address < entry.base + entry.length →
    ∃ found, walk mem root (toVirt hhdmOffset address) = some found ∧
      (getAddress found).toNat = address / 4096

section

variable {memmap : List MemmapEntry} {state state' : Phys Globals}
  {hhdmOffset kVirtOffset root : Nat}

theorem sizeInPages_bounds (entry : MemmapEntry) :
    entry.length ≤ 4096 * sizeInPages entry ∧ 4096 * sizeInPages entry < entry.length + 4096 := by
  unfold sizeInPages
  split <;> omega

theorem samePage_toVirt {first second : Nat} (aligned : hhdmOffset % 4096 = 0)
    (firstBound : first < 2 ^ 46) (secondBound : second < 2 ^ 46) :
    SamePage (toVirt hhdmOffset first) (toVirt hhdmOffset second) ↔ first / 4096 = second / 4096 := by
  simp only [SamePage, toVirt, add64]
  omega

theorem entryCall_phys (map : MapBelow memmap (2 ^ 46 - 1)) {entry : MemmapEntry}
    (member : entry ∈ memmap) {pageIdx : Nat} (inside : pageIdx < sizeInPages entry) :
    add64 entry.base (mul64 pageIdx 4096) = entry.base + 4096 * pageIdx ∧
      entry.base + 4096 * pageIdx < 2 ^ 46 := by
  have ends := map.ends entry member
  have pages := (sizeInPages_bounds entry).2
  have product : mul64 pageIdx 4096 = 4096 * pageIdx := by
    rw [mul64, Nat.mod_eq_of_lt (by omega), Nat.mul_comm]
  rw [product, add64_of_lt (by omega)]
  exact ⟨rfl, by omega⟩

/-- The calls for a page of the direct map are those of the entries that count it. -/
theorem bootCalls_direct (map : MapBelow memmap (2 ^ 46 - 1))
    (windows : Windows hhdmOffset kVirtOffset memmap) {address : Nat} (bound : address < 2 ^ 46)
    {call : Nat × Nat} (member : call ∈ bootCalls hhdmOffset kVirtOffset memmap)
    (same : SamePage (toVirt hhdmOffset address) call.1) :
    call.2 < 2 ^ 46 ∧ call.2 / 4096 = address / 4096 ∧ PageCounted memmap (address / 4096) := by
  rcases List.mem_append.mp member with fromEntry | low
  · obtain ⟨entry, entryMem, called⟩ := List.mem_flatMap.mp fromEntry
    obtain ⟨pageIdx, inRange, rfl⟩ := List.mem_map.mp called
    have inside := List.mem_range.mp inRange
    obtain ⟨physEq, physBound⟩ := entryCall_phys map entryMem inside
    by_cases kernel : entry.type = limineMemmapKernelAndModules
    · simp only [entryCall, kernel, if_true] at same
      exact absurd same (windows.kernel address bound entry entryMem kernel pageIdx inside)
    · simp only [entryCall, kernel, if_false, physEq] at same ⊢
      rw [samePage_toVirt windows.aligned bound physBound] at same
      exact ⟨physBound, same.symm, entry, entryMem, kernel, by omega, by omega⟩
  · obtain ⟨i, inRange, rfl⟩ := List.mem_map.mp low
    have inside := List.mem_range.mp inRange
    have small : mb 16 = 16777216 := rfl
    exact absurd same (windows.low address bound _ (by omega))

theorem bootCalls_of_counted (map : MapBelow memmap (2 ^ 46 - 1))
    (windows : Windows hhdmOffset kVirtOffset memmap) {address : Nat} (bound : address < 2 ^ 46)
    (counted : PageCounted memmap (address / 4096)) :
    ∃ call ∈ bootCalls hhdmOffset kVirtOffset memmap,
      SamePage (toVirt hhdmOffset address) call.1 := by
  obtain ⟨entry, member, notKernel, lower, upper⟩ := counted
  obtain ⟨pageIdx, pageEq⟩ : ∃ pageIdx, address / 4096 = entry.base / 4096 + pageIdx :=
    ⟨address / 4096 - entry.base / 4096, by omega⟩
  have inside : pageIdx < sizeInPages entry := by omega
  obtain ⟨physEq, physBound⟩ := entryCall_phys map member inside
  refine ⟨entryCall hhdmOffset kVirtOffset entry pageIdx, ?_, ?_⟩
  · apply List.mem_append_left
    exact List.mem_flatMap.mpr ⟨entry, member, List.mem_map.mpr ⟨pageIdx, List.mem_range.mpr inside, rfl⟩⟩
  · simp only [entryCall, notKernel, if_false, physEq]
    rw [samePage_toVirt windows.aligned bound physBound]
    omega

theorem walk_toVirt (map : MapBelow memmap (2 ^ 46 - 1))
    (windows : Windows state.globals.hhdmOffset kVirtOffset memmap)
    (run : bootPaging state kVirtOffset memmap = .ok (root, state')) {address : Nat}
    (bound : address < 2 ^ 46) :
    (∃ found, walk state'.mem root (toVirt state.globals.hhdmOffset address) = some found ∧
      (getAddress found).toNat = address / 4096) ↔ PageCounted memmap (address / 4096) := by
  obtain ⟨_, _, walks⟩ := bootPaging_mapped map windows.word run
  obtain ⟨mapped, absent⟩ := walks (toVirt state.globals.hhdmOffset address)
  constructor
  · rintro ⟨found, walked, _⟩
    cases last : lastCall (bootCalls state.globals.hhdmOffset kVirtOffset memmap)
        (toVirt state.globals.hhdmOffset address) with
    | none =>
        rw [absent last] at walked
        simp at walked
    | some phys =>
        obtain ⟨call, member, same, _⟩ := lastCall_some last
        exact (bootCalls_direct map windows bound member same).2.2
  · intro counted
    obtain ⟨call, member, same⟩ := bootCalls_of_counted map windows bound counted
    obtain ⟨phys, last⟩ := lastCall_of_mem member same
    obtain ⟨other, otherMem, otherSame, rfl⟩ := lastCall_some last
    obtain ⟨physBound, physPage, _⟩ := bootCalls_direct map windows bound otherMem otherSame
    obtain ⟨entry, walked⟩ := mapped other.2 last
    refine ⟨_, walked, ?_⟩
    rw [linkEntry_address entry (by omega), physPage]

/-- Only the last page of an entry can be missing from the direct map. -/
theorem counted_of_last {entry : MemmapEntry} (member : entry ∈ memmap)
    (notKernel : entry.type ≠ limineMemmapKernelAndModules) {address : Nat}
    (lower : entry.base ≤ address) (upper : address < entry.base + entry.length)
    (last : PageCounted memmap ((entry.base + entry.length - 1) / 4096)) :
    PageCounted memmap (address / 4096) := by
  have pages := sizeInPages_bounds entry
  by_cases own : address / 4096 < entry.base / 4096 + sizeInPages entry
  · exact ⟨entry, member, notKernel, by omega, own⟩
  · have same : address / 4096 = (entry.base + entry.length - 1) / 4096 := by omega
    rw [same]
    exact last

/-- The direct map covers every entry if and only if the last page of every entry is
counted by some entry. -/
theorem directMapCovers_iff (map : MapBelow memmap (2 ^ 46 - 1))
    (windows : Windows state.globals.hhdmOffset kVirtOffset memmap)
    (run : bootPaging state kVirtOffset memmap = .ok (root, state')) :
    DirectMapCovers state'.mem root state.globals.hhdmOffset memmap ↔
      ∀ entry ∈ memmap, entry.type ≠ limineMemmapKernelAndModules → 0 < entry.length →
        PageCounted memmap ((entry.base + entry.length - 1) / 4096) := by
  constructor
  · intro covers entry member notKernel positive
    have ends := map.ends entry member
    exact (walk_toVirt map windows run (by omega)).mp
      (covers entry member notKernel (entry.base + entry.length - 1) (by omega) (by omega))
  · intro last entry member notKernel address lower upper
    have ends := map.ends entry member
    exact (walk_toVirt map windows run (by omega)).mpr
      (counted_of_last member notKernel lower upper (last entry member notKernel (by omega)))

end

/-! Closed instances. -/

/-- The tables that map the first 16 MiB. -/
def lowPaths : List TablePath :=
  [[0], [0, 0], [0, 0, 0], [0, 0, 1], [0, 0, 2], [0, 0, 3], [0, 0, 4], [0, 0, 5], [0, 0, 6],
    [0, 0, 7]]

theorem lowPaths_complete : ∀ last : Fin 8, ∀ path ∈ ([[0], [0, 0],
    [0, 0, Fin.castLE (by decide) last]] : List TablePath), path ∈ lowPaths := by
  decide

theorem lowCalls_prefixes : ∀ call ∈ lowCalls, ∀ path ∈ prefixes call.1, path ∈ lowPaths := by
  intro call member path inPrefixes
  obtain ⟨i, inRange, rfl⟩ := List.mem_map.mp member
  have inside := List.mem_range.mp inRange
  have small : mb 16 / 0x1000 = 4096 := rfl
  rw [small] at inside
  have top : indexAt (i * 0x1000) 39 = 0 :=
    Fin.ext (show i * 0x1000 / 2 ^ 39 % 512 = 0 by omega)
  have middle : indexAt (i * 0x1000) 30 = 0 :=
    Fin.ext (show i * 0x1000 / 2 ^ 30 % 512 = 0 by omega)
  have bottom : indexAt (i * 0x1000) 21 = Fin.castLE (by decide) (⟨i / 512, by omega⟩ : Fin 8) :=
    Fin.ext (show i * 0x1000 / 2 ^ 21 % 512 = i / 512 by omega)
  simp only [prefixes, tablePath, top, middle, bottom] at inPrefixes
  exact lowPaths_complete _ path inPrefixes

/-- A reserved entry that starts in the middle of a page, after usable memory. -/
def gapMap : List MemmapEntry :=
  [{ base := 0x1000, length := 0x40000, type := limineMemmapUsable },
   { base := 0x100800, length := 0x1000, type := 1 },
   { base := 0x200000, length := 0x1000, type := limineMemmapKernelAndModules }]

/-- The same memory with the reserved entry at a page boundary. -/
def evenMap : List MemmapEntry :=
  [{ base := 0x1000, length := 0x40000, type := limineMemmapUsable },
   { base := 0x100000, length := 0x1000, type := 1 },
   { base := 0x200000, length := 0x1000, type := limineMemmapKernelAndModules }]

def gapPaths : List TablePath :=
  [[256], [256, 0], [256, 0, 0], [511], [511, 510], [511, 510, 0]] ++ lowPaths

theorem gapPaths_length : ∀ path ∈ gapPaths, path.length ≤ 3 := by decide

theorem gapMap_below : MapBelow gapMap (2 ^ 46 - 1) := ⟨by decide, by decide⟩

theorem evenMap_below : MapBelow evenMap (2 ^ 46 - 1) := ⟨by decide, by decide⟩

def highEntry : MemmapEntry :=
  { base := 0x1000000, length := 0x100000, type := limineMemmapUsable }

/-- All usable memory lies above the first 16 MiB. -/
def highMap : List MemmapEntry := [highEntry]

def highPaths : List TablePath := [[256], [256, 0], [256, 0, 8]] ++ lowPaths

def kernelVirtualBase : Nat := 0xffffffff80000000

theorem windows_of_kernel (memmap : List MemmapEntry)
    (small : ∀ entry ∈ memmap, entry.type = limineMemmapKernelAndModules →
      sizeInPages entry ≤ 0x1000) :
    Windows poweredOn.globals.hhdmOffset kernelVirtualBase memmap := by
  refine ⟨by decide, by decide, ?_, ?_⟩
  · intro address bound other less
    have size : mb 16 = 16777216 := rfl
    simp only [SamePage, toVirt, add64, poweredOn]
    omega
  · intro address bound entry member kernel pageIdx inside
    have few := small entry member kernel
    simp only [SamePage, toVirt, add64, mul64, poweredOn, kernelVirtualBase]
    omega

theorem bootPaging_of_paths (memmap : List MemmapEntry) (paths : List TablePath)
    (valid : ValidMap memmap) (found : (largestFreeSegment memmap).1 ≠ 0)
    (lengths : ∀ path ∈ paths, path.length ≤ 3) (low : ∀ path ∈ lowPaths, path ∈ paths)
    (entries : ∀ call ∈ memmap.flatMap (entryCalls poweredOn.globals.hhdmOffset kernelVirtualBase),
      ∀ path ∈ prefixes call.1, path ∈ paths)
    (enough : 1 + paths.length ≤ supply memmap) :
    ∃ root state', bootPaging poweredOn kernelVirtualBase memmap = .ok (root, state') := by
  refine bootPaging_total valid (by decide) found lengths ?_ enough
  intro call member path inPrefixes
  rcases List.mem_append.mp member with fromEntry | fromLow
  · exact entries call fromEntry path inPrefixes
  · exact low path (lowCalls_prefixes call fromLow path inPrefixes)

theorem directMapCovers_gapMap :
    MapBelow gapMap (2 ^ 46 - 1) ∧
      Windows poweredOn.globals.hhdmOffset kernelVirtualBase gapMap ∧
      ∃ root state', bootPaging poweredOn kernelVirtualBase gapMap = .ok (root, state') ∧
        ¬DirectMapCovers state'.mem root poweredOn.globals.hhdmOffset gapMap := by
  have windows := windows_of_kernel gapMap (by decide)
  obtain ⟨root, state', run⟩ := bootPaging_of_paths gapMap gapPaths
    ⟨⟨by decide, by decide⟩, by decide⟩ (by decide) gapPaths_length (by decide) (by decide +kernel)
    (by decide)
  refine ⟨gapMap_below, windows, root, state', run, ?_⟩
  intro covers
  have bound : 0x1017ff < 2 ^ 46 := by decide
  have counted := (walk_toVirt gapMap_below windows run bound).mp
    (covers { base := 0x100800, length := 0x1000, type := 1 } (by decide) (by decide) 0x1017ff
      (by decide) (by decide))
  have uncounted : ∀ entry ∈ gapMap, ¬(entry.type ≠ limineMemmapKernelAndModules ∧
      entry.base / 4096 ≤ 0x1017ff / 4096 ∧
      0x1017ff / 4096 < entry.base / 4096 + sizeInPages entry) := by decide
  obtain ⟨entry, member, inside⟩ := counted
  exact uncounted entry member inside

theorem directMapCovers_evenMap :
    ∃ root state', bootPaging poweredOn kernelVirtualBase evenMap = .ok (root, state') ∧
      DirectMapCovers state'.mem root poweredOn.globals.hhdmOffset evenMap := by
  have windows := windows_of_kernel evenMap (by decide)
  obtain ⟨root, state', run⟩ := bootPaging_of_paths evenMap gapPaths
    ⟨⟨by decide, by decide⟩, by decide⟩ (by decide) gapPaths_length (by decide) (by decide +kernel)
    (by decide)
  refine ⟨root, state', run, (directMapCovers_iff evenMap_below windows run).mpr ?_⟩
  intro entry member notKernel _
  have counted : ∀ entry ∈ evenMap, entry.type ≠ limineMemmapKernelAndModules →
      entry.base / 4096 ≤ (entry.base + entry.length - 1) / 4096 ∧
      (entry.base + entry.length - 1) / 4096 < entry.base / 4096 + sizeInPages entry := by decide
  exact ⟨entry, member, notKernel, counted entry member notKernel⟩

end OkeOS
