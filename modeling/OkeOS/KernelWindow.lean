import Mathlib.Data.List.Pairwise
import OkeOS.BootMap

/-!
Where the boot loops leave the kernel.  Every kernel or module entry is mapped from
`mem_kVirtOffset` on, so the pages of the image stay in place only while all of them start
on the same page.
-/

namespace OkeOS

open ByteMemory PageDirectoryEntry PageFrameAllocator

/-- The kernel as the bootloader reports it. -/
structure KernelImage where
  physicalBase : Nat
  size : Nat
  positive : 0 < size

namespace KernelImage

def pages (image : KernelImage) : Nat := (image.size + 4095) / 4096

/-- Every byte of the image lies in an entry of the kernel and its modules. -/
def Inside (image : KernelImage) (memmap : List MemmapEntry) : Prop :=
  ∀ address, image.physicalBase ≤ address → address < image.physicalBase + image.size →
    ∃ entry ∈ memmap, entry.type = limineMemmapKernelAndModules ∧ entry.base ≤ address ∧
      address < entry.base + entry.length

/-- Every page of the image is found in the kernel window. -/
def Mapped (image : KernelImage) (mem : Memory) (root kVirtOffset : Nat) : Prop :=
  ∀ i < image.pages, ∃ found, walk mem root (kVirtOffset + 4096 * i) = some found ∧
    (getAddress found).toNat = (image.physicalBase + 4096 * i) / 4096

/-- No call moves a page of the window to another frame than an earlier call did. -/
def NeverMoved (image : KernelImage) (kVirtOffset : Nat) (calls : List (Nat × Nat)) : Prop :=
  ∀ i < image.pages, calls.Pairwise fun earlier later =>
    SamePage (kVirtOffset + 4096 * i) earlier.1 → SamePage (kVirtOffset + 4096 * i) later.1 →
      earlier.2 / 4096 = later.2 / 4096

/-- The window of the image meets neither the direct map nor the first 16 MiB. -/
structure WindowApart (image : KernelImage) (hhdmOffset kVirtOffset : Nat) : Prop where
  word : hhdmOffset < 2 ^ 64
  low : ∀ i < image.pages, ∀ other < mb 16, ¬SamePage (kVirtOffset + 4096 * i) other
  direct : ∀ i < image.pages, ∀ address < 2 ^ 46,
    ¬SamePage (kVirtOffset + 4096 * i) (toVirt hhdmOffset address)

/-- The entries of the kernel and its modules all start on the first page of the image, and
one of them has as many pages as the image. -/
structure Placed (image : KernelImage) (memmap : List MemmapEntry) : Prop where
  same : ∀ entry ∈ memmap, entry.type = limineMemmapKernelAndModules → 0 < sizeInPages entry →
    entry.base / 4096 = image.physicalBase / 4096
  covers : ∃ entry ∈ memmap, entry.type = limineMemmapKernelAndModules ∧
    image.pages ≤ sizeInPages entry

variable {image : KernelImage} {memmap : List MemmapEntry} {hhdmOffset kVirtOffset : Nat}

theorem pages_pos (image : KernelImage) : 0 < image.pages := by
  have positive := image.positive
  unfold pages
  omega

theorem Inside.pages_le (inside : image.Inside memmap) (map : MapBelow memmap (2 ^ 46 - 1)) :
    image.pages ≤ 2 ^ 34 := by
  have positive := image.positive
  obtain ⟨entry, member, _, _, upper⟩ :=
    inside (image.physicalBase + image.size - 1) (by omega) (by omega)
  have ends := map.ends entry member
  unfold pages
  omega

theorem entryCall_window (hhdmOffset kVirtOffset : Nat) (map : MapBelow memmap (2 ^ 46 - 1)) {entry : MemmapEntry}
    (member : entry ∈ memmap) (kernel : entry.type = limineMemmapKernelAndModules) {i : Nat}
    (inside : i < sizeInPages entry) :
    SamePage (kVirtOffset + 4096 * i) (entryCall hhdmOffset kVirtOffset entry i).1 ∧
      (entryCall hhdmOffset kVirtOffset entry i).2 = entry.base + 4096 * i := by
  obtain ⟨physEq, physBound⟩ := entryCall_phys map member inside
  simp only [entryCall, kernel, if_true, physEq, and_true]
  simp only [SamePage, add64, mul64]
  omega

theorem entryCall_mem {entry : MemmapEntry} (member : entry ∈ memmap) {i : Nat}
    (inside : i < sizeInPages entry) :
    entryCall hhdmOffset kVirtOffset entry i ∈ bootCalls hhdmOffset kVirtOffset memmap :=
  List.mem_append_left _ (List.mem_flatMap.mpr
    ⟨entry, member, List.mem_map.mpr ⟨i, List.mem_range.mpr inside, rfl⟩⟩)

/-- The calls for page `i` of the window are those for page `i` of the kernel's entries. -/
theorem bootCalls_window (map : MapBelow memmap (2 ^ 46 - 1)) (inside : image.Inside memmap)
    (apart : image.WindowApart hhdmOffset kVirtOffset) {i : Nat} (below : i < image.pages)
    {call : Nat × Nat} (member : call ∈ bootCalls hhdmOffset kVirtOffset memmap)
    (same : SamePage (kVirtOffset + 4096 * i) call.1) :
    ∃ entry ∈ memmap, entry.type = limineMemmapKernelAndModules ∧ i < sizeInPages entry ∧
      call.2 = entry.base + 4096 * i ∧ call.2 < 2 ^ 46 := by
  rcases List.mem_append.mp member with fromEntry | fromLow
  · obtain ⟨entry, entryMem, called⟩ := List.mem_flatMap.mp fromEntry
    obtain ⟨pageIdx, inRange, rfl⟩ := List.mem_map.mp called
    have counted := List.mem_range.mp inRange
    obtain ⟨physEq, physBound⟩ := entryCall_phys map entryMem counted
    by_cases kernel : entry.type = limineMemmapKernelAndModules
    · obtain ⟨own, phys⟩ := entryCall_window hhdmOffset kVirtOffset map entryMem kernel counted
      have few := inside.pages_le map
      have indexEq : pageIdx = i := by
        unfold SamePage at own same
        omega
      subst indexEq
      exact ⟨entry, entryMem, kernel, counted, phys, by omega⟩
    · simp only [entryCall, kernel, if_false, physEq] at same
      exact absurd same (apart.direct i below _ physBound)
  · obtain ⟨index, inRange, rfl⟩ := List.mem_map.mp fromLow
    have bound := List.mem_range.mp inRange
    have size : mb 16 = 16777216 := rfl
    exact absurd same (apart.low i below _ (by omega))

theorem lastCall_window (apart : image.WindowApart hhdmOffset kVirtOffset) {i : Nat}
    (below : i < image.pages) :
    lastCall (bootCalls hhdmOffset kVirtOffset memmap) (kVirtOffset + 4096 * i) =
      lastCall (memmap.flatMap (entryCalls hhdmOffset kVirtOffset)) (kVirtOffset + 4096 * i) := by
  have size : mb 16 = 16777216 := rfl
  rw [bootCalls, lastCall_append]
  cases last : lastCall lowCalls (kVirtOffset + 4096 * i) with
  | none => rfl
  | some phys =>
      obtain ⟨call, member, same, _⟩ := lastCall_some last
      obtain ⟨index, inRange, rfl⟩ := List.mem_map.mp member
      have bound := List.mem_range.mp inRange
      exact absurd same (apart.low i below _ (by omega))

/-- A page of the window is mapped by some entry that counts it. -/
theorem walk_window {state state' : Phys Globals} {root : Nat} (map : MapBelow memmap (2 ^ 46 - 1))
    (inside : image.Inside memmap) (apart : image.WindowApart state.globals.hhdmOffset kVirtOffset)
    (run : bootPaging state kVirtOffset memmap = .ok (root, state')) {i : Nat}
    (below : i < image.pages) {found : BitVec 64}
    (walked : walk state'.mem root (kVirtOffset + 4096 * i) = some found) :
    ∃ entry ∈ memmap, entry.type = limineMemmapKernelAndModules ∧ i < sizeInPages entry ∧
      (getAddress found).toNat = (entry.base + 4096 * i) / 4096 := by
  obtain ⟨_, _, walks⟩ := bootPaging_mapped map apart.word run
  obtain ⟨mapped, absent⟩ := walks (kVirtOffset + 4096 * i)
  cases last : lastCall (bootCalls state.globals.hhdmOffset kVirtOffset memmap)
      (kVirtOffset + 4096 * i) with
  | none =>
      rw [absent last] at walked
      simp at walked
  | some phys =>
      obtain ⟨call, member, same, rfl⟩ := lastCall_some last
      obtain ⟨entry, entryMem, kernel, counted, physEq, physBound⟩ :=
        bootCalls_window map inside apart below member same
      obtain ⟨link, linked⟩ := mapped call.2 last
      rw [linked, Option.some.injEq] at walked
      subst walked
      exact ⟨entry, entryMem, kernel, counted, by rw [linkEntry_address link (by omega), physEq]⟩

/-- If no call moves a page of the window, all nonempty entries start on the same page. -/
theorem NeverMoved.base_eq (map : MapBelow memmap (2 ^ 46 - 1))
    (still : image.NeverMoved kVirtOffset (bootCalls hhdmOffset kVirtOffset memmap))
    {first second : MemmapEntry} (firstMem : first ∈ memmap) (secondMem : second ∈ memmap)
    (firstKernel : first.type = limineMemmapKernelAndModules)
    (secondKernel : second.type = limineMemmapKernelAndModules)
    (firstPages : 0 < sizeInPages first) (secondPages : 0 < sizeInPages second) :
    first.base / 4096 = second.base / 4096 := by
  obtain ⟨firstSame, firstPhys⟩ :=
    entryCall_window hhdmOffset kVirtOffset map firstMem firstKernel firstPages
  obtain ⟨secondSame, secondPhys⟩ :=
    entryCall_window hhdmOffset kVirtOffset map secondMem secondKernel secondPages
  have still0 := still 0 image.pages_pos
  have agree := still0.forall_of_forall_of_flip (fun _ _ _ _ => rfl)
    (still0.imp fun relate left right => (relate right left).symm)
    (entryCall_mem firstMem firstPages) (entryCall_mem secondMem secondPages) firstSame secondSame
  rw [firstPhys, secondPhys] at agree
  omega

theorem Placed.neverMoved (map : MapBelow memmap (2 ^ 46 - 1)) (inside : image.Inside memmap)
    (apart : image.WindowApart hhdmOffset kVirtOffset) (placed : image.Placed memmap) :
    image.NeverMoved kVirtOffset (bootCalls hhdmOffset kVirtOffset memmap) := by
  intro i below
  refine List.pairwise_of_forall_mem_list ?_
  intro earlier earlierMem later laterMem earlierSame laterSame
  obtain ⟨first, firstMem, firstKernel, firstPages, firstPhys, _⟩ :=
    bootCalls_window map inside apart below earlierMem earlierSame
  obtain ⟨second, secondMem, secondKernel, secondPages, secondPhys, _⟩ :=
    bootCalls_window map inside apart below laterMem laterSame
  have firstBase := placed.same first firstMem firstKernel (by omega)
  have secondBase := placed.same second secondMem secondKernel (by omega)
  omega

theorem Placed.mapped {state state' : Phys Globals} {root : Nat}
    (map : MapBelow memmap (2 ^ 46 - 1)) (inside : image.Inside memmap)
    (apart : image.WindowApart state.globals.hhdmOffset kVirtOffset)
    (run : bootPaging state kVirtOffset memmap = .ok (root, state'))
    (placed : image.Placed memmap) : image.Mapped state'.mem root kVirtOffset := by
  intro i below
  obtain ⟨largest, largestMem, kernel, enough⟩ := placed.covers
  have counted : i < sizeInPages largest := by omega
  obtain ⟨same, _⟩ :=
    entryCall_window state.globals.hhdmOffset kVirtOffset map largestMem kernel counted
  obtain ⟨phys, last⟩ := lastCall_of_mem (entryCall_mem largestMem counted) same
  obtain ⟨_, _, walks⟩ := bootPaging_mapped map apart.word run
  obtain ⟨link, linked⟩ := (walks (kVirtOffset + 4096 * i)).1 phys last
  obtain ⟨entry, entryMem, entryKernel, entryPages, addressEq⟩ :=
    walk_window map inside apart run below linked
  have base := placed.same entry entryMem entryKernel (by omega)
  exact ⟨_, linked, by omega⟩

/-- The boot loops keep the kernel in its window if and only if all entries of the kernel
and its modules start on the first page of the image and one of them is as large. -/
theorem mapped_iff_placed {state state' : Phys Globals} {root : Nat} (map : MapBelow memmap (2 ^ 46 - 1))
    (inside : image.Inside memmap) (apart : image.WindowApart state.globals.hhdmOffset kVirtOffset)
    (run : bootPaging state kVirtOffset memmap = .ok (root, state')) :
    (image.Mapped state'.mem root kVirtOffset ∧
        image.NeverMoved kVirtOffset (bootCalls state.globals.hhdmOffset kVirtOffset memmap)) ↔
      image.Placed memmap := by
  constructor
  · rintro ⟨mapped, still⟩
    have positive := image.pages_pos
    obtain ⟨_, firstWalk, firstAddress⟩ := mapped 0 positive
    obtain ⟨first, firstMem, firstKernel, firstPages, firstBase⟩ :=
      walk_window map inside apart run positive firstWalk
    obtain ⟨_, lastWalk, _⟩ := mapped (image.pages - 1) (by omega)
    obtain ⟨last, lastMem, lastKernel, lastPages, _⟩ :=
      walk_window map inside apart run (by omega) lastWalk
    refine ⟨?_, last, lastMem, lastKernel, by omega⟩
    intro entry member kernel nonempty
    have base := still.base_eq map member firstMem kernel firstKernel nonempty firstPages
    omega
  · intro placed
    exact ⟨placed.mapped map inside apart run, placed.neverMoved map inside apart⟩

end KernelImage

/-! Closed instances. -/

/-- One page of kernel at 2 MiB. -/
def smallKernel : KernelImage := { physicalBase := 0x200000, size := 0x1000, positive := by decide }

theorem smallKernel_apart :
    smallKernel.WindowApart poweredOn.globals.hhdmOffset kernelVirtualBase := by
  have pages : smallKernel.pages = 1 := rfl
  have size : mb 16 = 16777216 := rfl
  refine ⟨by decide, ?_, ?_⟩
  · intro i below other less
    simp only [SamePage, kernelVirtualBase]
    omega
  · intro i below address bound
    simp only [SamePage, toVirt, add64, poweredOn, kernelVirtualBase]
    omega

theorem smallKernel_inside {memmap : List MemmapEntry}
    (member : { base := 0x200000, length := 0x1000, type := limineMemmapKernelAndModules } ∈ memmap) :
    smallKernel.Inside memmap := by
  intro address lower upper
  exact ⟨_, member, rfl, lower, upper⟩

/-- A kernel with one module behind it. -/
def moduleMap : List MemmapEntry :=
  [{ base := 0x1000, length := 0x40000, type := limineMemmapUsable },
   { base := 0x200000, length := 0x1000, type := limineMemmapKernelAndModules },
   { base := 0x300000, length := 0x1000, type := limineMemmapKernelAndModules }]

theorem kernelImage_evenMap :
    smallKernel.Placed evenMap ∧
      ∃ root state', bootPaging poweredOn kernelVirtualBase evenMap = .ok (root, state') ∧
        smallKernel.Mapped state'.mem root kernelVirtualBase ∧ smallKernel.NeverMoved kernelVirtualBase
          (bootCalls poweredOn.globals.hhdmOffset kernelVirtualBase evenMap) := by
  obtain ⟨root, state', run⟩ := bootPaging_of_paths evenMap gapPaths
    ⟨⟨by decide, by decide⟩, by decide⟩ (by decide) gapPaths_length (by decide) (by decide +kernel)
    (by decide)
  have placed : smallKernel.Placed evenMap := ⟨by decide, by decide⟩
  exact ⟨placed, root, state', run, (KernelImage.mapped_iff_placed evenMap_below
    (smallKernel_inside (by decide)) smallKernel_apart run).mpr placed⟩

theorem kernelImage_moduleMap :
    MapBelow moduleMap (2 ^ 46 - 1) ∧ smallKernel.Inside moduleMap ∧
      smallKernel.WindowApart poweredOn.globals.hhdmOffset kernelVirtualBase ∧
      ∃ root state', bootPaging poweredOn kernelVirtualBase moduleMap = .ok (root, state') ∧
        ¬smallKernel.Mapped state'.mem root kernelVirtualBase := by
  have below : MapBelow moduleMap (2 ^ 46 - 1) := ⟨by decide, by decide⟩
  have inside : smallKernel.Inside moduleMap := smallKernel_inside (by decide)
  obtain ⟨root, state', run⟩ := bootPaging_of_paths moduleMap gapPaths
    ⟨⟨by decide, by decide⟩, by decide⟩ (by decide) gapPaths_length (by decide) (by decide +kernel)
    (by decide)
  refine ⟨below, inside, smallKernel_apart, root, state', run, ?_⟩
  intro mapped
  obtain ⟨found, walked, address⟩ := mapped 0 (by decide)
  obtain ⟨_, _, walks⟩ := bootPaging_mapped below (by decide) run
  obtain ⟨link, linked⟩ := (walks (kernelVirtualBase + 4096 * 0)).1 0x300000
    (by rw [KernelImage.lastCall_window smallKernel_apart (by decide)]; decide +kernel)
  rw [linked, Option.some.injEq] at walked
  rw [← walked, linkEntry_address link (by decide)] at address
  revert address
  decide

end OkeOS
