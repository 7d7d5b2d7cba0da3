import OkeOS.BootCore
import OkeOS.HeapMalloc
import OkeOS.PagingRun

/-!
The pages of the heap: each is mapped to a frame of its own, and none of these frames is
a page table.
-/

namespace OkeOS

open ByteMemory PathTree PageDirectoryEntry PageFrameAllocator

/-- The address lies in a page of the heap. -/
def InHeap (heap : Heap (Phys Globals)) (virt : Nat) : Prop :=
  heap.heapStart ≤ virt ∧ virt < heap.heapEnd

/-- The frame that `virt` is mapped to. -/
def backing (mem : Memory) (root virt : Nat) : Option Nat :=
  (walk mem root virt).map fun entry => (getAddress entry).toNat * 4096

/-- The frame is a table that some path of at most three entries leads to. -/
def IsTable (mem : Memory) (root table : Nat) : Prop := Reached (edge mem) root 3 table

/-- The pages from `start` on are backed by `data`, and no table is among these frames. -/
structure Backed (Owned : Phys Globals → List Nat → Prop) (state : Phys Globals)
    (root start : Nat) (handed data : List Nat) : Prop where
  mapped : Mapped Owned state root handed
  owned : data ⊆ handed
  distinct : data.Nodup
  noTable : ∀ path table, path.length ≤ 3 → tableAt state.mem root path = some table → table ∉ data
  walks : ∀ i frame, data[i]? = some frame →
    ∃ entry, walk state.mem root (start + 4096 * i) = some (linkEntry entry frame)

/-- What mapping the pages from `first` to `last` of a range leaves as it is. -/
structure PagesKept (root start first last : Nat) (mem mem' : Memory) : Prop where
  others : ∀ virt, (∀ i, first ≤ i → i < last → ¬SamePage virt (start + 4096 * i)) →
    walk mem' root virt = walk mem root virt
  tables : (∀ i, first ≤ i → i < last → ∀ path ∈ prefixes (start + 4096 * i),
      (tableAt mem root path).isSome) →
    ∀ path : TablePath, path.length ≤ 3 → tableAt mem' root path = tableAt mem root path

theorem PagesKept.refl (root start first : Nat) (mem : Memory) :
    PagesKept root start first first mem mem :=
  ⟨fun _ _ => rfl, fun _ _ _ => rfl⟩

theorem PagesKept.trans {root start first middle last : Nat} {mem mem' mem'' : Memory}
    (left : PagesKept root start first middle mem mem')
    (right : PagesKept root start middle last mem' mem'') (lower : first ≤ middle)
    (upper : middle ≤ last) : PagesKept root start first last mem mem'' := by
  refine ⟨?_, ?_⟩
  · intro virt apart
    rw [right.others virt fun i least most => apart i (by omega) most]
    exact left.others virt fun i least most => apart i least (by omega)
  · intro present path length
    have same := left.tables fun i least most => present i least (by omega)
    have later := right.tables fun i least most target member => by
      rw [same target (prefixes_length member)]
      exact present i (by omega) most target member
    rw [later path length]
    exact same path length

section

variable {Owned : Phys Globals → List Nat → Prop} {state state' : Phys Globals} {root start : Nat}
  {handed data : List Nat}

/-- The callers never own so many frames that two pages of a range share their indices. -/
def FewFrames (Owned : Phys Globals → List Nat → Prop) : Prop :=
  ∀ state handed data, Owned state handed → data ⊆ handed → data.Nodup → data.length ≤ 2 ^ 35

theorem Backed.data_le (few : FewFrames Owned)
    (backed : Backed Owned state root start handed data) : data.length ≤ 2 ^ 35 :=
  few state handed data backed.mapped.owned backed.owned backed.distinct

theorem samePage_offset {first second : Nat} (firstBound : first ≤ 2 ^ 35)
    (secondBound : second ≤ 2 ^ 35)
    (same : SamePage (start + 4096 * first) (start + 4096 * second)) : first = second := by
  unfold SamePage at same
  omega

/-- Mapping a page that no page of the range shares keeps the range. -/
theorem Backed.map (contract : FrameContract requestPage Owned)
    (backed : Backed Owned state root start handed data) {virt phys : Nat}
    (apart : ∀ i < data.length, ¬SamePage (start + 4096 * i) virt)
    (run : mapMemory requestPage state root virt phys = .ok state') :
    ∃ handed', handed <:+ handed' ∧ Backed Owned state' root start handed' data := by
  obtain ⟨handed', mapped, step⟩ :=
    backed.mapped.mapMemory (contract) run
  refine ⟨handed', step.suffix, mapped, fun frame member => step.suffix.subset (backed.owned member),
    backed.distinct, ?_, ?_⟩
  · intro path table length reached
    rcases step.fresh path table length reached with old | new
    · exact backed.noTable path table length old
    · exact fun member => new (backed.owned member)
  · intro i frame at_
    obtain ⟨inside, _⟩ := List.getElem?_eq_some_iff.mp at_
    have others : lastCall [(virt, phys)] (start + 4096 * i) = none := by
      simp [lastCall, apart i inside]
    rw [step.others _ others]
    exact backed.walks i frame at_

theorem Backed.mapHeapPage (contract : FrameContract requestPage Owned)
    (few : FewFrames Owned)
    (backed : Backed Owned state root start handed data)
    (run : mapHeapPage root state (start + 4096 * data.length) = .ok state') :
    ∃ handed' frame, Backed Owned state' root start handed' (data ++ [frame]) ∧
      PagesKept root start data.length (data.length + 1) state.mem state'.mem := by
  obtain ⟨⟨frame, between⟩, request, run⟩ := Fault.peel run
  have short := backed.data_le few
  have notHanded := contract.fresh backed.mapped.owned request
  obtain ⟨mapped, tables, walks⟩ := backed.mapped.request contract request
  obtain ⟨handed', mapped', step⟩ := mapped.mapMemory contract run
  refine ⟨handed', frame, ⟨mapped', ?_, ?_, ?_, ?_⟩, ?_, ?_⟩
  · intro other member
    apply step.suffix.subset
    rcases List.mem_append.mp member with old | new
    · exact List.mem_cons_of_mem _ (backed.owned old)
    · rw [List.mem_singleton] at new
      simp [new]
  · refine List.nodup_append.mpr ⟨backed.distinct, List.nodup_singleton _, ?_⟩
    intro other old last isLast
    rw [List.mem_singleton] at isLast
    rintro rfl
    exact notHanded (isLast ▸ backed.owned old)
  · intro path table length reached member
    rcases step.fresh path table length reached with old | new
    · rw [tables path length] at old
      rcases List.mem_append.mp member with inData | isFrame
      · exact backed.noTable path table length old inData
      · rw [List.mem_singleton] at isFrame
        exact notHanded (isFrame ▸ backed.mapped.tree.handed path table length old)
    · apply new
      rcases List.mem_append.mp member with inData | isFrame
      · exact List.mem_cons_of_mem _ (backed.owned inData)
      · rw [List.mem_singleton] at isFrame
        simp [isFrame]
  · intro i other at_
    by_cases last : i = data.length
    · rw [last, List.getElem?_append_right (Nat.le_refl _), Nat.sub_self] at at_
      simp only [List.getElem?_cons_zero, Option.some.injEq] at at_
      subst at_
      rw [last]
      exact step.mapped _ _ (by simp [lastCall, SamePage])
    · obtain ⟨inside, _⟩ := List.getElem?_eq_some_iff.mp at_
      rw [List.length_append, List.length_singleton] at inside
      rw [List.getElem?_append_left (by omega)] at at_
      have apart : ¬SamePage (start + 4096 * i) (start + 4096 * data.length) :=
        fun same => last (samePage_offset (by omega) (by omega) same)
      rw [step.others _ (by simp [lastCall, apart]), walks]
      exact backed.walks i other at_
  · intro virt apart
    have different := apart data.length (Nat.le_refl _) (by omega)
    rw [step.others virt (by simp [lastCall, different]), walks]
  · intro present path length
    rw [step.same_tables mapped'.tree ?_ length, tables path length]
    intro call member target inPrefixes
    rw [List.mem_singleton] at member
    subst member
    rw [tables target (prefixes_length inPrefixes)]
    exact present data.length (Nat.le_refl _) (by omega) target inPrefixes

theorem Backed.mapPages (contract : FrameContract requestPage Owned)
    (few : FewFrames Owned) {pageCount : Nat}
    (backed : Backed Owned state root start handed data)
    (run : mapPages (OkeOS.mapHeapPage root) pageCount (start + 4096 * data.length) state =
      .ok state') :
    ∃ handed' more, more.length = pageCount ∧
      Backed Owned state' root start handed' (data ++ more) ∧
      PagesKept root start data.length (data.length + pageCount) state.mem state'.mem := by
  induction pageCount generalizing state handed data with
  | zero =>
      rw [OkeOS.mapPages, Except.ok.injEq] at run
      subst run
      exact ⟨handed, [], rfl, by rwa [List.append_nil], PagesKept.refl _ _ _ _⟩
  | succ pageCount ih =>
      obtain ⟨between, first, later⟩ := Fault.peel run
      obtain ⟨handed1, frame, backed1, kept1⟩ := backed.mapHeapPage contract few first
      have position : start + 4096 * data.length + 0x1000 =
          start + 4096 * (data ++ [frame]).length := by
        rw [List.length_append, List.length_singleton]
        omega
      rw [position] at later
      obtain ⟨handed', more, count, backed', kept'⟩ := ih backed1 later
      refine ⟨handed', frame :: more, by simp [count], ?_, ?_⟩
      · rwa [List.append_assoc, List.singleton_append] at backed'
      · rw [List.length_append, List.length_singleton] at kept'
        have kept := kept1.trans kept' (by omega) (by omega)
        rwa [show data.length + 1 + pageCount = data.length + (pageCount + 1) by omega] at kept

theorem Backed.backing (contract : FrameContract requestPage Owned)
    (backed : Backed Owned state root start handed data) (aligned : start % 4096 = 0)
    {virt : Nat} (lower : start ≤ virt) (upper : virt < start + 4096 * data.length) :
    ∃ frame, data[(virt - start) / 4096]? = some frame ∧
      OkeOS.backing state.mem root virt = some frame := by
  have inside : (virt - start) / 4096 < data.length := by omega
  obtain ⟨frame, at_⟩ : ∃ frame, data[(virt - start) / 4096]? = some frame :=
    ⟨_, List.getElem?_eq_getElem inside⟩
  have member := backed.owned (List.mem_of_getElem? at_)
  have frameAligned := contract.aligned backed.mapped.owned frame member
  have frameBound := contract.bound backed.mapped.owned frame member
  obtain ⟨entry, walked⟩ := backed.walks _ frame at_
  have same : SamePage virt (start + 4096 * ((virt - start) / 4096)) := by
    unfold SamePage
    omega
  refine ⟨frame, at_, ?_⟩
  rw [OkeOS.backing, walk_samePage same, walked, Option.map_some, linkEntry_address entry frameBound,
    Option.some.injEq]
  omega

theorem Backed.write (contract : FrameContract requestPage Owned)
    (backed : Backed Owned state root start handed data) {mem : Memory}
    (changed : ∀ address, mem address ≠ state.mem address →
      ∃ frame ∈ data, InFrame frame address) :
    Backed Owned { state with mem := mem } root start handed data ∧
      PagesKept root start data.length data.length state.mem mem := by
  have aligned := contract.aligned backed.mapped.owned
  have same : ∀ path table, path.length ≤ 3 → tableAt state.mem root path = some table →
      ∀ address, InFrame table address → mem address = state.mem address := by
    intro path table length reached address inside
    by_contra different
    obtain ⟨frame, member, inFrame⟩ := changed address different
    have equal := inFrame_unique (aligned table (backed.mapped.tree.handed path table length reached))
      (aligned frame (backed.owned member)) inside inFrame
    exact backed.noTable path table length reached (equal ▸ member)
  obtain ⟨tree, walks⟩ := backed.mapped.tree.of_same same
  refine ⟨⟨⟨contract.write backed.mapped.owned ?_, tree⟩, backed.owned, backed.distinct, ?_, ?_⟩,
    fun virt _ => walks virt, fun _ path length => tableAt_of_same same (by omega)⟩
  · intro address different
    obtain ⟨frame, member, inFrame⟩ := changed address different
    exact ⟨frame, backed.owned member, inFrame⟩
  · intro path table length reached
    rw [tableAt_of_same same (by omega)] at reached
    exact backed.noTable path table length reached
  · intro i frame at_
    rw [walks]
    exact backed.walks i frame at_

end

/-! What `initHeap` and `expandHeap` map. -/

/-- The heap is the range of pages that `data` backs. -/
structure HeapBacked (Owned : Phys Globals → List Nat → Prop) (root : Nat)
    (heap : Heap (Phys Globals)) (handed data : List Nat) : Prop where
  backed : Backed Owned heap.pages root heap.heapStart handed data
  aligned : heap.heapStart % 4096 = 0
  bounds : heap.heapEnd = heap.heapStart + 4096 * data.length

section

variable {Owned : Phys Globals → List Nat → Prop} {root : Nat} {heap heap' : Heap (Phys Globals)}
  {handed data : List Nat}

theorem initHeap_bounds {pageCount : Nat}
    (run : initHeap (mapHeapPage root) heap 0x800000 pageCount = .ok heap') :
    mapPages (mapHeapPage root) pageCount 0x800000 heap.pages = .ok heap'.pages ∧
      heap'.heapStart = 0x800000 ∧ heap'.heapEnd = 0x800000 + pageCount * 0x1000 % 2 ^ 64 := by
  obtain ⟨pages, mapped, run⟩ := Fault.peel run
  rw [Except.ok.injEq] at run
  rw [← run]
  exact ⟨mapped, rfl, rfl⟩

theorem initHeap_returns {pageCount : Nat} {pages : Phys Globals}
    (mapped : mapPages (mapHeapPage root) pageCount 0x800000 heap.pages = .ok pages) :
    ∃ heap', initHeap (mapHeapPage root) heap 0x800000 pageCount = .ok heap' := by
  rw [initHeap, mapped]
  exact ⟨_, rfl⟩

theorem HeapBacked.initHeap (contract : FrameContract requestPage Owned) (few : FewFrames Owned)
    {pageCount : Nat}
    (inv : HeapBacked Owned root heap handed data)
    (run : initHeap (mapHeapPage root) heap 0x800000 pageCount = .ok heap') :
    ∃ handed' data', HeapBacked Owned root heap' handed' data' ∧ heap'.heapStart = 0x800000 ∧
      heap'.heapEnd = 0x800000 + 4096 * pageCount ∧
      PagesKept root 0x800000 0 pageCount heap.pages.mem heap'.pages.mem := by
  obtain ⟨mapped, startEq, endEq⟩ := initHeap_bounds run
  have empty : Backed Owned heap.pages root 0x800000 handed [] :=
    ⟨inv.backed.mapped, List.nil_subset _, List.nodup_nil, by simp, by simp⟩
  obtain ⟨handed', more, count, backed, kept⟩ := empty.mapPages contract few mapped
  rw [List.nil_append] at backed
  have small := backed.data_le few
  rw [List.length_nil, Nat.zero_add] at kept
  refine ⟨handed', more, ⟨by rw [startEq]; exact backed, by rw [startEq], ?_⟩, startEq, ?_, kept⟩
  · rw [startEq, endEq]
    omega
  · rw [endEq]
    omega

theorem HeapBacked.expandHeap (contract : FrameContract requestPage Owned) (few : FewFrames Owned)
    {length : Nat}
    (inv : HeapBacked Owned root heap handed data)
    (run : expandHeap (mapHeapPage root) heap length = .ok heap') :
    ∃ handed' data', HeapBacked Owned root heap' handed' data' ∧
      heap'.heapStart = heap.heapStart ∧ heap'.heapEnd = heap.heapEnd + roundUp length 0x1000 / 0x1000 * 0x1000 ∧
      PagesKept root heap.heapStart data.length data'.length heap.pages.mem heap'.pages.mem := by
  have aligned := inv.aligned
  have bounds := inv.bounds
  obtain ⟨mapped, startEq, endEq⟩ := expandHeap_bounds (by omega) run
  rw [bounds] at mapped
  obtain ⟨handed', more, count, backed, kept⟩ := inv.backed.mapPages contract few mapped
  refine ⟨handed', data ++ more, ⟨by rw [startEq]; exact backed, by rw [startEq]; exact aligned, ?_⟩,
    startEq, endEq, ?_⟩
  · rw [startEq, endEq, List.length_append, count]
    omega
  · rw [List.length_append, count]
    exact kept

theorem HeapBacked.write (contract : FrameContract requestPage Owned)
    (inv : HeapBacked Owned root heap handed data) {mem : Memory}
    (changed : ∀ address, mem address ≠ heap.pages.mem address → ∃ virt frame, InHeap heap virt ∧
      backing heap.pages.mem root virt = some frame ∧ InFrame frame address) :
    HeapBacked Owned root { heap with pages := { heap.pages with mem := mem } } handed data ∧
      PagesKept root heap.heapStart data.length data.length heap.pages.mem mem := by
  suffices written : ∀ address, mem address ≠ heap.pages.mem address →
      ∃ frame ∈ data, InFrame frame address by
    obtain ⟨backed, kept⟩ := inv.backed.write contract written
    exact ⟨⟨backed, inv.aligned, inv.bounds⟩, kept⟩
  intro address different
  obtain ⟨virt, frame, ⟨lower, upper⟩, found, inside⟩ := changed address different
  rw [inv.bounds] at upper
  obtain ⟨owner, at_, ownerFound⟩ := inv.backed.backing contract inv.aligned lower upper
  rw [found, Option.some.injEq] at ownerFound
  exact ⟨owner, List.mem_of_getElem? at_, ownerFound ▸ inside⟩

end

end OkeOS
