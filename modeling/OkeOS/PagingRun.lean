import OkeOS.PagingMap
import OkeOS.PfaRun

/-!
Runs of `PageTable_MapMemory` from a zeroed root, for any allocator that meets the
contract, and the real allocator as one of them.
-/

namespace OkeOS

open ByteMemory PathTree PageDirectoryEntry

theorem TableTree.zeroed {mem : Memory} {root : Nat} {handed : List Nat} (member : root ∈ handed)
    (zero : ∀ address, InFrame root address → mem address = 0) : TableTree mem root handed := by
  have empty (index : Fin 512) : readEntry mem root index = 0#64 := by
    have bound := index.isLt
    apply readEntry_zeros
    intro address lower upper
    exact zero address ⟨by omega, by omega⟩
  have onlyRoot : ∀ path table, tableAt mem root path = some table → path = [] ∧ table = root := by
    intro path table reached
    cases path with
    | nil => exact ⟨rfl, (Option.some.inj reached).symm⟩
    | cons index rest =>
        have missing : edge mem root index = none := child_zero (empty index)
        rw [tableAt, follow, missing] at reached
        simp at reached
  refine ⟨?_, ?_, ?_⟩
  · intro path table _ reached
    rw [(onlyRoot path table reached).2]
    exact member
  · intro first second table _ _ firstReached secondReached
    rw [(onlyRoot first table firstReached).1, (onlyRoot second table secondReached).1]
  · intro path table index _ reached present
    rw [(onlyRoot path table reached).2, empty index] at present
    exact absurd present (by decide)

theorem walk_zeroed {mem : Memory} {root : Nat}
    (zero : ∀ address, InFrame root address → mem address = 0) (virt : Nat) :
    walk mem root virt = none := by
  have bound := (indexAt virt 39).isLt
  have empty : edge mem root (indexAt virt 39) = none := by
    apply child_zero
    apply readEntry_zeros
    intro address lower upper
    exact zero address ⟨by omega, by omega⟩
  rw [walk_eq, leaf_none]
  rw [tableAt, tablePath, follow, empty]
  rfl

section

variable {α : Type} {requestPage : Phys α → Except Fault (Nat × Phys α)}
  {Owned : Phys α → List Nat → Prop} {state state' : Phys α} {root virt phys : Nat}

/-- The states that calls of `PageTable_MapMemory` reach from a zeroed root. -/
inductive MapRun (requestPage : Phys α → Except Fault (Nat × Phys α))
    (Owned : Phys α → List Nat → Prop) (root : Nat) : Phys α → Prop
  | zeroed {state : Phys α} {handed : List Nat} (owned : Owned state handed) (member : root ∈ handed)
      (zero : ∀ address, InFrame root address → state.mem address = 0) :
      MapRun requestPage Owned root state
  | map {state state' : Phys α} {virt phys : Nat} : MapRun requestPage Owned root state →
      mapMemory requestPage state root virt phys = .ok state' →
      MapRun requestPage Owned root state'

theorem MapRun.mapped (contract : FrameContract requestPage Owned)
    (run : MapRun requestPage Owned root state) : ∃ handed, Mapped Owned state root handed := by
  induction run with
  | zeroed owned member zero => exact ⟨_, owned, TableTree.zeroed member zero⟩
  | map _ call ih =>
      obtain ⟨handed, mapped⟩ := ih
      obtain ⟨handed', mapped', _⟩ := mapped.mapMemory contract call
      exact ⟨handed', mapped'⟩

theorem walkEntries_writable {mem : Memory} {handed : List Nat} (tree : TableTree mem root handed) :
    ∀ (path rest : TablePath) {table : Nat} {entries : List (BitVec 64)},
      path.length + rest.length ≤ 4 → tableAt mem root path = some table →
      walkEntries mem table (rest.map Fin.val) = some entries →
      entries.length = rest.length ∧ ∀ entry ∈ entries, Writable entry := by
  intro path rest
  induction rest generalizing path with
  | nil =>
      intro table entries _ _ found
      simp only [List.map_nil, walkEntries, Option.some.injEq] at found
      subst found
      simp
  | cons index rest ih =>
      intro table entries length reached found
      rw [List.length_cons] at length
      rw [List.map_cons, walkEntries] at found
      cases present : child mem table index with
      | none => simp [present] at found
      | some next =>
          rw [present, Option.bind_some, Option.map_eq_some_iff] at found
          obtain ⟨below, foundBelow, entriesEq⟩ := found
          have reached' : tableAt mem root (path ++ [index]) = some next := by
            rw [tableAt, follow_snoc, show follow (edge mem) root path = some table from reached]
            exact present
          obtain ⟨lengthBelow, writableBelow⟩ :=
            ih (path ++ [index]) (by simp; omega) reached' foundBelow
          subst entriesEq
          refine ⟨by simp [lengthBelow], ?_⟩
          intro entry member
          rcases List.mem_cons.mp member with rfl | later
          · exact tree.writable path table index (by omega) reached (edge_present present).1
          · exact writableBelow entry later

theorem walk_entries {mem : Memory} {handed : List Nat} {entry : BitVec 64}
    (tree : TableTree mem root handed) (found : walk mem root virt = some entry) :
    ∃ entries, walkEntries mem root (pageMapIndexerFrom virt).path = some entries ∧
      entries.length = 4 ∧ entries.getLast? = some entry ∧ ∀ entry ∈ entries, Writable entry := by
  rw [walk] at found
  cases along : walkEntries mem root (pageMapIndexerFrom virt).path with
  | none => simp [along] at found
  | some entries =>
      rw [along, Option.bind_some] at found
      have split : (pageMapIndexerFrom virt).path =
          (tablePath virt ++ [leafIndex virt]).map Fin.val := by
        simp [indexer_eq, PageMapIndexer.path, tablePath, leafIndex, indexAt]
      rw [split] at along
      obtain ⟨length, writable⟩ := walkEntries_writable tree []
        (tablePath virt ++ [leafIndex virt]) (by simp [tablePath]) rfl along
      exact ⟨entries, rfl, length, found, writable⟩

/-- A call maps its page to the frame of `phys` and no other page. -/
theorem mapMemory_correct (contract : FrameContract requestPage Owned)
    (run : MapRun requestPage Owned root state) (bound : phys < 2 ^ 52)
    (call : mapMemory requestPage state root virt phys = .ok state') :
    (∃ entries entry, walkEntries state'.mem root (pageMapIndexerFrom virt).path = some entries ∧
        walk state'.mem root virt = some entry ∧ (getAddress entry).toNat = phys / 4096 ∧
        entries.length = 4 ∧ ∀ entry ∈ entries, getFlag entry .present = true ∧
          getFlag entry .readWrite = true ∧ getFlag entry .nx = false) ∧
      ∀ other, (∃ bit, 12 ≤ bit ∧ bit ≤ 47 ∧ other.testBit bit ≠ virt.testBit bit) →
        walk state'.mem root other = walk state.mem root other := by
  obtain ⟨handed, mapped⟩ := run.mapped contract
  obtain ⟨handed', mapped', step⟩ := mapped.mapMemory contract call
  constructor
  · obtain ⟨old, found⟩ := step.mapped virt phys (by simp [lastCall, SamePage])
    obtain ⟨entries, along, length, _, writable⟩ := walk_entries mapped'.tree found
    exact ⟨entries, _, along, found, linkEntry_address old bound, length, writable⟩
  · rintro other ⟨bit, low, high, different⟩
    apply step.others
    have notSame : ¬SamePage other virt := fun same =>
      different ((samePage_testBit _ _).mp same bit low high)
    simp [lastCall, notSame]

theorem newTable_mapped (contract : FrameContract requestPage Owned) {handed : List Nat}
    (owned : Owned state handed) (run : newTable requestPage state = .ok (root, state')) :
    Mapped Owned state' root (root :: handed) ∧ root ∉ handed ∧
      ∀ address, InFrame root address → state'.mem address = 0 := by
  obtain ⟨⟨table, between⟩, request, run⟩ := Fault.peel run
  simp only [Except.ok.injEq, Prod.mk.injEq] at run
  obtain ⟨rfl, rfl⟩ := run
  have zero : ∀ address, InFrame table address → memset between.mem table 0 0x1000 address = 0 := by
    rintro address ⟨lower, upper⟩
    rw [memset_apply, if_pos (by omega)]
    rfl
  refine ⟨⟨?_, TableTree.zeroed (by simp) zero⟩, contract.fresh owned request, zero⟩
  apply contract.write (contract.request owned request)
  intro address changed
  refine ⟨table, by simp, ?_⟩
  by_contra outside
  exact changed (memset_outside _ (by unfold InFrame at outside; omega))

end

/-! The real allocator. -/

namespace PageFrameAllocator

variable {memmap : List MemmapEntry} {state : Phys Globals} {handed : List Nat}

theorem FrameInv.contract (valid : ValidMap memmap) :
    FrameContract requestPage (FrameInv memmap) where
  request := fun inv run => inv.request valid run
  fresh := fun inv run => inv.owned.fresh run
  keeps := fun inv run _ member _ inside => inv.owned.keeps run member inside
  write := fun inv changed => inv.write valid changed
  aligned := fun inv => PageFrameAllocator.contract.aligned inv.owned
  bound := fun inv => PageFrameAllocator.contract.bound inv.owned

theorem requestScan_total {rounds index : Nat} {state : Phys Globals}
    (lower : state.globals.bitmapIdx ≤ index) (upper : index < state.globals.bitmapIdx + rounds)
    (clear : bit state index = false) :
    ∃ frame state', requestScan rounds state = .ok (frame, state') := by
  induction rounds generalizing state with
  | zero => omega
  | succ rounds ih =>
      rw [requestScan]
      by_cases set : bit state state.globals.bitmapIdx = true
      · rw [if_pos (by rwa [bit] at set)]
        have different : index ≠ state.globals.bitmapIdx := by
          rintro rfl
          rw [clear] at set
          exact Bool.false_ne_true set
        refine ih ?_ ?_ clear
        · simp only
          omega
        · simp only
          omega
      · rw [if_neg (by rwa [bit] at set)]
        exact ⟨_, _, rfl⟩

/-- The number of frames that can be handed out before the allocator reports that it is
out of memory. -/
def supply (memmap : List MemmapEntry) : Nat :=
  (largestFreeSegment memmap).2 / 4096 - bitmapSizeInPages memmap - 3

theorem FrameInv.supplied (valid : ValidMap memmap) (inv : FrameInv memmap state handed)
    (few : handed.length < supply memmap) :
    ∃ frame state', requestPage state = .ok (frame, state') := by
  have counter := inv.counter
  rw [supply] at few
  have enough : 16384 ≤ state.globals.freeMemory := by omega
  obtain ⟨index, inside, clear⟩ := inv.spare valid (by omega)
  obtain ⟨limitEq, totalLt⟩ := total_le_limit inv.place valid
  have lower : state.globals.bitmapIdx ≤ index := by
    by_contra less
    rw [inv.hint index (by omega)] at clear
    exact Bool.false_ne_true clear.symm
  rw [requestPage, if_neg (by omega)]
  refine requestScan_total lower ?_ clear
  rw [limit] at limitEq
  omega

theorem newTable_total (valid : ValidMap memmap) (inv : FrameInv memmap state handed)
    (few : handed.length < supply memmap) :
    ∃ root state', newTable requestPage state = .ok (root, state') := by
  obtain ⟨frame, between, request⟩ := inv.supplied valid few
  rw [newTable, request]
  exact ⟨_, _, rfl⟩

end PageFrameAllocator

section

open PageFrameAllocator

theorem mapMemory_correct_smallMap :
    ∃ state' : Phys Globals, ∃ root entry, walk state'.mem root 0x800000 = some entry ∧
      (getAddress entry).toNat = 0x5 := by
  obtain ⟨booted, boot⟩ := init_succeeds smallMap poweredOn (by decide)
  have inv := FrameInv.init smallMap_valid (by decide) boot
  obtain ⟨root, state, made⟩ := newTable_total smallMap_valid inv (by decide)
  obtain ⟨mapped, _, zero⟩ := newTable_mapped (FrameInv.contract smallMap_valid) inv made
  have room : [root].length + missing state.mem root (prefixes 0x800000) ≤ supply smallMap := by
    have few : missing state.mem root (prefixes 0x800000) ≤ 3 := List.countP_le_length
    have total : supply smallMap = 12 := by decide
    rw [total, List.length_singleton]
    omega
  obtain ⟨state', call⟩ := mapped.mapMemory_total 0x800000 0x5000
    (FrameInv.contract smallMap_valid)
    (fun _ _ inv few => inv.supplied smallMap_valid few)
    (fun _ member => prefixes_length member) (fun _ member => member) room
  obtain ⟨⟨_, entry, _, found, address, _⟩, _⟩ := mapMemory_correct
    (FrameInv.contract smallMap_valid) (.zeroed mapped.owned (by simp) zero) (by decide) call
  exact ⟨state', root, entry, found, address⟩

end

end OkeOS
