import Mathlib.Data.List.Pairwise
import OkeOS.PfaCore

/-!
Looking an address up in the memory map: `mem_getMemoryMapForAddress` of
`mem/pageframeallocator.cpp` and the names of `mem/memutils.cpp`.
-/

namespace OkeOS

/-! A search for the only element with a property. -/

section

variable {α : Type} {found : α → Bool} {list : List α} {element : α}

theorem find_unique (unique : ∀ other ∈ list, found other = true → other = element)
    (member : element ∈ list) (here : found element = true) : list.find? found = some element := by
  induction list with
  | nil => cases member
  | cons head rest ih =>
      by_cases headHere : found head = true
      · rw [List.find?_cons_of_pos headHere, unique head List.mem_cons_self headHere]
      · rw [List.find?_cons_of_neg headHere]
        apply ih
        · exact fun other later => unique other (List.mem_cons_of_mem _ later)
        · exact List.mem_of_ne_of_mem (fun same : element = head => headHere (same ▸ here)) member

theorem find_unique_iff (unique : ∀ first ∈ list, ∀ second ∈ list, found first = true →
    found second = true → first = second) :
    list.find? found = some element ↔ element ∈ list ∧ found element = true := by
  constructor
  · intro result
    exact ⟨List.mem_of_find?_eq_some result, List.find?_some result⟩
  · rintro ⟨member, here⟩
    exact find_unique (fun other otherMember otherHere =>
      unique other otherMember element member otherHere here) member here

end

def limineMemmapReserved : Nat := 1
def limineMemmapAcpiReclaimable : Nat := 2
def limineMemmapAcpiNvs : Nat := 3
def limineMemmapBadMemory : Nat := 4
def limineMemmapBootloaderReclaimable : Nat := 5
def limineMemmapFramebuffer : Nat := 7

def getMemoryMappingName (type : Nat) : String :=
  if type = limineMemmapUsable then "Usable Memory"
  else if type = limineMemmapReserved then "Reserved Memory"
  else if type = limineMemmapAcpiReclaimable then "ACPI Reclaimable"
  else if type = limineMemmapAcpiNvs then "ACPI NVS"
  else if type = limineMemmapBadMemory then "[!] Bad Memory"
  else if type = limineMemmapBootloaderReclaimable then "Bootloader Reclaimable"
  else if type = limineMemmapKernelAndModules then "Kernel"
  else if type = limineMemmapFramebuffer then "Framebuffer"
  else "Unknown"

/-- `memmap` is the map that the frame allocator was initialised with. -/
def memGetMemoryMapForAddress (addr : Nat) : (memmap : List MemmapEntry) → String
  | [] => "No mapping found"
  | entry :: rest =>
      if addr > entry.base ∧ addr < add64 entry.base entry.length then
        getMemoryMappingName entry.type
      else memGetMemoryMapForAddress addr rest

def MemmapEntry.Contains (entry : MemmapEntry) (addr : Nat) : Prop :=
  entry.base ≤ addr ∧ addr < entry.base + entry.length

def MemmapEntry.Apart (first second : MemmapEntry) : Prop :=
  ∀ addr, ¬(first.Contains addr ∧ second.Contains addr)

instance : Std.Symm MemmapEntry.Apart where
  symm _ _ apart addr both := apart addr both.symm

/-- No two entries of the map overlap, and none reaches past the end of the address space. -/
structure DisjointMap (memmap : List MemmapEntry) : Prop where
  disjoint : memmap.Pairwise MemmapEntry.Apart
  fits : ∀ entry ∈ memmap, entry.base + entry.length < 2 ^ 64

/-- The lookup names the entry that contains the address, and says so if there is none. -/
structure LooksUp (memmap : List MemmapEntry) (addr : Nat) : Prop where
  named : ∀ entry ∈ memmap, entry.Contains addr →
    memGetMemoryMapForAddress addr memmap = getMemoryMappingName entry.type
  unmapped : memGetMemoryMapForAddress addr memmap = "No mapping found" ↔
    ∀ entry ∈ memmap, ¬entry.Contains addr

theorem getMemoryMappingName_ne (type : Nat) : getMemoryMappingName type ≠ "No mapping found" := by
  unfold getMemoryMappingName
  repeat' split
  all_goals decide

/-- What the loop looks for: the first byte of an entry is left out. -/
def MemmapEntry.containsPast (addr : Nat) (entry : MemmapEntry) : Bool :=
  decide (addr > entry.base ∧ addr < add64 entry.base entry.length)

theorem memGetMemoryMapForAddress_eq (addr : Nat) (memmap : List MemmapEntry) :
    memGetMemoryMapForAddress addr memmap =
      ((memmap.find? (MemmapEntry.containsPast addr)).map
        fun entry => getMemoryMappingName entry.type).getD "No mapping found" := by
  induction memmap with
  | nil => rfl
  | cons entry rest ih =>
      rw [memGetMemoryMapForAddress]
      by_cases here : addr > entry.base ∧ addr < add64 entry.base entry.length
      · rw [if_pos here, List.find?_cons_of_pos (by simpa [MemmapEntry.containsPast] using here)]
        rfl
      · rw [if_neg here, List.find?_cons_of_neg (by simpa [MemmapEntry.containsPast] using here), ih]

section

variable {memmap : List MemmapEntry} {addr : Nat} (map : DisjointMap memmap)

include map

theorem DisjointMap.containsPast_iff {entry : MemmapEntry} (member : entry ∈ memmap) :
    entry.containsPast addr = true ↔ entry.Contains addr ∧ addr ≠ entry.base := by
  rw [MemmapEntry.containsPast, decide_eq_true_iff, add64_of_lt (map.fits entry member),
    MemmapEntry.Contains]
  omega

theorem DisjointMap.unique {first second : MemmapEntry} (firstMember : first ∈ memmap)
    (secondMember : second ∈ memmap) (firstHere : first.Contains addr)
    (secondHere : second.Contains addr) : first = second := by
  by_contra different
  exact map.disjoint.forall firstMember secondMember different addr ⟨firstHere, secondHere⟩

theorem DisjointMap.found_unique : ∀ first ∈ memmap, ∀ second ∈ memmap,
    first.containsPast addr = true → second.containsPast addr = true → first = second := by
  intro first firstMember second secondMember firstFound secondFound
  exact map.unique firstMember secondMember ((map.containsPast_iff firstMember).mp firstFound).1
    ((map.containsPast_iff secondMember).mp secondFound).1

/-- An address behind the first byte of its entry is named. -/
theorem DisjointMap.named {entry : MemmapEntry} (member : entry ∈ memmap)
    (here : entry.Contains addr) (past : addr ≠ entry.base) :
    memGetMemoryMapForAddress addr memmap = getMemoryMappingName entry.type := by
  have found : memmap.find? (MemmapEntry.containsPast addr) = some entry :=
    (find_unique_iff map.found_unique).mpr ⟨member, (map.containsPast_iff member).mpr ⟨here, past⟩⟩
  rw [memGetMemoryMapForAddress_eq, found]
  rfl

theorem DisjointMap.unmapped_iff : memGetMemoryMapForAddress addr memmap = "No mapping found" ↔
    ∀ entry ∈ memmap, entry.Contains addr → addr = entry.base := by
  constructor
  · intro result entry member here
    by_contra past
    exact getMemoryMappingName_ne _ ((map.named member here past).symm.trans result)
  · intro firsts
    have none : memmap.find? (MemmapEntry.containsPast addr) = none := by
      rw [List.find?_eq_none]
      intro entry member found
      obtain ⟨here, past⟩ := (map.containsPast_iff member).mp found
      exact past (firsts entry member here)
    rw [memGetMemoryMapForAddress_eq, none]
    rfl

/-- The lookup is right at every address but the first one of a nonempty entry. -/
theorem looksUp_iff : LooksUp memmap addr ↔
    ∀ entry ∈ memmap, addr = entry.base → entry.length = 0 := by
  constructor
  · rintro looksUp entry member rfl
    by_contra nonempty
    have here : entry.Contains entry.base := ⟨Nat.le_refl _, by omega⟩
    have firsts : ∀ other ∈ memmap, other.Contains entry.base → entry.base = other.base := by
      intro other otherMember otherHere
      rw [map.unique member otherMember here otherHere]
    exact looksUp.unmapped.mp (map.unmapped_iff.mpr firsts) entry member here
  · intro empty
    have past : ∀ entry ∈ memmap, entry.Contains addr → addr ≠ entry.base := by
      rintro entry member ⟨_, below⟩ first
      have nothing := empty entry member first
      omega
    refine ⟨fun entry member here => map.named member here (past entry member here), ?_⟩
    rw [map.unmapped_iff]
    constructor
    · intro firsts entry member here
      exact past entry member here (firsts entry member here)
    · intro none entry member here
      exact absurd here (none entry member)

end

/-- Two adjacent entries. -/
def adjacentMap : List MemmapEntry :=
  [{ base := 0x1000, length := 0x1000, type := limineMemmapUsable },
    { base := 0x2000, length := 0x1000, type := limineMemmapReserved }]

theorem adjacentMap_disjoint : DisjointMap adjacentMap := by
  refine ⟨?_, by decide⟩
  rw [adjacentMap, List.pairwise_pair]
  rintro addr ⟨⟨_, first⟩, ⟨second, _⟩⟩
  simp only at first second
  omega

theorem looksUp_adjacent : LooksUp adjacentMap 0x1fff :=
  (looksUp_iff adjacentMap_disjoint).mpr (by decide)

/-- The first byte of the second entry is said to have no mapping. -/
theorem not_looksUp_boundary : DisjointMap adjacentMap ∧
    memGetMemoryMapForAddress 0x2000 adjacentMap = "No mapping found" ∧
      ¬LooksUp adjacentMap 0x2000 := by
  have result : memGetMemoryMapForAddress 0x2000 adjacentMap = "No mapping found" := by decide
  refine ⟨adjacentMap_disjoint, result, fun looksUp => ?_⟩
  exact looksUp.unmapped.mp result _ (by simp [adjacentMap] : adjacentMap[1] ∈ adjacentMap)
    ⟨by decide, by decide⟩

end OkeOS
