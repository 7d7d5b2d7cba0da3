import OkeOS.MachineCore

/-!
`mem/paging.cpp`: page table entries, the indices of a virtual address, and
`PageTable_MapMemory`.  Tables are accessed at their physical addresses.  The frame
allocator is a parameter; log output is left out.
-/

namespace OkeOS

open ByteMemory

inductive PtFlag where
  | present
  | readWrite
  | userSuper
  | writeThrough
  | cacheDisabled
  | accessed
  | largerPages
  | custom0
  | custom1
  | custom2
  | nx
deriving DecidableEq, Repr

/-- The value of the enumerator. -/
def PtFlag.value : PtFlag → Nat
  | present => 0
  | readWrite => 1
  | userSuper => 2
  | writeThrough => 3
  | cacheDisabled => 4
  | accessed => 5
  | largerPages => 7
  | custom0 => 9
  | custom1 => 10
  | custom2 => 11
  | nx => 63

namespace PageDirectoryEntry

def setFlag (value : BitVec 64) (flag : PtFlag) (enabled : Bool) : BitVec 64 :=
  let bitSelector := 1#64 <<< flag.value
  let value := value &&& ~~~bitSelector
  if enabled then value ||| bitSelector else value

def getFlag (value : BitVec 64) (flag : PtFlag) : Bool :=
  let bitSelector := 1#64 <<< flag.value
  decide (value &&& bitSelector > 0#64)

def setAddress (value address : BitVec 64) : BitVec 64 :=
  let address := address &&& 0x000000ffffffffff#64
  let value := value &&& 0xfff0000000000fff#64
  value ||| (address <<< 12)

def getAddress (value : BitVec 64) : BitVec 64 := (value &&& 0x000ffffffffff000#64) >>> 12

end PageDirectoryEntry

open PageDirectoryEntry

structure PageMapIndexer where
  pdpI : Nat
  pdI : Nat
  ptI : Nat
  pI : Nat
deriving DecidableEq, Repr

def pageMapIndexerFrom (addr : Nat) : PageMapIndexer :=
  let addr := addr >>> 12
  let pI := addr &&& 0x1ff
  let addr := addr >>> 9
  let ptI := addr &&& 0x1ff
  let addr := addr >>> 9
  let pdI := addr &&& 0x1ff
  let addr := addr >>> 9
  let pdpI := addr &&& 0x1ff
  { pdpI := pdpI, pdI := pdI, ptI := ptI, pI := pI }

/-- `table->entries[index]`. -/
def readEntry (mem : Memory) (table index : Nat) : BitVec 64 :=
  BitVec.ofNat 64 (load mem (table + 8 * index) 8)

def writeEntry (mem : Memory) (table index : Nat) (entry : BitVec 64) : Memory :=
  store mem (table + 8 * index) 8 entry.toNat

/-- Point an entry at the frame of `address` and make it present and writable. -/
def linkEntry (entry : BitVec 64) (address : Nat) : BitVec 64 :=
  let entry := setAddress entry (BitVec.ofNat 64 address >>> 12)
  let entry := setFlag entry .present true
  let entry := setFlag entry .readWrite true
  setFlag entry .nx false

section

variable {α : Type} (requestPage : Phys α → Except Fault (Nat × Phys α))

/-- The table that entry `index` of `table` points to; if the entry is not present, a
new zeroed table. -/
def nextTable (state : Phys α) (table index : Nat) : Except Fault (Nat × Phys α) :=
  let pde := readEntry state.mem table index
  if getFlag pde .present = false then do
    let (frame, state) ← requestPage state
    let mem := memset state.mem frame 0 0x1000
    let mem := writeEntry mem table index (linkEntry pde frame)
    if getFlag (readEntry mem table index) .present = false then .error (.panic "mapping failure")
    else .ok (frame, { state with mem := mem })
  else .ok ((getAddress pde <<< 12).toNat, state)

def mapMemory (state : Phys α) (pml4 virt phys : Nat) : Except Fault (Phys α) := do
  let indexer := pageMapIndexerFrom virt
  let (pdp, state) ← nextTable requestPage state pml4 indexer.pdpI
  let (pd, state) ← nextTable requestPage state pdp indexer.pdI
  let (pt, state) ← nextTable requestPage state pd indexer.ptI
  let pde := readEntry state.mem pt indexer.pI
  let mem := writeEntry state.mem pt indexer.pI (linkEntry pde phys)
  if getFlag (readEntry mem pt indexer.pI) .present = false then .error (.panic "mapping failure")
  else .ok { state with mem := mem }

/-- Calls of `PageTable_MapMemory` made one after another. -/
def mapAll (state : Phys α) (pml4 : Nat) : List (Nat × Nat) → Except Fault (Phys α)
  | [] => .ok state
  | call :: rest => do
      let state ← mapMemory requestPage state pml4 call.1 call.2
      mapAll state pml4 rest

/-- A zeroed table in a frame of its own, as `_start` makes `globalPageTable`. -/
def newTable (state : Phys α) : Except Fault (Nat × Phys α) := do
  let (table, state) ← requestPage state
  .ok (table, { state with mem := memset state.mem table 0 0x1000 })

end

/-- The table or frame that a present entry leads to. -/
def child (mem : Memory) (table index : Nat) : Option Nat :=
  let entry := readEntry mem table index
  if getFlag entry .present = true then some (getAddress entry <<< 12).toNat else none

/-- The entries that the processor reads on its way down along the indices; `none` if
one of them is not present. -/
def walkEntries (mem : Memory) : Nat → List Nat → Option (List (BitVec 64))
  | _, [] => some []
  | table, index :: rest =>
      (child mem table index).bind fun next =>
        (walkEntries mem next rest).map fun entries => readEntry mem table index :: entries

def PageMapIndexer.path (indexer : PageMapIndexer) : List Nat :=
  [indexer.pdpI, indexer.pdI, indexer.ptI, indexer.pI]

/-- The last entry of the 4-level walk of `virt`. -/
def walk (mem : Memory) (root virt : Nat) : Option (BitVec 64) :=
  (walkEntries mem root (pageMapIndexerFrom virt).path).bind List.getLast?

end OkeOS
