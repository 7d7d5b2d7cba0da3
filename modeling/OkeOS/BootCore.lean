import OkeOS.HeapCore
import OkeOS.PagingCore
import OkeOS.PfaCore

/-!
The part of `_start` in `kernel.cpp` that builds the page tables, and the pages that the
heap maps afterwards.
-/

namespace OkeOS

open PageFrameAllocator

def mb (x : Nat) : Nat := x * 1024 * 1024

def sizeInPages (entry : MemmapEntry) : Nat :=
  if entry.length % 4096 ≠ 0 then entry.length / 4096 + 1 else entry.length / 4096

/-- The virtual and the physical address of page `pageIdx` of an entry. -/
def entryCall (hhdmOffset kVirtOffset : Nat) (entry : MemmapEntry) (pageIdx : Nat) : Nat × Nat :=
  let physAddr := add64 entry.base (mul64 pageIdx 4096)
  let virtAddr :=
    if entry.type = limineMemmapKernelAndModules then add64 kVirtOffset (mul64 pageIdx 4096)
    else toVirt hhdmOffset physAddr
  (virtAddr, physAddr)

/-- The calls of `PageTable_MapMemory` that the loop makes for an entry. -/
def entryCalls (hhdmOffset kVirtOffset : Nat) (entry : MemmapEntry) : List (Nat × Nat) :=
  (List.range (sizeInPages entry)).map (entryCall hhdmOffset kVirtOffset entry)

/-- The calls that map the first 16 MiB to themselves. -/
def lowCalls : List (Nat × Nat) :=
  (List.range (mb 16 / 0x1000)).map fun i => (i * 0x1000, i * 0x1000)

def bootCalls (hhdmOffset kVirtOffset : Nat) (memmap : List MemmapEntry) : List (Nat × Nat) :=
  memmap.flatMap (entryCalls hhdmOffset kVirtOffset) ++ lowCalls

/-- From the initialisation of the frame allocator to the load of CR3; the result is the
address of `globalPageTable`. -/
def bootPaging (state : Phys Globals) (kVirtOffset : Nat) (memmap : List MemmapEntry) :
    Except Fault (Nat × Phys Globals) := do
  let calls := bootCalls state.globals.hhdmOffset kVirtOffset memmap
  let state ← init state memmap
  let (globalPageTable, state) ← newTable requestPage state
  let state ← mapAll requestPage state globalPageTable calls
  .ok (globalPageTable, state)

/-- `PageTable_MapMemory(globalPageTable, pos, mem_pageframeallocator_requestPage())`.  CR3 is
loaded by then; the tables are reached at their physical addresses here, as the processor does
as long as they are mapped to themselves. -/
def mapHeapPage (globalPageTable : Nat) (state : Phys Globals) (pos : Nat) :
    Except Fault (Phys Globals) := do
  let (frame, state) ← requestPage state
  mapMemory requestPage state globalPageTable pos frame

end OkeOS
