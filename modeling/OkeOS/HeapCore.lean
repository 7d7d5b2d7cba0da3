import OkeOS.MachineCore

/-!
`mem/heap.h` and `mem/heap.cpp`: a first-fit allocator over a doubly linked chain
of segments whose packed 29-byte headers lie in the heap itself.

The heap reads and writes virtual memory.  `mapPage` stands for the call
`PageTable_MapMemory(globalPageTable, pos, mem_pageframeallocator_requestPage())`,
which changes the page tables and the frame allocator (`pages`) or panics; the
bytes above `heapEnd` are the ones the frames mapped there later hold.
-/

namespace OkeOS

open ByteMemory

/-- `sizeof(HeapSegHdr)`: `magic` (4), `length`, `next`, `last` (8 each), `free` (1). -/
def sizeofHeapSegHdr : Nat := 29

namespace HeapSegHdr

def length (mem : Memory) (this : Nat) : Nat := load mem (this + 4) 8
def next (mem : Memory) (this : Nat) : Nat := load mem (this + 12) 8
def last (mem : Memory) (this : Nat) : Nat := load mem (this + 20) 8
def free (mem : Memory) (this : Nat) : Bool := mem (this + 28) != 0

def setLength (mem : Memory) (this value : Nat) : Memory := store mem (this + 4) 8 value
def setNext (mem : Memory) (this value : Nat) : Memory := store mem (this + 12) 8 value
def setLast (mem : Memory) (this value : Nat) : Memory := store mem (this + 20) 8 value
def setFree (mem : Memory) (this : Nat) (value : Bool) : Memory :=
  writeByte mem (this + 28) (if value then 1 else 0)

end HeapSegHdr

open HeapSegHdr hiding free

/-- The globals of `heap.cpp` and the memory they point into.  `heapEnd` is kept
unreduced: it only grows, and it is the address the code holds as long as it is
below `2 ^ 64`. -/
structure Heap (σ : Type) where
  mem : Memory
  heapStart : Nat
  heapEnd : Nat
  lastHdr : Nat
  pages : σ

section

variable {σ : Type}

def combineForward (heap : Heap σ) (this : Nat) : Heap σ :=
  let next' := next heap.mem this
  if next' = 0 then heap
  else if HeapSegHdr.free heap.mem next' = false then heap
  else
    let lastHdr := if next' = heap.lastHdr then this else heap.lastHdr
    let afterNext := next heap.mem next'
    let mem := if afterNext ≠ 0 then setLast heap.mem afterNext this else heap.mem
    let mem := setLength mem this
      (add64 (add64 (length mem this) (length mem next')) sizeofHeapSegHdr)
    let mem := setNext mem this (next mem next')
    { heap with mem := mem, lastHdr := lastHdr }

def combineBackward (heap : Heap σ) (this : Nat) : Heap σ :=
  let last' := last heap.mem this
  if last' ≠ 0 ∧ HeapSegHdr.free heap.mem last' = true then combineForward heap last' else heap

/-- Cut `this` after `splitLength` bytes; the result is the new header, or `NULL`.
The write through `next` is unconditional: for the last segment it goes to the
`last` field of a header at address 0. -/
def split (heap : Heap σ) (this splitLength : Nat) : Nat × Heap σ :=
  if splitLength < 0x10 then (0, heap)
  else
    let splitSegLength : Int :=
      toInt64 (sub64 (sub64 (length heap.mem this) splitLength) sizeofHeapSegHdr)
    if splitSegLength < 0x10 then (0, heap)
    else
      let newSplitHdr := add64 (add64 this splitLength) sizeofHeapSegHdr
      let mem := setLast heap.mem (next heap.mem this) newSplitHdr
      let mem := setNext mem newSplitHdr (next mem this)
      let mem := setNext mem this newSplitHdr
      let mem := setLast mem newSplitHdr this
      let mem := setLength mem newSplitHdr splitSegLength.toNat
      let mem := setFree mem newSplitHdr (HeapSegHdr.free mem this)
      let mem := setLength mem this splitLength
      let lastHdr := if heap.lastHdr = this then newSplitHdr else heap.lastHdr
      (newSplitHdr, { heap with mem := mem, lastHdr := lastHdr })

/-- `(HeapSegHdr*)address - 1`. -/
def headerOf (address : Nat) : Nat := sub64 address sizeofHeapSegHdr

def free (heap : Heap σ) (address : Nat) : Heap σ :=
  let segment := headerOf address
  let heap := { heap with mem := setFree heap.mem segment true }
  let heap := combineForward heap segment
  combineBackward heap segment

def sfree (heap : Heap σ) (address size : Nat) : Heap σ :=
  let segment := headerOf address
  let heap := { heap with mem := setFree heap.mem segment true }
  let heap := combineForward heap segment
  let heap := combineBackward heap segment
  { heap with mem := memset heap.mem address 0 size }

/-- Round `size` up to a multiple of `unit` the way `malloc` and `expandHeap` do. -/
def roundUp (size unit : Nat) : Nat :=
  if size % unit > 0 then add64 (size - size % unit) unit else size

/-- Hand out the payload of `currentSeg`.  The call is `memset(addr, size, 0)`:
the byte is `size` and the count is 0. -/
def takeSegment (heap : Heap σ) (currentSeg size : Nat) : Nat × Heap σ :=
  let heap := { heap with mem := setFree heap.mem currentSeg false }
  let addr := add64 currentSeg sizeofHeapSegHdr
  (addr, { heap with mem := memset heap.mem addr size 0 })

/-- The `while(true)` loop of `malloc` from `currentSeg` on; `none` is the `break`. -/
def mallocScan : Nat → Heap σ → Nat → Nat → Except Fault (Option (Nat × Heap σ))
  | 0, _, _, _ => .error .outOfFuel
  | fuel + 1, heap, size, currentSeg =>
      if HeapSegHdr.free heap.mem currentSeg = true ∧ length heap.mem currentSeg > size then
        .ok (some (takeSegment (split heap currentSeg size).2 currentSeg size))
      else if HeapSegHdr.free heap.mem currentSeg = true ∧ length heap.mem currentSeg = size then
        .ok (some (takeSegment heap currentSeg size))
      else if next heap.mem currentSeg = 0 then .ok none
      else mallocScan fuel heap size (next heap.mem currentSeg)

/-- The loop of `getUsedMem` from `currentSeg` on. -/
def usedMemLoop : Nat → Memory → Nat → Nat → Except Fault Nat
  | 0, _, _, _ => .error .outOfFuel
  | fuel + 1, mem, currentSeg, used =>
      let used := if HeapSegHdr.free mem currentSeg = false then
          add64 used (add64 (length mem currentSeg) sizeofHeapSegHdr)
        else used
      if next mem currentSeg = 0 then .ok used
      else usedMemLoop fuel mem (next mem currentSeg) used

def getUsedMem (fuel : Nat) (heap : Heap σ) : Except Fault Nat :=
  usedMemLoop fuel heap.mem heap.heapStart 0

variable (mapPage : σ → Nat → Except Fault σ)

/-- Map `pageCount` pages from `pos` on. -/
def mapPages : Nat → Nat → σ → Except Fault σ
  | 0, _, pages => .ok pages
  | pageCount + 1, pos, pages => do
      let pages ← mapPage pages pos
      mapPages pageCount (pos + 0x1000) pages

def initHeap (heap : Heap σ) (heapAddress pageCount : Nat) : Except Fault (Heap σ) := do
  let pages ← mapPages mapPage pageCount heapAddress heap.pages
  let heapLength := pageCount * 0x1000 % 2 ^ 64
  let startSeg := heapAddress
  let mem := setLength heap.mem startSeg (sub64 heapLength sizeofHeapSegHdr)
  let mem := setNext mem startSeg 0
  let mem := setLast mem startSeg 0
  let mem := setFree mem startSeg true
  .ok { mem := mem, heapStart := heapAddress, heapEnd := heapAddress + heapLength,
        lastHdr := startSeg, pages := pages }

def expandHeap (heap : Heap σ) (length : Nat) : Except Fault (Heap σ) := do
  let length := roundUp length 0x1000
  let pageCount := length / 0x1000
  let align := heap.heapEnd % 0x1000
  let heapEnd := if align > 0 then heap.heapEnd + (0x1000 - align) else heap.heapEnd
  let newSegment := heapEnd
  let pages ← mapPages mapPage pageCount heapEnd heap.pages
  let mem := setFree heap.mem newSegment true
  let mem := setLast mem newSegment heap.lastHdr
  let mem := setNext mem heap.lastHdr newSegment
  let mem := setNext mem newSegment 0
  let mem := setLength mem newSegment (sub64 length sizeofHeapSegHdr)
  let heap := { heap with mem := mem, heapEnd := heapEnd + pageCount * 0x1000,
                          lastHdr := newSegment, pages := pages }
  .ok (combineBackward heap newSegment)

def malloc : Nat → Heap σ → Nat → Except Fault (Nat × Heap σ)
  | 0, _, _ => .error .outOfFuel
  | fuel + 1, heap, size =>
      let size := roundUp size 0x10
      if size = 0 then .ok (0, heap)
      else do
        match ← mallocScan fuel heap size heap.heapStart with
        | some result => .ok result
        | none =>
            let heap ← expandHeap mapPage heap size
            malloc fuel heap size

end

end OkeOS
