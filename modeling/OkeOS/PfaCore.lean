import OkeOS.MachineCore

/-!
The page frame allocator of `mem/pageframeallocator.cpp` with the bitmap of
`lib/bitmap.cpp` and the memory map helpers of `mem/memutils.cpp`.  Physical memory is
explicit, because the bitmap lives in the frames it describes.  Pointers into the direct
map are kept as the physical addresses they stand for; log output is left out.
-/

namespace OkeOS

open ByteMemory

structure Bitmap where
  size : Nat
  buffer : Nat
deriving DecidableEq, Repr

namespace Bitmap

/-- The bound check lets `offset = size * 8` through. -/
def get (mem : Memory) (bitmap : Bitmap) (offset : Nat) : Bool :=
  if offset > mul64 bitmap.size 8 then false
  else
    let temp := mem (bitmap.buffer + offset / 8)
    let temp := temp <<< UInt8.ofNat (offset % 8)
    let temp := temp >>> 7
    temp != 0

/-- The result tells whether the bit was set. -/
def set (mem : Memory) (bitmap : Bitmap) (offset : Nat) (value : Bool) : Bool × Memory :=
  if offset > mul64 bitmap.size 8 then (false, mem)
  else
    let off2 := bitmap.buffer + offset / 8
    let bitIndexer := (0x80 : UInt8) >>> UInt8.ofNat (offset % 8)
    let mem := writeByte mem off2 (mem off2 &&& ~~~bitIndexer)
    let mem := if value then writeByte mem off2 (mem off2 ||| bitIndexer) else mem
    (true, mem)

end Bitmap

structure MemmapEntry where
  base : Nat
  length : Nat
  type : Nat
deriving DecidableEq, Repr

def limineMemmapUsable : Nat := 0
def limineMemmapKernelAndModules : Nat := 6

def toPhys (hhdmOffset virt : Nat) : Nat := sub64 virt hhdmOffset

def toVirt (hhdmOffset phys : Nat) : Nat := add64 phys hhdmOffset

def arealStep (size : Nat) (entry : MemmapEntry) : Nat :=
  if add64 entry.base entry.length > size then add64 entry.base entry.length else size

def getMemoryArealSize (memmap : List MemmapEntry) : Nat := memmap.foldl arealStep 0

namespace PageFrameAllocator

structure Globals where
  hhdmOffset : Nat
  freeMemory : Nat
  usedMemory : Nat
  bitmapIdx : Nat
  pfaBitmap : Bitmap
  oomPanics : Bool
deriving DecidableEq, Repr

def lockPage (state : Phys Globals) (addr : Nat) : Phys Globals :=
  let index := addr / 4096
  if state.globals.pfaBitmap.get state.mem index = true then state
  else
    let (done, mem) := state.globals.pfaBitmap.set state.mem index true
    if done then
      { mem := mem
        globals := { state.globals with
          freeMemory := sub64 state.globals.freeMemory 4096
          usedMemory := add64 state.globals.usedMemory 4096 } }
    else state

/-- The counters stay as they are. -/
def lockPageNonAvailable (state : Phys Globals) (addr : Nat) : Phys Globals :=
  let index := addr / 4096
  if state.globals.pfaBitmap.get state.mem index = true then state
  else { state with mem := (state.globals.pfaBitmap.set state.mem index true).2 }

def freePage (state : Phys Globals) (addr : Nat) : Phys Globals :=
  let index := addr / 4096
  if state.globals.pfaBitmap.get state.mem index = false then state
  else
    let (done, mem) := state.globals.pfaBitmap.set state.mem index false
    if done then
      { mem := mem
        globals := { state.globals with
          freeMemory := add64 state.globals.freeMemory 4096
          usedMemory := sub64 state.globals.usedMemory 4096
          bitmapIdx := if state.globals.bitmapIdx > index then index
            else state.globals.bitmapIdx } }
    else state

def freePages (state : Phys Globals) (addr : Nat) : Nat → Phys Globals
  | 0 => state
  | i + 1 => freePage (freePages state addr i) (add64 addr (mul64 i 4096))

/-- `i * 4096` for an `int i`, converted to `u64`. -/
def intOffset (i : Nat) : Nat :=
  let product := i * 4096 % 2 ^ 32
  if product < 2 ^ 31 then product else 2 ^ 64 - 2 ^ 32 + product

/-- The first rounds of the loop of `lockPages`. -/
def lockRounds (state : Phys Globals) (addr : Nat) : Nat → Phys Globals
  | 0 => state
  | i + 1 => lockPage (lockRounds state addr i) (add64 addr (intOffset i))

/-- The counter is an `int`: after `2 ^ 31` rounds it is negative and compares above
every page count. -/
def lockPages (state : Phys Globals) (addr pageCount : Nat) : Phys Globals :=
  lockRounds state addr (min pageCount (2 ^ 31))

def lockRoundsNonAvailable (state : Phys Globals) (addr : Nat) : Nat → Phys Globals
  | 0 => state
  | i + 1 => lockPageNonAvailable (lockRoundsNonAvailable state addr i) (add64 addr (intOffset i))

def lockPagesNonAvailable (state : Phys Globals) (addr pageCount : Nat) : Phys Globals :=
  lockRoundsNonAvailable state addr (min pageCount (2 ^ 31))

/-- The `for` loop of `requestPage`, with at most `rounds` rounds left. -/
def requestScan : Nat → Phys Globals → Except Fault (Nat × Phys Globals)
  | 0, _ => .error (.panic "Out of memory")
  | rounds + 1, state =>
      if state.globals.pfaBitmap.get state.mem state.globals.bitmapIdx = true then
        requestScan rounds
          { state with globals :=
              { state.globals with bitmapIdx := state.globals.bitmapIdx + 1 } }
      else
        let page := mul64 state.globals.bitmapIdx 4096
        .ok (page, lockPage state page)

def requestPage (state : Phys Globals) : Except Fault (Nat × Phys Globals) :=
  if state.globals.oomPanics = true ∧ state.globals.freeMemory < 16384 then
    .error (.panic "Out of memory")
  else
    requestScan (mul64 state.globals.pfaBitmap.size 8 - state.globals.bitmapIdx) state

def largestStep (largest : Nat × Nat) (entry : MemmapEntry) : Nat × Nat :=
  if entry.type = limineMemmapUsable ∧ entry.length > largest.2 then (entry.base, entry.length)
  else largest

/-- The first usable entry of greatest length, as base and length. -/
def largestFreeSegment (memmap : List MemmapEntry) : Nat × Nat :=
  memmap.foldl largestStep (0, 0)

def totalMemorySizeInPages (memmap : List MemmapEntry) : Nat :=
  getMemoryArealSize memmap / 4096

def bitmapSize (memmap : List MemmapEntry) : Nat :=
  getMemoryArealSize memmap / 4096 / 8 + 1

def bitmapSizeInPages (memmap : List MemmapEntry) : Nat :=
  bitmapSize memmap / 4096 + 1

def initBitmap (state : Phys Globals) (bitmapSize addr : Nat) : Phys Globals :=
  let buffer := toPhys state.globals.hhdmOffset addr
  { mem := fill state.mem buffer 0 (min bitmapSize (2 ^ 31))
    globals := { state.globals with
      pfaBitmap := { size := bitmapSize, buffer := buffer }
      bitmapIdx := 0 } }

/-- Free the frames of one entry if it is usable. -/
def freeEntry (state : Phys Globals) (entry : MemmapEntry) : Phys Globals :=
  if entry.type = limineMemmapUsable then freePages state entry.base (entry.length / 4096)
  else state

def init (state : Phys Globals) (memmap : List MemmapEntry) : Except Fault (Phys Globals) :=
  let (largest, largestSize) := largestFreeSegment memmap
  if largest = 0 then .error (.panic "No free memory found!")
  else
    let state := initBitmap state (bitmapSize memmap) (add64 state.globals.hhdmOffset largest)
    let state := lockPages state 0 (totalMemorySizeInPages memmap)
    let state := memmap.foldl freeEntry state
    let state := { state with globals :=
      { state.globals with usedMemory := 0, freeMemory := largestSize, oomPanics := true } }
    .ok (lockPages state largest (bitmapSizeInPages memmap))

def getFreeRAM (state : Phys Globals) : Nat := state.globals.freeMemory

def getTotalRAM (state : Phys Globals) : Nat :=
  add64 state.globals.freeMemory state.globals.usedMemory

end PageFrameAllocator

end OkeOS
