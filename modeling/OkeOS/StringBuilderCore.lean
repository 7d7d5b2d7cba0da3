import OkeOS.ByteStrings
import OkeOS.ConsoleCore
import OkeOS.HeapCore

/-!
`FastStringBuilder` of `lib/string.cpp` and the `Logger` of `lib/logger.h` that uses it.  An
object is the bytes of its fields, and strings are read from the memory the heap lies in.

`literal` gives the address of a string literal.  `trace` records the calls into the heap and
the accesses to the entries of `parts`.
-/

namespace OkeOS

open ByteMemory

/-- The loop of `strlen`, with the counter that it returns. -/
def strlenLoop : Nat → Memory → Nat → Nat → Except Fault Nat
  | 0, _, _, _ => .error .outOfFuel
  | fuel + 1, mem, str, i =>
      if mem str = 0 then .ok i else strlenLoop fuel mem (str + 1) ((i + 1) % 2 ^ 32)

/-- `strlen` of the string at an address. -/
def strlenAt (fuel : Nat) (mem : Memory) (str : Nat) : Except Fault Nat :=
  strlenLoop fuel mem str 0

def memcpy (mem : Memory) (dest src : Nat) : Nat → Memory
  | 0 => mem
  | n + 1 =>
      let mem := memcpy mem dest src n
      writeByte mem (dest + n) (mem (src + n))

/-- `free` stands for a call of `free` or `sfree`; `deref` for a read of `parts[index]` whose
result is used as a string. -/
inductive BuilderEvent where
  | malloc (ptr : Nat)
  | free (ptr : Nat)
  | store (index : Nat)
  | deref (index : Nat)
deriving DecidableEq, Repr

structure Traced (σ : Type) where
  heap : Heap σ
  trace : List BuilderEvent

section

variable {σ : Type}

def Traced.record (state : Traced σ) (event : BuilderEvent) : Traced σ :=
  { state with trace := state.trace ++ [event] }

def Traced.setMem (state : Traced σ) (mem : Memory) : Traced σ :=
  { state with heap := { state.heap with mem := mem } }

def Traced.free (state : Traced σ) (ptr : Nat) : Traced σ :=
  { heap := OkeOS.free state.heap ptr, trace := state.trace ++ [.free ptr] }

def Traced.sfree (state : Traced σ) (ptr size : Nat) : Traced σ :=
  { heap := OkeOS.sfree state.heap ptr size, trace := state.trace ++ [.free ptr] }

def Traced.malloc (mapPage : σ → Nat → Except Fault σ) (fuel : Nat) (state : Traced σ)
    (size : Nat) : Except Fault (Nat × Traced σ) := do
  let (ptr, heap) ← OkeOS.malloc mapPage fuel state.heap size
  .ok (ptr, { heap := heap, trace := state.trace ++ [.malloc ptr] })

end

/-- `sizeof(FastStringBuilder)`: `parts` (8), `nParts`, `partOffset` (4 each), `outputBuf` (8),
`outputBufSize` (4), and 4 bytes of padding. -/
def sizeofFastStringBuilder : Nat := 32

namespace FastStringBuilder

def parts (mem : Memory) (this : Nat) : Nat := load mem this 8
def nParts (mem : Memory) (this : Nat) : Int := toInt32 (load mem (this + 8) 4)
def partOffset (mem : Memory) (this : Nat) : Int := toInt32 (load mem (this + 12) 4)
def outputBuf (mem : Memory) (this : Nat) : Nat := load mem (this + 16) 8
def outputBufSize (mem : Memory) (this : Nat) : Nat := load mem (this + 24) 4

def setParts (mem : Memory) (this value : Nat) : Memory := store mem this 8 value
def setNParts (mem : Memory) (this value : Nat) : Memory := store mem (this + 8) 4 value
def setPartOffset (mem : Memory) (this value : Nat) : Memory := store mem (this + 12) 4 value
def setOutputBuf (mem : Memory) (this value : Nat) : Memory := store mem (this + 16) 8 value
def setOutputBufSize (mem : Memory) (this value : Nat) : Memory := store mem (this + 24) 4 value

/-- `parts[index]`. -/
def part (mem : Memory) (this index : Nat) : Nat := load mem (parts mem this + 8 * index) 8

def setPart (mem : Memory) (this index value : Nat) : Memory :=
  store mem (parts mem this + 8 * index) 8 value

variable {σ : Type} (mapPage : σ → Nat → Except Fault σ) (literal : String → Nat) (fuel : Nat)

/-- The constructor, for a positive number of parts, after the default member initialisers. -/
def construct (state : Traced σ) (this parts : Nat) : Except Fault (Traced σ) := do
  let mem := setPartOffset state.heap.mem this 0
  let mem := setOutputBuf mem this 0
  let mem := setOutputBufSize mem this 0
  let (ptr, state) ← (state.setMem mem).malloc mapPage fuel (mul64 8 parts)
  let mem := setParts state.heap.mem this ptr
  let mem := setNParts mem this parts
  .ok (state.setMem mem)

/-- The destructor; `sizeof(nParts)` is 4. -/
def destruct (state : Traced σ) (this : Nat) : Traced σ :=
  let state := state.sfree (parts state.heap.mem this) 4
  state.sfree (outputBuf state.heap.mem this) (outputBufSize state.heap.mem this)

def append (state : Traced σ) (this ptr : Nat) : Traced σ :=
  let mem := state.heap.mem
  if partOffset mem this ≥ nParts mem this then
    let index := (nParts mem this - 1).toNat
    (state.setMem (setPart mem this index (literal "FastStringBuilder OutOfBounds"))).record
      (.store index)
  else
    let index := (partOffset mem this).toNat
    let mem := setPart mem this index ptr
    let mem := setPartOffset mem this ((partOffset mem this) + 1).toNat
    (state.setMem mem).record (.store index)

/-- The loop of `build` that adds up the sizes.  `strlen(..) + 1` is a `u32`. -/
def sizeLoop : Nat → Traced σ → Nat → Nat → Nat → Except Fault (Nat × Traced σ)
  | 0, _, _, _, _ => .error .outOfFuel
  | rounds + 1, state, this, i, fullSize =>
      if (i : Int) < nParts state.heap.mem this then do
        let len ← strlenAt fuel state.heap.mem (part state.heap.mem this i)
        sizeLoop rounds (state.record (.deref i)) this (i + 1)
          (add64 fullSize ((len + 1) % 2 ^ 32))
      else .ok (fullSize, state)

/-- The loop of `build` that copies the parts.  It reads the fields again in every round. -/
def copyLoop : Nat → Traced σ → Nat → Nat → Nat → Except Fault (Traced σ)
  | 0, _, _, _, _ => .error .outOfFuel
  | rounds + 1, state, this, i, off =>
      let mem := state.heap.mem
      if (i : Int) < nParts mem this then do
        let partLen ← strlenAt fuel mem (part mem this i)
        let mem := memcpy mem (outputBuf mem this + off) (part mem this i) partLen
        copyLoop rounds ((state.setMem mem).record (.deref i)) this (i + 1) (add64 off partLen)
      else .ok state

def build (state : Traced σ) (this : Nat) : Except Fault (Nat × Traced σ) := do
  let (fullSize, state) ← sizeLoop fuel fuel state this 0 0
  let state := if outputBuf state.heap.mem this ≠ 0 then
      state.free (outputBuf state.heap.mem this)
    else state
  let (ptr, state) ← state.malloc mapPage fuel fullSize
  let state := state.setMem (setOutputBuf state.heap.mem this ptr)
  if ptr = 0 then .ok (literal "FastStringBuilder Unable to allocate memory", state)
  else do
    let state ← copyLoop fuel fuel state this 0 0
    let state := state.setMem (setOutputBufSize state.heap.mem this fullSize)
    .ok (outputBuf state.heap.mem this, state)

/-- `new FastStringBuilder(parts)`; `operator new` is `malloc` and may return `NULL`. -/
def new (state : Traced σ) (parts : Nat) : Except Fault (Nat × Traced σ) := do
  let (this, state) ← state.malloc mapPage fuel sizeofFastStringBuilder
  if this = 0 then .ok (0, state)
  else do
    let state ← construct mapPage fuel state this parts
    .ok (this, state)

/-- The `delete` expression; `operator delete` is `free`. -/
def delete (state : Traced σ) (this : Nat) : Traced σ :=
  if this = 0 then state else (destruct state this).free this

def buildAndDestroy (state : Traced σ) (this : Nat) : Except Fault (Nat × Traced σ) := do
  let (ptr, state) ← build mapPage literal fuel state this
  .ok (ptr, delete state this)

end FastStringBuilder

/-- The characters that `_kprintf` finds at `str`. -/
def charsLoop : Nat → Memory → Nat → Except Fault (List UInt8)
  | 0, _, _ => .error .outOfFuel
  | fuel + 1, mem, str =>
      if mem str = 0 then .ok []
      else do
        let rest ← charsLoop fuel mem (str + 1)
        .ok (mem str :: rest)

/-- The bytes at `value`, one more than `fuel` rounds of `__write` can print. -/
def stringFrom (fuel : Nat) (mem : Memory) (value : UInt64) : CString :=
  .ofBuffer ((List.range (fuel + 1)).map fun i => mem (value.toNat + i))

section

variable (fuel : Nat) (mem : Memory) (str : Nat) (args : List UInt64) (console : Console)

/-- `_kprintf` of the format at an address. -/
def kprintfAt (serial terminal : Bool) : Except Fault (List UInt64 × Console) := do
  let chars ← charsLoop fuel mem str
  kprintf (stringFrom fuel mem) fuel (.ofBuffer chars) serial terminal args console

def vakprintf : Except Fault (List UInt64 × Console) :=
  kprintfAt fuel mem str args console false true

def vakprintfBoth : Except Fault (List UInt64 × Console) :=
  kprintfAt fuel mem str args console true true

def vakprintfSerial : Except Fault (List UInt64 × Console) :=
  kprintfAt fuel mem str args console true false

end

inductive LoggerTarget where
  | none
  | terminal
  | serial
  | both
deriving DecidableEq, Repr

structure Logger where
  tag : Nat
  nspace : Nat
  target : LoggerTarget

namespace Logger

open FastStringBuilder

variable {σ : Type} (mapPage : σ → Nat → Except Fault σ) (literal : String → Nat) (fuel : Nat)

/-- The builder of `__internal_log` with its seven parts. -/
def assemble (this : Logger) (tpStr str : Nat) (state : Traced σ) :
    Except Fault (Nat × Traced σ) := do
  let (builder, state) ← new mapPage fuel state 7
  let state := append literal state builder (literal "$c8[")
  let state := append literal state builder this.nspace
  let state := append literal state builder (literal "/")
  let state := append literal state builder this.tag
  let state := append literal state builder tpStr
  let state := append literal state builder str
  let state := append literal state builder (literal "\n")
  .ok (builder, state)

/-- `__internal_log`. -/
def internalLog (this : Logger) (tpStr str : Nat) (args : List UInt64) (state : Traced σ)
    (console : Console) : Except Fault (Traced σ × Console) := do
  let (builder, state) ← assemble mapPage literal fuel this tpStr str state
  match this.target with
  | .both => do
      let (ptr, state) ← build mapPage literal fuel state builder
      let (_, console) ← vakprintfBoth fuel state.heap.mem ptr args console
      .ok (delete state builder, console)
  | .serial => do
      let (ptr, state) ← build mapPage literal fuel state builder
      let (_, console) ← vakprintfSerial fuel state.heap.mem ptr args console
      .ok (delete state builder, console)
  | .terminal => do
      let (ptr, state) ← build mapPage literal fuel state builder
      let (_, console) ← vakprintf fuel state.heap.mem ptr args console
      .ok (delete state builder, console)
  | .none => .ok (delete state builder, console)

/-- The part that tells the levels apart. -/
def infoTag : String := "] $c7[INF]$cF "
def warnTag : String := "] $cY[WRN]$cF "
def errorTag : String := "] $cR[ERR]$cF "

def info (this : Logger) (str : Nat) (args : List UInt64) (state : Traced σ) (console : Console) :
    Except Fault (Traced σ × Console) :=
  internalLog mapPage literal fuel this (literal infoTag) str args state console

def warn (this : Logger) (str : Nat) (args : List UInt64) (state : Traced σ) (console : Console) :
    Except Fault (Traced σ × Console) :=
  internalLog mapPage literal fuel this (literal warnTag) str args state console

def error (this : Logger) (str : Nat) (args : List UInt64) (state : Traced σ) (console : Console) :
    Except Fault (Traced σ × Console) :=
  internalLog mapPage literal fuel this (literal errorTag) str args state console

end Logger

end OkeOS
