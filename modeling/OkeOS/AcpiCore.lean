import OkeOS.ByteStrings
import OkeOS.PagingCore
import OkeOS.StringCore

/-!
`acpi/acpi.cpp`: looking for a table and switching ACPI on.  The tables of the firmware are
read from `firmware`, which the kernel does not change; `PageTable_MapMemory` works on the
state of the kernel.  Log output is left out.
-/

namespace OkeOS

open ByteMemory

/-- `strncmp` with a string of the kernel on the right. -/
def strncmp (mem : Memory) (str1 : Nat) (str2 : List UInt8) : Nat → Int
  | 0 => 0
  | num + 1 =>
      if mem str1 ≠ 0 ∧ mem str1 = str2.headD 0 then strncmp mem (str1 + 1) str2.tail num
      else (mem str1).toNat - (str2.headD 0).toNat

/-- The bytes of the left string that it reads. -/
def strncmpReads (mem : Memory) (str1 : Nat) (str2 : List UInt8) : Nat → List Nat
  | 0 => []
  | num + 1 =>
      str1 ::
        if mem str1 ≠ 0 ∧ mem str1 = str2.headD 0 then strncmpReads mem (str1 + 1) str2.tail num
        else []

/-! The fields that are read. -/

def sizeofACPISDTHeader : Nat := 36

namespace ACPISDTHeader

def length (mem : Memory) (this : Nat) : Nat := load mem (this + 4) 4

end ACPISDTHeader

namespace RSDT

/-- `PointerToOtherSDT[i]`. -/
def pointerToOtherSDT (mem : Memory) (this i : Nat) : Nat :=
  load mem (this + sizeofACPISDTHeader + 4 * i) 4

end RSDT

namespace FADT

def smiCommandPort (mem : Memory) (this : Nat) : Nat := load mem (this + 48) 4
def acpiEnable (mem : Memory) (this : Nat) : UInt8 := mem (this + 52)
def pm1aControlBlock (mem : Memory) (this : Nat) : Nat := load mem (this + 64) 4

end FADT

/-- A byte that is read, and the memory with the page tables at that moment. -/
structure TableRead where
  address : Nat
  mem : Memory

def tableReads (mem : Memory) (address width : Nat) : List TableRead :=
  (List.range width).map fun i => { address := address + i, mem := mem }

/-- What a search reads, and how it ends: with an address or in a panic. -/
structure Search (α : Type) where
  reads : List TableRead
  result : Except Fault (Nat × Phys α)

namespace ACPI

section

variable {α : Type} (requestPage : Phys α → Except Fault (Nat × Phys α)) (firmware : Memory)
  (globalPageTable rsdt : Nat)

/-- The loop of `findTable` from round `i` on. -/
def findLoop : Nat → Nat → List TableRead → Phys α → Search α
  | 0, _, reads, state => { reads := reads, result := .ok (0, state) }
  | rounds + 1, i, reads, state =>
      let entry := rsdt + sizeofACPISDTHeader + 4 * i
      let h := RSDT.pointerToOtherSDT firmware rsdt i
      let reads := reads ++ tableReads state.mem entry 4
      match mapMemory requestPage state globalPageTable h h with
      | .error fault => { reads := reads, result := .error fault }
      | .ok state =>
          let reads := reads ++ tableReads state.mem entry 4 ++
            (strncmpReads firmware h (text "FACP") 4).map fun address =>
              { address := address, mem := state.mem }
          if strncmp firmware h (text "FACP") 4 = 0 then { reads := reads, result := .ok (h, state) }
          else findLoop rounds (i + 1) reads state

/-- The number of entries, as an `int`. -/
def entries (length : Nat) : Int := toInt32 (sub64 length sizeofACPISDTHeader / 4 % 2 ^ 32)

/-- `findTable`.  The signature that it is called with is not used. -/
def findTable (_sig : List UInt8) (state : Phys α) : Search α :=
  match mapMemory requestPage state globalPageTable rsdt rsdt with
  | .error fault => { reads := [], result := .error fault }
  | .ok state =>
      let length := ACPISDTHeader.length firmware rsdt
      findLoop requestPage firmware globalPageTable rsdt (entries length).toNat 0
        (tableReads state.mem (rsdt + 4) 4) state

end

/-! `ACPI::init`. -/

inductive PortAccess where
  | outb (port : UInt16) (value : UInt8)
  | inw (port returnVal : UInt16)
deriving DecidableEq, Repr

section

/- The answers of the device to one read after another. -/
variable (answers : Nat → UInt16)

/-- The loop `while (inw(port) & 1 == 0);` where `==` binds tighter than `&`. -/
def waitLoop (port : UInt16) : Nat → Nat → List PortAccess → Except Fault (List PortAccess)
  | 0, _, _ => .error .outOfFuel
  | fuel + 1, count, accesses =>
      let accesses := accesses ++ [.inw port (answers count)]
      let isZero : UInt16 := if (1 : UInt16) = 0 then 1 else 0
      if answers count &&& isZero ≠ 0 then waitLoop port fuel (count + 1) accesses else .ok accesses

variable {α : Type} (requestPage : Phys α → Except Fault (Nat × Phys α)) (firmware : Memory)
  (globalPageTable rsdt : Nat)

def init (fuel : Nat) (state : Phys α) : Except Fault (Nat × List PortAccess × Phys α) := do
  let (facp, state) ←
    (findTable requestPage firmware globalPageTable rsdt (text "FACP") state).result
  if facp = 0 then .error (.panic "ACPI FACP was not found!")
  else do
    let smi := UInt16.ofNat (FADT.smiCommandPort firmware facp)
    let accesses ← waitLoop answers (UInt16.ofNat (FADT.pm1aControlBlock firmware facp)) fuel 0
      [.outb smi (FADT.acpiEnable firmware facp)]
    .ok (facp, accesses, state)

end

end ACPI

end OkeOS
