import OkeOS.Assembly
import OkeOS.GdtTss
import OkeOS.InterruptEntry
import OkeOS.PagingCodec

/-!
`idt/ints.cpp`: the descriptor table that `initInts` fills, as the processor reads it, and the way
from a vector through its gate and the handlers of `idt/stubs.asm` to `interruptDispatch`.
-/

namespace OkeOS

open PackedFields WordStack

/-- A packed struct of 16 bytes. -/
structure InterruptDescriptor where
  addressLow : BitVec 16
  selector : BitVec 16
  ist : BitVec 8
  flags : BitVec 8
  addressMid : BitVec 16
  addressHigh : BitVec 32
  reserved : BitVec 32
deriving DecidableEq

namespace InterruptDescriptor

def fields (entry : InterruptDescriptor) : List Field :=
  [.of entry.addressLow, .of entry.selector, .of entry.ist, .of entry.flags, .of entry.addressMid,
    .of entry.addressHigh, .of entry.reserved]

end InterruptDescriptor

/-- `idt`, indexed by a `u8`. -/
abbrev Idt := BitVec 8 → InterruptDescriptor

/-- `reserved` is not written. -/
def setIdtEntry (idt : Idt) (vector : BitVec 8) (handler : BitVec 64) (dpl : BitVec 8) : Idt :=
  Function.update idt vector
    { idt vector with
      addressLow := (handler &&& 0xffff).setWidth 16
      addressMid := ((handler >>> 16) &&& 0xffff).setWidth 16
      addressHigh := (handler >>> 32).setWidth 32
      selector := 0x8
      flags := 0b1110 ||| ((dpl &&& 0b11) <<< 5) ||| 0x80
      ist := 0 }

def initInts (idt : Idt) (vector0Handler : BitVec 64) : Idt :=
  (List.range 256).foldl
    (fun idt i => setIdtEntry idt (.ofNat 8 i) (vector0Handler + .ofNat 64 (i * 16)) 0) idt

/-! What the processor reads. -/

/-- An interrupt gate or a trap gate; `type` has the bit above it, which is 0 for gates. -/
structure Gate where
  offset : Nat
  selector : Nat
  ist : Nat
  type : Nat
  dpl : Nat
  present : Bool
deriving DecidableEq

def Gate.ofWord (word : Nat) : Gate where
  offset := slice word 0 16 + 2 ^ 16 * slice word 48 16 + 2 ^ 32 * slice word 64 32
  selector := slice word 16 16
  ist := slice word 32 3
  type := slice word 40 5
  dpl := slice word 45 2
  present := slice word 47 1 = 1

/-- The 4096 bytes of the table. -/
def Idt.fields (idt : Idt) : List Field :=
  (List.range 256).flatMap fun i => (idt (.ofNat 8 i)).fields

def Idt.gate (idt : Idt) (vector : BitVec 8) : Gate :=
  .ofWord (slice (pack idt.fields) (128 * vector.toNat) 128)

/-- One call of `setIdtEntry`. -/
structure IdtCall where
  vector : BitVec 8
  handler : BitVec 64
  dpl : BitVec 8

namespace IdtCall

def run (idt : Idt) (call : IdtCall) : Idt := setIdtEntry idt call.vector call.handler call.dpl

def runAll (idt : Idt) (calls : List IdtCall) : Idt := calls.foldl run idt

/-- An interrupt gate through the code segment of the kernel. -/
def gate (call : IdtCall) : Gate where
  offset := call.handler.toNat
  selector := 8
  ist := 0
  type := 0b01110
  dpl := call.dpl.toNat % 4
  present := true

/-- The gate that a call puts at `vector`. -/
def gateAt (vector : BitVec 8) (call : IdtCall) : Option Gate :=
  if call.vector = vector then some call.gate else none

end IdtCall

theorem descriptor_width (entry : InterruptDescriptor) : totalWidth entry.fields = 128 := rfl

theorem descriptors_width (idt : Idt) (indices : List Nat) :
    totalWidth (indices.flatMap fun i => (idt (.ofNat 8 i)).fields) = 128 * indices.length := by
  induction indices with
  | nil => rfl
  | cons index rest ih =>
      rw [List.flatMap_cons, totalWidth_append, ih, descriptor_width, List.length_cons]
      omega

/-- The gate of a vector is made of its own descriptor. -/
theorem gate_eq (idt : Idt) (vector : BitVec 8) : idt.gate vector = .ofWord (pack (idt vector).fields) := by
  have small := vector.isLt
  have split : List.range 256 = List.range vector.toNat ++
      (vector.toNat :: (List.range (255 - vector.toNat)).map (vector.toNat + 1 + ·)) := by
    rw [show 256 = vector.toNat + 1 + (255 - vector.toNat) by omega, List.range_add,
      List.range_succ, List.append_assoc]
    rfl
  have front := descriptors_width idt (List.range vector.toNat)
  rw [List.length_range] at front
  rw [Idt.gate, Idt.fields, split, List.flatMap_append, List.flatMap_cons, ← front,
    ← descriptor_width (idt vector), BitVec.ofNat_toNat, BitVec.setWidth_eq, slice_pack]

theorem ofWord_pack_descriptor (entry : InterruptDescriptor) : Gate.ofWord (pack entry.fields) =
    { offset := entry.addressLow.toNat + 2 ^ 16 * entry.addressMid.toNat +
        2 ^ 32 * entry.addressHigh.toNat
      selector := entry.selector.toNat
      ist := slice entry.ist.toNat 0 3
      type := slice entry.flags.toNat 0 5
      dpl := slice entry.flags.toNat 5 2
      present := slice entry.flags.toNat 7 1 = 1 } := by
  obtain ⟨word, wordEq⟩ : ∃ word, word = pack entry.fields := ⟨_, rfl⟩
  have low : slice word 0 16 = entry.addressLow.toNat := by
    rw [wordEq]
    exact slice_of [] _ entry.addressLow
  have selector : slice word 16 16 = entry.selector.toNat := by
    rw [wordEq]
    exact slice_of (entry.fields.take 1) _ entry.selector
  have ist : slice word 32 8 = entry.ist.toNat := by
    rw [wordEq]
    exact slice_of (entry.fields.take 2) _ entry.ist
  have flags : slice word 40 8 = entry.flags.toNat := by
    rw [wordEq]
    exact slice_of (entry.fields.take 3) _ entry.flags
  have mid : slice word 48 16 = entry.addressMid.toNat := by
    rw [wordEq]
    exact slice_of (entry.fields.take 4) _ entry.addressMid
  have high : slice word 64 32 = entry.addressHigh.toNat := by
    rw [wordEq]
    exact slice_of (entry.fields.take 5) _ entry.addressHigh
  have inIst : slice word 32 3 = slice entry.ist.toNat 0 3 := by
    rw [← ist, slice_slice word (by decide)]
  have inFlags {inner width : Nat} (inside : inner + width ≤ 8) :
      slice word (40 + inner) width = slice entry.flags.toNat inner width := by
    rw [← flags, slice_slice word inside]
  rw [← wordEq]
  simp only [Gate.ofWord, low, selector, mid, high, inIst, ← inFlags (show 0 + 5 ≤ 8 by decide),
    ← inFlags (show 5 + 2 ≤ 8 by decide), ← inFlags (show 7 + 1 ≤ 8 by decide)]

/-- The three pieces of an address together are the address. -/
theorem address_pieces (address : BitVec 64) : ((address &&& 0xffff).setWidth 16).toNat +
    2 ^ 16 * (((address >>> 16) &&& 0xffff).setWidth 16).toNat +
    2 ^ 32 * ((address >>> 32).setWidth 32).toNat = address.toNat := by
  have bound := address.isLt
  have mask : (0xffff : BitVec 64).toNat = 2 ^ 16 - 1 := rfl
  simp only [BitVec.toNat_setWidth, BitVec.toNat_and, BitVec.toNat_ushiftRight, mask,
    Nat.shiftRight_eq_div_pow, Nat.and_two_pow_sub_one_eq_mod]
  omega

theorem flags_pieces (dpl : BitVec 8) (flags : BitVec 8)
    (flagsEq : flags = 0b1110 ||| ((dpl &&& 0b11) <<< 5) ||| 0x80) :
    slice flags.toNat 0 5 = 0b01110 ∧ slice flags.toNat 5 2 = dpl.toNat % 4 ∧
      slice flags.toNat 7 1 = 1 := by
  subst flagsEq
  revert dpl
  decide

theorem gate_run (idt : Idt) (call : IdtCall) (vector : BitVec 8) :
    (call.run idt).gate vector = (call.gateAt vector).getD (idt.gate vector) := by
  rw [gate_eq, gate_eq, IdtCall.run, IdtCall.gateAt, setIdtEntry]
  by_cases same : call.vector = vector
  · subst same
    obtain ⟨type, dpl, present⟩ := flags_pieces call.dpl _ rfl
    rw [if_pos rfl, Function.update_self, ofWord_pack_descriptor]
    simp only [address_pieces, type, dpl, present, Option.getD_some, IdtCall.gate]
    rfl
  · rw [if_neg same, Function.update_of_ne (Ne.symm same)]
    rfl

theorem gate_runAll (idt : Idt) (calls : List IdtCall) (vector : BitVec 8) :
    (IdtCall.runAll idt calls).gate vector =
      (lastSet (IdtCall.gateAt vector) calls).getD (idt.gate vector) :=
  foldl_field (Idt.gate · vector) (fun idt call => gate_run idt call vector) idt calls

theorem reserved_run (idt : Idt) (call : IdtCall) (vector : BitVec 8) :
    (call.run idt vector).reserved = (idt vector).reserved := by
  rw [IdtCall.run, setIdtEntry]
  by_cases same : vector = call.vector
  · rw [same, Function.update_self]
  · rw [Function.update_of_ne same]

theorem reserved_runAll (idt : Idt) (calls : List IdtCall) (vector : BitVec 8) :
    (IdtCall.runAll idt calls vector).reserved = (idt vector).reserved := by
  induction calls generalizing idt with
  | nil => rfl
  | cons call rest ih => exact (ih (call.run idt)).trans (reserved_run idt call vector)

/-- The calls that `initInts` makes. -/
def initIntsCalls (vector0Handler : BitVec 64) : List IdtCall :=
  (List.range 256).map fun i =>
    { vector := .ofNat 8 i, handler := vector0Handler + .ofNat 64 (i * 16), dpl := 0 }

theorem initInts_calls (idt : Idt) (vector0Handler : BitVec 64) :
    initInts idt vector0Handler = IdtCall.runAll idt (initIntsCalls vector0Handler) := by
  rw [initInts, IdtCall.runAll, initIntsCalls, List.foldl_map]
  rfl

/-- Among calls for different vectors the one for a vector is the last. -/
theorem lastSet_range {β : Type} (set : Nat → Option β) (count wanted : Nat) {value : β}
    (here : set wanted = some value) (others : ∀ i, i ≠ wanted → i < count → set i = none)
    (less : wanted < count) : lastSet set (List.range count) = some value := by
  induction count with
  | zero => exact absurd less (Nat.not_lt_zero _)
  | succ count ih =>
      rw [List.range_succ, lastSet_concat]
      by_cases last : count = wanted
      · rw [last, here]
        rfl
      · rw [others count last (Nat.lt_succ_self _),
          ih (fun i notWanted below => others i notWanted (Nat.lt_succ_of_lt below)) (by omega)]
        rfl

theorem initInts_gate (idt : Idt) (vector0Handler : BitVec 64) (vector : BitVec 8) :
    (initInts idt vector0Handler).gate vector =
      { offset := (vector0Handler + .ofNat 64 (vector.toNat * 16)).toNat, selector := 8, ist := 0,
        type := 0b01110, dpl := 0, present := true } := by
  have mine : lastSet (IdtCall.gateAt vector) (initIntsCalls vector0Handler) = some
      { offset := (vector0Handler + .ofNat 64 (vector.toNat * 16)).toNat, selector := 8, ist := 0,
        type := 0b01110, dpl := 0, present := true } := by
    rw [initIntsCalls, lastSet, ← List.map_reverse, List.findSome?_map]
    apply lastSet_range _ 256 vector.toNat
    · rw [Function.comp_apply, IdtCall.gateAt, if_pos (by simp)]
      rfl
    · intro i other less
      rw [Function.comp_apply, IdtCall.gateAt, if_neg]
      intro same
      rw [← same, BitVec.toNat_ofNat, Nat.mod_eq_of_lt less] at other
      exact other rfl
    · exact vector.isLt
  rw [initInts_calls, gate_runAll, mine]
  rfl

/-- After any calls of `setIdtEntry` on any table the processor finds at every vector the gate
of the last call for it, and what was there if there was none; after `initInts` it finds at all
256 vectors gates to addresses 16 bytes apart. -/
theorem idt_gates (idt : Idt) (calls : List IdtCall) (vector0Handler : BitVec 64)
    (vector : BitVec 8) :
    (IdtCall.runAll idt calls).gate vector =
        (((calls.reverse.find? fun call => call.vector = vector).map IdtCall.gate).getD
          (idt.gate vector)) ∧
      (IdtCall.runAll idt calls vector).reserved = (idt vector).reserved ∧
      (IdtCall.runAll (initInts idt vector0Handler) calls).gate vector =
        (((calls.reverse.find? fun call => call.vector = vector).map IdtCall.gate).getD
          { offset := (vector0Handler + .ofNat 64 (vector.toNat * 16)).toNat, selector := 8,
            ist := 0, type := 0b01110, dpl := 0, present := true }) := by
  have last : lastSet (IdtCall.gateAt vector) calls =
      (calls.reverse.find? fun call => call.vector = vector).map IdtCall.gate := by
    rw [lastSet]
    induction calls.reverse with
    | nil => rfl
    | cons call rest ih =>
        rw [List.findSome?_cons, List.find?_cons, IdtCall.gateAt]
        by_cases same : call.vector = vector
        · simp [same]
        · simpa [same] using ih
  refine ⟨?_, ?_, ?_⟩
  · rw [gate_runAll, last]
  · exact reserved_runAll idt calls vector
  · rw [gate_runAll, last, initInts_gate]

/-! `idt/stubs.asm`. -/

open Assembly

inductive StubLabel where
  | interruptStub
  | vectorHandler (vector : Nat)
deriving DecidableEq

/-- Every jump knows the handler it is in: the nearer ones may take fewer bytes. -/
inductive StubInstr where
  | instr (instr : Instr)
  | jmpInterruptStub (vector : Nat)
  | iret
deriving DecidableEq

def interruptStub : List StubInstr :=
  (interruptStubEntry ++ .callInterruptDispatch :: interruptStubExit).map .instr ++ [.iret]

def handlerBody (vector : Nat) : List StubInstr :=
  (vectorHandler vector).map .instr ++ [.jmpInterruptStub vector]

def stubsAsm : List (Line StubLabel StubInstr) :=
  .label .interruptStub :: interruptStub.map .code ++
    blocks 16 .vectorHandler handlerBody 256

/-- The file at `start`, with a given length of every instruction. -/
def stubs (size : StubInstr → Nat) (start : Word) (dispatch : Cpu → Cpu) :
    Program StubLabel StubInstr Cpu where
  lines := stubsAsm
  size := size
  effect behind instr cpu := match instr with
    | .instr instr => .next (OkeOS.step dispatch (start + .ofNat 64 behind) cpu instr)
    | .jmpInterruptStub _ => .jump .interruptStub cpu
    | .iret => .stop

/-- The address of `vector_0_handler` after linking. -/
def vector0Handler (size : StubInstr → Nat) (start : Word) : Option Word :=
  (offsetOf size (.vectorHandler 0) 0 stubsAsm).map fun offset => start + .ofNat 64 offset

/-- `push`, `jmp` and `call` take at most five bytes, and the others fewer. -/
def Encodes (size : StubInstr → Nat) : Prop := ∀ instr, 0 < size instr ∧ size instr ≤ 5

/-- Where the handler of a vector starts. -/
def handlerOffset (size : StubInstr → Nat) (vector : Nat) : Nat :=
  alignUp 16 (bytes size interruptStub) + 16 * vector

/-- Where `interrupt_stub` calls. -/
def callOffset (size : StubInstr → Nat) : Nat := bytes size (interruptStubEntry.map .instr)

def behindCall (size : StubInstr → Nat) : Nat :=
  callOffset size + size (.instr .callInterruptDispatch)

def iretOffset (size : StubInstr → Nat) : Nat :=
  behindCall size + bytes size (interruptStubExit.map .instr)

section

variable {size : StubInstr → Nat}

theorem placed_stubsAsm : placed size 0 stubsAsm =
    placed size 0 (interruptStub.map .code : List (Line StubLabel StubInstr)) ++
      placed size (bytes size interruptStub) (blocks 16 StubLabel.vectorHandler handlerBody 256) := by
  rw [stubsAsm, List.cons_append, placed, placed_append, endOf_instrs, Nat.zero_add]

theorem vector0Handler_eq (start : Word) :
    vector0Handler size start = some (start + .ofNat 64 (handlerOffset size 0)) := by
  have first : offsetOf size (.vectorHandler 0) 0 stubsAsm = some (handlerOffset size 0) := by
    have noLabel : StubLabel.interruptStub ≠ .vectorHandler 0 := by decide
    rw [stubsAsm, List.cons_append, offsetOf, if_neg noLabel, offsetOf_append, offsetOf_unlabelled,
      Option.none_or, endOf_instrs, Nat.zero_add, offsetOf_blocks, handlerOffset, Nat.mul_zero,
      Nat.add_zero]
  rw [vector0Handler, first]
  rfl

/-- Instructions other than the call do the same wherever they lie. -/
theorem reaches_plain {start : Word} {dispatch : Cpu → Cpu} {code : List Instr}
    (noCall : .callInterruptDispatch ∉ code) (returnAddress : Word) (cpu : Cpu) (offset : Nat)
    (lies : ∀ entry ∈ placed size offset
      ((code.map StubInstr.instr).map .code : List (Line StubLabel StubInstr)),
      (stubs size start dispatch).fetch entry.1 = some entry.2) :
    (stubs size start dispatch).Reaches (offset, cpu)
      (offset + bytes size (code.map .instr), execute dispatch returnAddress code cpu) := by
  let run (cpu : Cpu) (instr : StubInstr) : Cpu := match instr with
    | .instr instr => OkeOS.step dispatch returnAddress cpu instr
    | _ => cpu
  have folded : execute dispatch returnAddress code cpu = (code.map .instr).foldl run cpu := by
    rw [List.foldl_map]
    rfl
  rw [folded]
  apply Program.reaches_straight run cpu offset lies
  intro instr member behind cpu
  obtain ⟨plain, inCode, rfl⟩ := List.mem_map.mp member
  cases plain with
  | callInterruptDispatch => exact absurd inCode noCall
  | _ => rfl

/-- The parts of `interrupt_stub` with the places where they lie. -/
theorem placed_interruptStub :
    placed size 0 (interruptStub.map .code : List (Line StubLabel StubInstr)) =
      placed size 0 ((interruptStubEntry.map .instr).map .code : List (Line StubLabel StubInstr)) ++
        ((callOffset size, .instr .callInterruptDispatch) ::
          (placed size (behindCall size)
              ((interruptStubExit.map .instr).map .code : List (Line StubLabel StubInstr)) ++
            [(iretOffset size, .iret)])) := by
  have parts : interruptStub = interruptStubEntry.map .instr ++
      .instr .callInterruptDispatch :: (interruptStubExit.map .instr ++ [.iret]) := rfl
  rw [parts, List.map_append, placed_append, endOf_instrs, Nat.zero_add, List.map_cons, placed,
    List.map_append, placed_append, endOf_instrs]
  rfl

variable (encodes : Encodes size)

include encodes

theorem bytes_le (body : List StubInstr) : bytes size body ≤ 5 * body.length := by
  induction body with
  | nil => exact Nat.le_refl _
  | cons instr rest ih =>
      have small := (encodes instr).2
      rw [bytes, List.map_cons, List.sum_cons, List.length_cons]
      rw [bytes] at ih
      omega

theorem handlerBody_fits (vector : Nat) :
    0 < bytes size (handlerBody vector) ∧ bytes size (handlerBody vector) ≤ 16 := by
  have most := bytes_le encodes (handlerBody vector)
  have length : (handlerBody vector).length ≤ 3 := by
    rw [handlerBody, vectorHandler]
    split
    · simp
    · simp
  have jump := (encodes (.jmpInterruptStub vector)).1
  refine ⟨?_, by omega⟩
  rw [handlerBody, bytes, List.map_append, List.sum_append]
  change 0 < _ + (size (.jmpInterruptStub vector) + 0)
  omega

theorem fetch_stub (start : Word) (dispatch : Cpu → Cpu) (entry : Nat × StubInstr)
    (member : entry ∈ placed size 0 (interruptStub.map .code : List (Line StubLabel StubInstr))) :
    (stubs size start dispatch).fetch entry.1 = some entry.2 := by
  apply Program.fetch_placed fun instr => (encodes instr).1
  change entry ∈ placed size 0 stubsAsm
  rw [placed_stubsAsm]
  exact List.mem_append_left _ member

theorem fetch_handler (start : Word) (dispatch : Cpu → Cpu) {vector : Nat} (small : vector < 256)
    {entry : Nat × StubInstr} (member : entry ∈ placed size (handlerOffset size vector)
      ((handlerBody vector).map .code : List (Line StubLabel StubInstr))) :
    (stubs size start dispatch).fetch entry.1 = some entry.2 := by
  apply Program.fetch_placed fun instr => (encodes instr).1
  change entry ∈ placed size 0 stubsAsm
  rw [placed_stubsAsm]
  exact List.mem_append_right _
    (placed_blocks (by decide) (handlerBody_fits encodes) small _ member)

section

variable (start : Word) (dispatch : Cpu → Cpu)

/-- The handler of a vector runs to `interrupt_stub`. -/
theorem handler_reaches {vector : Nat} (small : vector < 256) (returnAddress : Word) (cpu : Cpu) :
    (stubs size start dispatch).Reaches (handlerOffset size vector, cpu)
      (0, execute dispatch returnAddress (vectorHandler vector) cpu) := by
  have noCall : .callInterruptDispatch ∉ vectorHandler vector := by
    rw [vectorHandler]
    split
    · simp
    · simp
  have lies {entry : Nat × StubInstr} (member : entry ∈
      placed size (handlerOffset size vector)
          (((vectorHandler vector).map .instr).map .code : List (Line StubLabel StubInstr)) ++
        [(handlerOffset size vector + bytes size ((vectorHandler vector).map .instr),
          .jmpInterruptStub vector)]) :
      (stubs size start dispatch).fetch entry.1 = some entry.2 := by
    apply fetch_handler encodes start dispatch small
    rw [handlerBody, List.map_append, placed_append, endOf_instrs]
    exact member
  have pushes := reaches_plain noCall returnAddress cpu (handlerOffset size vector)
    fun entry member => lies (List.mem_append_left _ member)
  have jump : (stubs size start dispatch).Reaches
      (handlerOffset size vector + bytes size ((vectorHandler vector).map .instr),
        execute dispatch returnAddress (vectorHandler vector) cpu)
      (0, execute dispatch returnAddress (vectorHandler vector) cpu) :=
    Program.reaches_jump (lies (List.mem_append_right _ List.mem_cons_self)) rfl (if_pos rfl)
  exact pushes.trans jump

/-- `interrupt_stub` runs to its call. -/
theorem entry_reaches (returnAddress : Word) (cpu : Cpu) :
    (stubs size start dispatch).Reaches (0, cpu)
      (callOffset size, execute dispatch returnAddress interruptStubEntry cpu) := by
  have noCall : .callInterruptDispatch ∉ interruptStubEntry := by decide
  have pushes := reaches_plain noCall returnAddress cpu 0 fun entry member =>
    fetch_stub encodes start dispatch entry (placed_interruptStub ▸ List.mem_append_left _ member)
  rwa [Nat.zero_add] at pushes

theorem fetch_call : (stubs size start dispatch).fetch (callOffset size) =
    some (.instr .callInterruptDispatch) := by
  apply fetch_stub encodes start dispatch (callOffset size, .instr .callInterruptDispatch)
  rw [placed_interruptStub]
  exact List.mem_append_right _ List.mem_cons_self

theorem fetch_iret : (stubs size start dispatch).fetch (iretOffset size) = some .iret := by
  apply fetch_stub encodes start dispatch (iretOffset size, .iret)
  rw [placed_interruptStub]
  simp

/-- From the call on `interrupt_stub` runs to `iret`. -/
theorem exit_reaches (cpu : Cpu) (returnAddress : Word)
    (behind : returnAddress = start + .ofNat 64 (behindCall size)) :
    (stubs size start dispatch).Reaches (callOffset size, cpu) (iretOffset size,
      execute dispatch returnAddress interruptStubExit (dispatch (cpu.push returnAddress))) := by
  have noCall : .callInterruptDispatch ∉ interruptStubExit := by decide
  have call : (stubs size start dispatch).Reaches (callOffset size, cpu)
      (behindCall size, dispatch (cpu.push returnAddress)) :=
    Program.reaches_next (fetch_call encodes start dispatch) (behind ▸ rfl)
  have pops := reaches_plain noCall returnAddress (dispatch (cpu.push returnAddress))
    (behindCall size) fun entry member => fetch_stub encodes start dispatch entry
      (placed_interruptStub ▸ List.mem_append_right _
        (List.mem_cons_of_mem _ (List.mem_append_left _ member)))
  exact call.trans pops

end

end

/-! From the vector to the call. -/

/-- A code segment descriptor of 8 bytes. -/
structure CodeSegment where
  present : Bool
  dpl : Nat
  code : Bool
  long : Bool
deriving DecidableEq

def CodeSegment.ofWord (word : Nat) : CodeSegment where
  present := slice word 47 1 = 1
  dpl := slice word 45 2
  code := slice word 43 2 = 3
  long := slice word 53 2 = 1

def GDT.codeSegment (gdt : GDT) (selector : Nat) : CodeSegment :=
  .ofWord (slice (pack gdt.fields) (8 * selector) 64)

/-- The processor goes through the gate with interrupts disabled and no stack of the TSS, into
64-bit code of ring 0. -/
structure Gate.EntersKernel (gate : Gate) (gdt : GDT) : Prop where
  present : gate.present = true
  interruptGate : gate.type = 0b01110
  noStackTable : gate.ist = 0
  onlyHardware : gate.dpl = 0
  segment : gdt.codeSegment gate.selector =
    { present := true, dpl := 0, code := true, long := true }

theorem kernelCode_segment (state : GdtState) (table : state.defaultGDT = defaultGDT)
    (tss gdt : BitVec 64) : (gdtInit state tss gdt).defaultGDT.codeSegment 8 =
      { present := true, dpl := 0, code := true, long := true } := by
  have kept : (gdtInit state tss gdt).defaultGDT.kernelCode = .segment 0x9a 0xa0 := by
    change state.defaultGDT.kernelCode = _
    rw [table]
    rfl
  have before : totalWidth (gdtInit state tss gdt).defaultGDT.null.fields = 8 * 8 := rfl
  have width : totalWidth (gdtInit state tss gdt).defaultGDT.kernelCode.fields = 64 := rfl
  rw [GDT.codeSegment, GDT.fields]
  simp only [List.append_assoc]
  rw [← before, ← width, slice_pack, kept]
  decide

/-- Where in the file an address lies. -/
def offsetIn (start : Word) (address : Nat) : Nat := (BitVec.ofNat 64 address - start).toNat

theorem handlerOffset_lt {size : StubInstr → Nat} (encodes : Encodes size) {vector : Nat}
    (small : vector < 256) : handlerOffset size vector < 2 ^ 64 := by
  have stub := bytes_le encodes interruptStub
  have length : interruptStub.length = 27 := rfl
  have padding := Nat.mod_lt (16 - bytes size interruptStub % 16) (show 0 < 16 by decide)
  rw [handlerOffset, alignUp]
  omega

/-- The gate of a vector holds the address of its handler. -/
theorem offsetIn_gate {size : StubInstr → Nat} (encodes : Encodes size) (start : Word)
    (vector : Fin 256) : offsetIn start
      (start + .ofNat 64 (handlerOffset size 0) + .ofNat 64 (vector.val * 16)).toNat =
        handlerOffset size vector := by
  have bound := handlerOffset_lt encodes vector.isLt
  have parts : handlerOffset size 0 + vector.val * 16 = handlerOffset size vector := by
    rw [handlerOffset, handlerOffset]
    omega
  rw [offsetIn, BitVec.ofNat_toNat, BitVec.setWidth_eq, BitVec.add_assoc, ← BitVec.ofNat_add, parts,
    BitVec.add_comm start, BitVec.add_sub_cancel, BitVec.toNat_ofNat, Nat.mod_eq_of_lt bound]

/-- Wherever the handlers are linked to and however long their instructions are, after `gdt_init`
and `initInts` an interrupt of any vector goes through a gate for the kernel into code that comes
to the call of `interruptDispatch` with the status of this interrupt on the stack, and from there
to `iret`. -/
theorem interrupt_delivered {size : StubInstr → Nat} (encodes : Encodes size) (start : Word)
    (state : GdtState) (table : state.defaultGDT = defaultGDT) (tss gdt : BitVec 64) :
    ∃ first, vector0Handler size start = some first ∧
      ∀ (idt : Idt) (interrupt : Interrupt) (dispatch : Cpu → Cpu),
        ((initInts idt first).gate (.ofNat 8 interrupt.vector)).EntersKernel
            (gdtInit state tss gdt).defaultGDT ∧
          (stubs size start dispatch).fetch (callOffset size) =
            some (.instr .callInterruptDispatch) ∧
          (stubs size start dispatch).Reaches
            (offsetIn start ((initInts idt first).gate (.ofNat 8 interrupt.vector)).offset,
              interrupt.entered)
            (callOffset size, interrupt.atCall) ∧
          statusAt interrupt.atCall.mem (interrupt.atCall.reg .rsp) = interrupt.status ∧
          (stubs size start dispatch).fetch (iretOffset size) = some .iret ∧
          (interrupt.returnAddress = start + .ofNat 64 (behindCall size) →
            (stubs size start dispatch).Reaches (callOffset size, interrupt.atCall)
              (iretOffset size, interrupt.atIret dispatch)) := by
  refine ⟨_, vector0Handler_eq start, fun idt interrupt dispatch => ?_⟩
  have vector : (BitVec.ofNat 8 interrupt.vector).toNat = interrupt.vector.val := by
    rw [BitVec.toNat_ofNat, Nat.mod_eq_of_lt interrupt.vector.isLt]
  have handler := handler_reaches encodes start dispatch interrupt.vector.isLt
    interrupt.returnAddress interrupt.entered
  have entry := entry_reaches encodes start dispatch interrupt.returnAddress
    (execute dispatch interrupt.returnAddress (vectorHandler interrupt.vector) interrupt.entered)
  have noCall : .callInterruptDispatch ∉ vectorHandler interrupt.vector ++ interruptStubEntry := by
    rw [vectorHandler]
    split
    · simp [interruptStubEntry]
    · simp [interruptStubEntry]
  rw [← execute_append, execute_noCall noCall] at entry
  refine ⟨?_, fetch_call encodes start dispatch, ?_, ?_, fetch_iret encodes start dispatch, ?_⟩
  · rw [initInts_gate]
    exact ⟨rfl, rfl, rfl, rfl, kernelCode_segment state table tss gdt⟩
  · rw [initInts_gate, vector, offsetIn_gate encodes]
    exact handler.trans entry
  · apply CPUStatus.words_injective
    rw [statusAt_words, interrupt.atCall_words]
  · intro behind
    rw [interrupt.atIret_eq]
    exact exit_reaches encodes start dispatch interrupt.atCall interrupt.returnAddress behind

/-- The lengths with near jumps everywhere. -/
def nearSize : StubInstr → Nat
  | .instr (.push reg) | .instr (.pop reg) =>
      if reg ∈ [.r8, .r9, .r10, .r11, .r12, .r13, .r14, .r15] then 2 else 1
  | .instr (.pushQword value) => if value < 128 then 2 else 5
  | .instr (.addRsp _) => 4
  | .instr .callInterruptDispatch | .jmpInterruptStub _ => 5
  | .iret => 1

theorem nearSize_encodes : Encodes nearSize := by
  intro instr
  rcases instr with plain | vector | _
  · cases plain with
    | push reg => cases reg <;> decide
    | pop reg => cases reg <;> decide
    | pushQword value =>
        rw [nearSize]
        split
        · decide
        · decide
    | addRsp value => simp [nearSize]
    | callInterruptDispatch => decide
  · simp [nearSize]
  · decide

/-- `idt` before `initInts`. -/
def zeroIdt : Idt := fun _ =>
  { addressLow := 0, selector := 0, ist := 0, flags := 0, addressMid := 0, addressHigh := 0,
    reserved := 0 }

/-- A page fault with the handlers at the start of the kernel. -/
theorem interrupt_delivered_pageFault :
    ((initInts zeroIdt 0xffffffff80000040).gate 14).EntersKernel
        (gdtInit ⟨defaultGDT, ⟨0, 0⟩, ⟨0, 0⟩, 0⟩ 0xffffffff8000c800 0xffffffff80009000).defaultGDT ∧
      (stubs nearSize 0xffffffff80000000 id).Reaches
        (offsetIn 0xffffffff80000000 ((initInts zeroIdt 0xffffffff80000040).gate 14).offset,
          pageFaultAtZero.entered)
        (callOffset nearSize, pageFaultAtZero.atCall) := by
  obtain ⟨first, symbol, delivered⟩ := interrupt_delivered nearSize_encodes 0xffffffff80000000
    ⟨defaultGDT, ⟨0, 0⟩, ⟨0, 0⟩, 0⟩ rfl 0xffffffff8000c800 0xffffffff80009000
  have linked : vector0Handler nearSize 0xffffffff80000000 = some 0xffffffff80000040 := by
    rw [vector0Handler_eq]
    decide
  obtain rfl : 0xffffffff80000040 = first := Option.some_injective _ (linked.symm.trans symbol)
  obtain ⟨enters, _, reaches, _⟩ := delivered zeroIdt pageFaultAtZero id
  exact ⟨enters, reaches⟩

end OkeOS
