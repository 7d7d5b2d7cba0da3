import OkeOS.PackedFields

/-!
`gdt/gdt.cpp`: the TSS descriptor that `gdt_init` puts into the descriptor table, and what the
processor reads there.
-/

namespace OkeOS

open PackedFields

/-- A packed struct of 16 bytes. -/
structure TSSDescriptor where
  limitLow : BitVec 16
  baseLow : BitVec 16
  baseMid : BitVec 8
  type : BitVec 4
  zero : BitVec 1
  dpl : BitVec 2
  p : BitVec 1
  limitHigh : BitVec 4
  avl : BitVec 1
  l : BitVec 1
  db : BitVec 1
  g : BitVec 1
  baseHigh : BitVec 8
  baseUpper : BitVec 32
  reserved : BitVec 32

/-- A packed struct of 8 bytes. -/
structure GDTEntry where
  limit0 : BitVec 16
  base0 : BitVec 16
  base1 : BitVec 8
  accessByte : BitVec 8
  limit1Flags : BitVec 8
  base2 : BitVec 8

structure GDT where
  null : GDTEntry
  kernelCode : GDTEntry
  kernelData : GDTEntry
  userNull : GDTEntry
  userCode : GDTEntry
  userData : GDTEntry
  tss : GDTEntry

structure GDTDescriptor where
  size : BitVec 16
  offset : BitVec 64

/-- `TSS_ENTRY`. -/
def tssEntry (base limit : BitVec 64) : TSSDescriptor where
  limitLow := (limit &&& 0xffff).setWidth 16
  baseLow := (base &&& 0xffff).setWidth 16
  baseMid := ((base >>> 16) &&& 0xff).setWidth 8
  type := 0x9
  zero := 0x0
  dpl := 0x0
  p := 0x1
  limitHigh := ((limit >>> 16) &&& 0x0f).setWidth 4
  avl := 0x0
  l := 0x0
  db := 0x0
  g := 0x1
  baseHigh := ((base >>> 24) &&& 0xff).setWidth 8
  baseUpper := ((base >>> 32) &&& 0xffffffff).setWidth 32
  reserved := 0x00000000

namespace TSSDescriptor

/-- The first eight bytes. -/
def lowFields (desc : TSSDescriptor) : List Field :=
  [.of desc.limitLow, .of desc.baseLow, .of desc.baseMid, .of desc.type, .of desc.zero,
    .of desc.dpl, .of desc.p, .of desc.limitHigh, .of desc.avl, .of desc.l, .of desc.db,
    .of desc.g, .of desc.baseHigh]

def fields (desc : TSSDescriptor) : List Field :=
  desc.lowFields ++ [.of desc.baseUpper, .of desc.reserved]

end TSSDescriptor

namespace GDTEntry

def fields (entry : GDTEntry) : List Field :=
  [.of entry.limit0, .of entry.base0, .of entry.base1, .of entry.accessByte,
    .of entry.limit1Flags, .of entry.base2]

/-- Eight bytes read as an entry. -/
def ofWord (word : Nat) : GDTEntry where
  limit0 := .ofNat 16 (slice word 0 16)
  base0 := .ofNat 16 (slice word 16 16)
  base1 := .ofNat 8 (slice word 32 8)
  accessByte := .ofNat 8 (slice word 40 8)
  limit1Flags := .ofNat 8 (slice word 48 8)
  base2 := .ofNat 8 (slice word 56 8)

def segment (accessByte limit1Flags : BitVec 8) : GDTEntry :=
  { limit0 := 0, base0 := 0, base1 := 0, accessByte := accessByte, limit1Flags := limit1Flags,
    base2 := 0 }

end GDTEntry

/-- `defaultGDT` before `gdt_init`. -/
def defaultGDT : GDT where
  null := .segment 0x00 0x00
  kernelCode := .segment 0x9a 0xa0
  kernelData := .segment 0x92 0xa0
  userNull := .segment 0x00 0x00
  userCode := .segment 0x9a 0xa0
  userData := .segment 0x92 0xa0
  tss := .segment 0x00 0x00

/-- The alignment makes a page of it. -/
def sizeofGDT : Nat := 0x1000

def sizeofTSSEntry : Nat := 104

/-- The bytes of the table: seven entries, then the padding. -/
def GDT.fields (gdt : GDT) : List Field :=
  (gdt.null.fields ++ gdt.kernelCode.fields ++ gdt.kernelData.fields ++ gdt.userNull.fields ++
    gdt.userCode.fields ++ gdt.userData.fields) ++
    (gdt.tss.fields ++ [{ width := 64, value := 0 }]) ++
    [{ width := 8 * (sizeofGDT - 64), value := 0 }]

/-- The table in memory, its descriptor, and the two registers that are loaded. -/
structure GdtState where
  defaultGDT : GDT
  gdtDescriptor : GDTDescriptor
  gdtr : GDTDescriptor
  tr : BitVec 16

def loadGDT (state : GdtState) : GdtState := { state with gdtr := state.gdtDescriptor }

/-- `ltr` also marks the descriptor at the selector as busy. -/
def loadTSS (state : GdtState) (sel : BitVec 16) : GdtState :=
  { state with
    tr := sel
    defaultGDT := { state.defaultGDT with
      tss := { state.defaultGDT.tss with accessByte := state.defaultGDT.tss.accessByte ||| 0x2 } } }

/-- `tss` and `gdt` are the addresses of `tss` and `defaultGDT`. -/
def gdtInit (state : GdtState) (tss gdt : BitVec 64) : GdtState :=
  let tssDesc := tssEntry tss (.ofNat 64 sizeofTSSEntry)
  let state := { state with
    defaultGDT := { state.defaultGDT with tss := .ofWord (pack tssDesc.fields) }
    gdtDescriptor := { size := .ofNat 16 (sizeofGDT - 1), offset := gdt } }
  loadTSS (loadGDT state) 0x30

/-! What the processor reads at a selector. -/

/-- A system descriptor of 64-bit mode: 16 bytes. -/
structure SystemDescriptor where
  base : Nat
  limit : Nat
  granular : Bool

def SystemDescriptor.ofWord (word : Nat) : SystemDescriptor where
  base := slice word 16 24 + 2 ^ 24 * slice word 56 8 + 2 ^ 32 * slice word 64 32
  limit := slice word 0 16 + 2 ^ 16 * slice word 48 4
  granular := slice word 55 1 = 1

/-- The offset of the last byte of the segment. -/
def SystemDescriptor.byteLimit (desc : SystemDescriptor) : Nat :=
  if desc.granular then desc.limit * 4096 + 4095 else desc.limit

def GDT.systemDescriptor (gdt : GDT) (selector : Nat) : SystemDescriptor :=
  .ofWord (slice (pack gdt.fields) (8 * selector) 128)

/-- The descriptor at selector 0x30 is that of a TSS at `tss`. -/
structure EncodesTSS (state : GdtState) (tss : BitVec 64) : Prop where
  base : (state.defaultGDT.systemDescriptor 0x30).base = tss.toNat
  limit : (state.defaultGDT.systemDescriptor 0x30).byteLimit = sizeofTSSEntry - 1

theorem entry_width (entry : GDTEntry) : totalWidth entry.fields = 64 := rfl

/-- The descriptor is made of the TSS entry and of the padding behind it. -/
theorem systemDescriptor_tss (gdt : GDT) : gdt.systemDescriptor 0x30 =
    .ofWord (pack (gdt.tss.fields ++ [{ width := 64, value := 0 }])) := by
  obtain ⟨front, frontEq⟩ : ∃ front, front = gdt.null.fields ++ gdt.kernelCode.fields ++
      gdt.kernelData.fields ++ gdt.userNull.fields ++ gdt.userCode.fields ++
      gdt.userData.fields := ⟨_, rfl⟩
  have before : totalWidth front = 8 * 0x30 := by
    simp only [frontEq, totalWidth_append, entry_width]
  have width : totalWidth (gdt.tss.fields ++ [{ width := 64, value := 0 }]) = 128 := by
    rw [totalWidth_append, entry_width]
    rfl
  rw [GDT.systemDescriptor, GDT.fields, ← frontEq, List.append_assoc, ← before, ← width, slice_pack]

section

variable (entry : GDTEntry)

theorem padded_base :
    (SystemDescriptor.ofWord (pack (entry.fields ++ [{ width := 64, value := 0 }]))).base =
      entry.base0.toNat + 2 ^ 16 * entry.base1.toNat + 2 ^ 24 * entry.base2.toNat := by
  obtain ⟨word, wordEq⟩ : ∃ word, word = pack (entry.fields ++ [{ width := 64, value := 0 }]) :=
    ⟨_, rfl⟩
  have low : slice word 16 24 = pack [.of entry.base0, .of entry.base1] := by
    rw [wordEq]
    exact slice_pack [.of entry.limit0] [.of entry.base0, .of entry.base1] _
  have high : slice word 56 8 = entry.base2.toNat := by
    rw [wordEq]
    exact slice_of [.of entry.limit0, .of entry.base0, .of entry.base1, .of entry.accessByte,
      .of entry.limit1Flags] _ entry.base2
  have upper : slice word 64 32 = 0 := by
    have small : word < 2 ^ 64 := by
      rw [wordEq, pack_append, pack_one, Nat.zero_mod, Nat.mul_zero, Nat.add_zero]
      exact pack_lt entry.fields
    rw [slice, Nat.div_eq_of_lt small, Nat.zero_mod]
  have pair : pack [.of entry.base0, .of entry.base1] =
      entry.base0.toNat + 2 ^ 16 * entry.base1.toNat := by
    have first := Nat.mod_eq_of_lt entry.base0.isLt
    have second := Nat.mod_eq_of_lt entry.base1.isLt
    simp only [pack, Field.of, first, second, Nat.mul_zero, Nat.add_zero]
  rw [← wordEq]
  simp only [SystemDescriptor.ofWord, low, high, upper, pair, Nat.mul_zero, Nat.add_zero]

theorem padded_byteLimit :
    (SystemDescriptor.ofWord (pack (entry.fields ++ [{ width := 64, value := 0 }]))).byteLimit =
      if slice entry.limit1Flags.toNat 7 1 = 1 then
        (entry.limit0.toNat + 2 ^ 16 * slice entry.limit1Flags.toNat 0 4) * 4096 + 4095
      else entry.limit0.toNat + 2 ^ 16 * slice entry.limit1Flags.toNat 0 4 := by
  obtain ⟨word, wordEq⟩ : ∃ word, word = pack (entry.fields ++ [{ width := 64, value := 0 }]) :=
    ⟨_, rfl⟩
  have low : slice word 0 16 = entry.limit0.toNat := by
    rw [wordEq]
    exact slice_of [] _ entry.limit0
  have flags : slice word 48 8 = entry.limit1Flags.toNat := by
    rw [wordEq]
    exact slice_of [.of entry.limit0, .of entry.base0, .of entry.base1, .of entry.accessByte] _
      entry.limit1Flags
  have high : slice word 48 4 = slice entry.limit1Flags.toNat 0 4 := by
    rw [← flags, slice_slice word (by decide)]
  have granular : slice word 55 1 = slice entry.limit1Flags.toNat 7 1 := by
    rw [← flags, slice_slice word (by decide)]
  rw [← wordEq]
  simp only [SystemDescriptor.byteLimit, SystemDescriptor.ofWord, low, high, granular,
    decide_eq_true_eq]

end

section

variable (desc : TSSDescriptor)

/-- The assignment through `GDTEntry` copies the first eight bytes of the descriptor. -/
theorem ofWord_pack : (GDTEntry.ofWord (pack desc.fields)).limit0 = desc.limitLow ∧
    (GDTEntry.ofWord (pack desc.fields)).base0 = desc.baseLow ∧
    (GDTEntry.ofWord (pack desc.fields)).base1 = desc.baseMid ∧
    (GDTEntry.ofWord (pack desc.fields)).limit1Flags =
      .ofNat 8 (pack [.of desc.limitHigh, .of desc.avl, .of desc.l, .of desc.db, .of desc.g]) ∧
    (GDTEntry.ofWord (pack desc.fields)).base2 = desc.baseHigh := by
  have limit0 : slice (pack desc.fields) 0 16 = desc.limitLow.toNat := slice_of [] _ desc.limitLow
  have base0 : slice (pack desc.fields) 16 16 = desc.baseLow.toNat :=
    slice_of (desc.lowFields.take 1) _ desc.baseLow
  have base1 : slice (pack desc.fields) 32 8 = desc.baseMid.toNat :=
    slice_of (desc.lowFields.take 2) _ desc.baseMid
  have flags : slice (pack desc.fields) 48 8 =
      pack [.of desc.limitHigh, .of desc.avl, .of desc.l, .of desc.db, .of desc.g] :=
    slice_pack (desc.lowFields.take 7)
      [.of desc.limitHigh, .of desc.avl, .of desc.l, .of desc.db, .of desc.g] _
  have base2 : slice (pack desc.fields) 56 8 = desc.baseHigh.toNat :=
    slice_of (desc.lowFields.take 12) _ desc.baseHigh
  simp only [GDTEntry.ofWord, limit0, base0, base1, flags, base2, BitVec.ofNat_toNat,
    BitVec.setWidth_eq, and_self]

end

/-! After `gdt_init`. -/

theorem tssEntry_base (base limit : BitVec 64) :
    (tssEntry base limit).baseLow.toNat + 2 ^ 16 * (tssEntry base limit).baseMid.toNat +
      2 ^ 24 * (tssEntry base limit).baseHigh.toNat = base.toNat % 2 ^ 32 := by
  have low : (tssEntry base limit).baseLow.toNat = base.toNat % 2 ^ 16 := by
    rw [tssEntry, BitVec.toNat_setWidth, BitVec.toNat_and,
      show (0xffff : BitVec 64).toNat = 2 ^ 16 - 1 from rfl, Nat.and_two_pow_sub_one_eq_mod, Nat.mod_mod]
  have byte (shift : Nat) : (((base >>> shift) &&& 0xff).setWidth 8).toNat =
      base.toNat / 2 ^ shift % 2 ^ 8 := by
    rw [BitVec.toNat_setWidth, BitVec.toNat_and, BitVec.toNat_ushiftRight,
      Nat.shiftRight_eq_div_pow, show (0xff : BitVec 64).toNat = 2 ^ 8 - 1 from rfl,
      Nat.and_two_pow_sub_one_eq_mod, Nat.mod_mod]
  have mid : (tssEntry base limit).baseMid.toNat = base.toNat / 2 ^ 16 % 2 ^ 8 := byte 16
  have high : (tssEntry base limit).baseHigh.toNat = base.toNat / 2 ^ 24 % 2 ^ 8 := byte 24
  rw [low, mid, high]
  omega

/-- The limit of a TSS, in a descriptor that counts pages. -/
theorem tssEntry_limit (base : BitVec 64) :
    (tssEntry base (.ofNat 64 sizeofTSSEntry)).limitLow = 104 ∧
      .ofNat 8 (pack [.of (tssEntry base (.ofNat 64 sizeofTSSEntry)).limitHigh,
        .of (tssEntry base (.ofNat 64 sizeofTSSEntry)).avl,
        .of (tssEntry base (.ofNat 64 sizeofTSSEntry)).l,
        .of (tssEntry base (.ofNat 64 sizeofTSSEntry)).db,
        .of (tssEntry base (.ofNat 64 sizeofTSSEntry)).g]) = 0x80#8 := by
  have low : (BitVec.ofNat 64 sizeofTSSEntry &&& 0xffff).setWidth 16 = 104 := by decide
  have high : ((BitVec.ofNat 64 sizeofTSSEntry >>> 16) &&& 0x0f).setWidth 4 = 0#4 := by decide
  simp only [tssEntry, low, high]
  decide

section

variable (state : GdtState) (tss gdt : BitVec 64)

theorem gdtInit_base : ((gdtInit state tss gdt).defaultGDT.systemDescriptor 0x30).base =
    tss.toNat % 2 ^ 32 := by
  obtain ⟨_, base0, base1, _, base2⟩ := ofWord_pack (tssEntry tss (.ofNat 64 sizeofTSSEntry))
  rw [systemDescriptor_tss, padded_base, gdtInit, loadTSS, loadGDT, base0, base1, base2]
  exact tssEntry_base _ _

theorem gdtInit_byteLimit : ((gdtInit state tss gdt).defaultGDT.systemDescriptor 0x30).byteLimit =
    sizeofTSSEntry * 4096 + 4095 := by
  obtain ⟨limit0, _, _, flags, _⟩ := ofWord_pack (tssEntry tss (.ofNat 64 sizeofTSSEntry))
  obtain ⟨low, high⟩ := tssEntry_limit tss
  rw [systemDescriptor_tss, padded_byteLimit, gdtInit, loadTSS, loadGDT, limit0, flags, low, high]
  decide

/-- For no address does the descriptor have the limit of a TSS; it has the base for addresses
below `2 ^ 32`. -/
theorem tss_notEncoded : ¬EncodesTSS (gdtInit state tss gdt) tss ∧
    (((gdtInit state tss gdt).defaultGDT.systemDescriptor 0x30).base = tss.toNat ↔
      tss.toNat < 2 ^ 32) ∧
    ((gdtInit state tss gdt).defaultGDT.systemDescriptor 0x30).byteLimit =
      sizeofTSSEntry * 4096 + 4095 := by
  refine ⟨fun encodes => ?_, ?_, gdtInit_byteLimit state tss gdt⟩
  · have limit := encodes.limit
    rw [gdtInit_byteLimit] at limit
    exact absurd limit (by decide)
  · rw [gdtInit_base, Nat.mod_eq_iff_lt (by decide)]

end

/-- A `tss` in the higher half: the descriptor says 0x8000c800, and 430079 for 103. -/
theorem tss_higherHalf : ∃ state : GdtState, state.defaultGDT = defaultGDT ∧
    ((gdtInit state 0xffffffff8000c800 0xffffffff80009000).defaultGDT.systemDescriptor 0x30).base =
      0x8000c800 ∧
    ((gdtInit state 0xffffffff8000c800 0xffffffff80009000).defaultGDT.systemDescriptor
      0x30).byteLimit = 430079 ∧
    ¬EncodesTSS (gdtInit state 0xffffffff8000c800 0xffffffff80009000) 0xffffffff8000c800 := by
  let empty : GDTDescriptor := { size := 0, offset := 0 }
  refine ⟨{ defaultGDT := defaultGDT, gdtDescriptor := empty, gdtr := empty, tr := 0 }, rfl, ?_, ?_,
    fun encodes => ?_⟩
  · rw [gdtInit_base]
    decide
  · rw [gdtInit_byteLimit]
    decide
  · have base := encodes.base
    rw [gdtInit_base] at base
    exact absurd base (by decide)

end OkeOS
