import OkeOS.StringBuilderSpec

/-!
`FastStringBuilder::build` and the destructor.  `build` leaves the parts one after the other in
a block of their total size plus one byte for each of them, as long as no `strlen(..) + 1`
wraps to zero.
-/

namespace OkeOS

open ByteMemory Tiling

namespace FastStringBuilder

/-- The size that `build` asks for. -/
def fullSize (texts : List (List UInt8)) : Nat := (texts.map partSize).sum

/-- What `build` copies. -/
def joined (texts : List (List UInt8)) : List UInt8 := texts.flatMap copied

/-- No `strlen(..) + 1` wraps to zero. -/
def NoWrap (texts : List (List UInt8)) : Prop :=
  ∀ chars ∈ texts, chars.length % 2 ^ 32 ≠ 2 ^ 32 - 1

theorem copied_length (chars : List UInt8) : (copied chars).length = chars.length % 2 ^ 32 := by
  rw [copied, List.length_take, Nat.min_eq_left (Nat.mod_le _ _)]

theorem fullSize_eq {texts : List (List UInt8)} (noWrap : NoWrap texts) :
    fullSize texts = (joined texts).length + texts.length := by
  induction texts with
  | nil => rfl
  | cons chars rest ih =>
      have tail := ih fun other member => noWrap other (by simp [member])
      have head := noWrap chars (by simp)
      have less := Nat.mod_lt chars.length (show 0 < 2 ^ 32 by decide)
      have part : partSize chars = (copied chars).length + 1 := by
        rw [copied_length, partSize, Nat.mod_eq_of_lt (by omega)]
      simp only [fullSize, joined, List.map_cons, List.sum_cons, List.flatMap_cons,
        List.length_append, List.length_cons, part] at tail ⊢
      omega

theorem fullSize_le (texts : List (List UInt8)) : fullSize texts ≤ 2 ^ 32 * texts.length := by
  induction texts with
  | nil => exact Nat.le_refl _
  | cons chars rest ih =>
      have less : partSize chars < 2 ^ 32 := Nat.mod_lt _ (by decide)
      simp only [fullSize, List.map_cons, List.sum_cons, List.length_cons] at ih ⊢
      omega

section

variable {σ : Type}

/-- The heap after `build` has freed the buffer of an earlier call. -/
def released (heap : Heap σ) (builder : Builder) : Heap σ :=
  match builder.output with
  | none => heap
  | some out => free heap out.ptr

def releaseEvents (builder : Builder) : List BuilderEvent :=
  builder.output.toList.map fun out => .free out.ptr

/-- The rest of `build`, once `malloc` has returned `ptr`. -/
def writeOut (literal : String → Nat) (fuel : Nat) (heap : Heap σ) (trace : List BuilderEvent)
    (this ptr size : Nat) : Except Fault (Nat × Traced σ) :=
  let state : Traced σ := ⟨{ heap with mem := setOutputBuf heap.mem this ptr }, trace⟩
  if ptr = 0 then .ok (literal "FastStringBuilder Unable to allocate memory", state)
  else do
    let state ← copyLoop fuel fuel state this 0 0
    let state := state.setMem (setOutputBufSize state.heap.mem this size)
    .ok (outputBuf state.heap.mem this, state)

/-- The memory that it leaves. -/
def outMem (mem : Memory) (this ptr size : Nat) (texts : List (List UInt8)) : Memory :=
  setOutputBufSize (writeBytes (setOutputBuf mem this ptr) ptr (joined texts)) this size

end

theorem outMem_outside {mem : Memory} {this ptr size address : Nat} {texts : List (List UInt8)}
    (object : address < this ∨ this + 32 ≤ address)
    (block : address < ptr ∨ ptr + (joined texts).length ≤ address) :
    outMem mem this ptr size texts address = mem address := by
  rw [outMem, setOutputBufSize_outside _ object, writeBytes_outside block,
    setOutputBuf_outside _ object]

section

variable {σ : Type} {mapPage : σ → Nat → Except Fault σ} {literal : String → Nat} {fuel : Nat}
  {base : List Block} {limit : Nat} {heap : Heap σ} {builder : Builder}
  {texts : List (List UInt8)} {trace : List BuilderEvent}

/-- The strings that the entries point to. -/
def Texts (base : List Block) (limit : Nat) (heap : Heap σ) (builder : Builder)
    (texts : List (List UInt8)) : Prop :=
  List.Forall₂ (ProtectedString (Spared base heap.heapStart limit builder.this) heap.mem)
    builder.entries texts

theorem BuilderInv.readable (inv : BuilderInv base limit heap builder)
    (full : builder.entries.length = builder.nParts) (strings : Texts base limit heap builder texts) :
    Readable (Held (builder.partsBlock :: base) heap.heapStart limit) heap.mem builder.this
      builder.fields builder.entries texts := by
  have few := inv.few
  have larger := (roundUp16 (show 8 * builder.nParts ≤ 2 ^ 64 - 0x1000 by omega)).1
  refine ⟨inv.object, full.symm, by omega, inv.entry, ?_, ?_, ?_⟩
  · exact strings.imp fun _ _ string =>
      ⟨string.1, fun index less => (string.2 index less).1.mono fun _ => List.mem_cons_of_mem _⟩
  · intro index less
    exact (inv.objectHeld index less).mono fun _ => List.mem_cons_of_mem _
  · intro index less
    refine .inl ⟨builder.partsBlock, List.mem_cons_self, ?_, ?_⟩
    · simp only [Builder.partsBlock, Builder.fields]
      omega
    · simp only [Builder.partsBlock, Builder.fields]
      omega

theorem build_eq {this : Nat} {Protected : Nat → Prop}
    (readable : Readable Protected heap.mem this builder.fields builder.entries texts)
    (output : ∀ out ∈ builder.output, out.ptr ≠ 0) :
    build mapPage literal fuel ⟨heap, trace⟩ this =
      if EnoughRounds fuel fuel texts then do
        let (ptr, heap') ← malloc mapPage fuel (released heap builder) (fullSize texts)
        writeOut literal fuel heap' (trace ++ derefs 0 texts.length ++ releaseEvents builder ++
          [.malloc ptr]) this ptr (fullSize texts)
      else .error .outOfFuel := by
  have few := readable.few
  have lengths := readable.strings.length_eq
  have small := fullSize_le texts
  have sizes : sizeLoop fuel fuel ⟨heap, trace⟩ this 0 0 =
      if EnoughRounds fuel fuel texts then
        .ok (0 + fullSize texts, ⟨heap, trace ++ derefs 0 texts.length⟩)
      else .error .outOfFuel :=
    sizeLoop_eq readable (show builder.entries = [] ++ builder.entries from rfl) readable.strings
      (by simp only [fullSize] at small; omega)
  rw [build, sizes, Nat.zero_add]
  by_cases enough : EnoughRounds fuel fuel texts
  · rw [if_pos enough, if_pos enough]
    have freed : (if outputBuf heap.mem this ≠ 0 then
          Traced.free ⟨heap, trace ++ derefs 0 texts.length⟩ (outputBuf heap.mem this)
        else ⟨heap, trace ++ derefs 0 texts.length⟩) =
        ⟨released heap builder, trace ++ derefs 0 texts.length ++ releaseEvents builder⟩ := by
      have pointer := readable.outputBuf
      cases isOutput : builder.output with
      | none =>
          rw [Builder.fields, isOutput] at pointer
          rw [if_neg (by simp [pointer]), released, releaseEvents, isOutput]
          simp
      | some out =>
          rw [Builder.fields, isOutput] at pointer
          have nonzero := output out isOutput
          rw [if_pos (by simpa [pointer] using nonzero), pointer, released, releaseEvents, isOutput]
          rfl
    simp only [Bind.bind, Except.bind, freed, Traced.malloc]
    generalize released heap builder = heap1
    cases malloc mapPage fuel heap1 (fullSize texts) with
    | error fault => rfl
    | ok result => rfl
  · rw [if_neg enough, if_neg enough]
    rfl

section

variable {this ptr size : Nat} {fields : Object} {entries : List Nat} {Protected : Nat → Prop}
  (readable : Readable Protected (setOutputBuf heap.mem this ptr) this
    { fields with outputBuf := ptr } entries texts)
  (apart : ∀ address, Protected address →
    address < ptr ∨ ptr + (joined texts).length ≤ address)

include readable apart

theorem paste_readable :
    Readable Protected (writeBytes (setOutputBuf heap.mem this ptr) ptr (joined texts)) this
      { fields with outputBuf := ptr } entries texts :=
  readable.congr fun address safe => writeBytes_outside (apart address safe)

variable (size) in
theorem outMem_object : object (outMem heap.mem this ptr size texts) this =
    { fields with outputBuf := ptr, outputBufSize := size % 2 ^ 32 } := by
  rw [outMem, object_setOutputBufSize, (paste_readable readable apart).object]

variable (literal) in
theorem writeOut_eq (nonzero : ptr ≠ 0) (bound : (joined texts).length < 2 ^ 64)
    (enough : EnoughRounds fuel fuel texts) (trace : List BuilderEvent) :
    writeOut literal fuel heap trace this ptr size =
      .ok (ptr, ⟨{ heap with mem := outMem heap.mem this ptr size texts },
        trace ++ derefs 0 texts.length⟩) := by
  have pointer := outputBuf_object (outMem_object size readable apart)
  simp only at pointer
  rw [outMem] at pointer ⊢
  simp only [writeOut, nonzero, if_false]
  generalize setOutputBuf heap.mem this ptr = mem at readable pointer ⊢
  have readable' : Readable Protected (Heap.mem { heap with mem := mem }) this
      { fields with outputBuf := ptr } entries texts := readable
  have copy : copyLoop fuel fuel ⟨{ heap with mem := mem }, trace⟩ this 0 0 =
      if EnoughRounds fuel fuel texts then
        .ok ⟨{ heap with mem := writeBytes mem (ptr + 0) (joined texts) },
          trace ++ derefs 0 texts.length⟩
      else .error .outOfFuel :=
    copyLoop_eq readable' (show entries = [] ++ entries from rfl) readable.strings
      (by simp only [joined] at bound; omega) fun address safe => by
        have outside := apart address safe
        simp only [joined] at outside
        simp only
        omega
  rw [if_pos enough, Nat.add_zero] at copy
  simp only [copy, Bind.bind, Except.bind, Traced.setMem, pointer]

end

theorem BuilderInv.released (inv : BuilderInv base limit heap builder) :
    (∃ segments, SystemInv
        { heap := released heap builder, live := builder.partsBlock :: base } segments) ∧
      Evolves (builder.partsBlock :: base)
        (Held (builder.partsBlock :: base) heap.heapStart limit)
        { heap := heap, live := builder.live base }
        { heap := FastStringBuilder.released heap builder, live := builder.partsBlock :: base } := by
  obtain ⟨segments, system⟩ := inv.system
  cases isOutput : builder.output with
  | none =>
      have liveEq : builder.live base = builder.partsBlock :: base := by
        rw [Builder.live, isOutput]
        rfl
      have same : FastStringBuilder.released heap builder = heap := by
        rw [FastStringBuilder.released, isOutput]
      rw [liveEq] at system
      rw [same, liveEq]
      exact ⟨⟨segments, system⟩, .refl _ _ _⟩
  | some out =>
      have liveEq : builder.live base = out :: builder.partsBlock :: base := by
        rw [Builder.live, isOutput]
        rfl
      have freed : free heap out.ptr = FastStringBuilder.released heap builder := by
        rw [FastStringBuilder.released, isOutput]
      rw [liveEq] at system
      rw [liveEq]
      generalize FastStringBuilder.released heap builder = heap' at freed ⊢
      obtain ⟨_, system', evolves⟩ := system.free_step List.mem_cons_self freed inv.noWrap
        inv.below fun _ held => held
      rw [List.erase_cons_head] at system' evolves
      exact ⟨system', evolves⟩

/-- `build` with its block: the object points to it, and it holds the parts. -/
structure Built (base : List Block) (limit : Nat) (heap : Heap σ) (builder : Builder)
    (texts : List (List UInt8)) (ptr : Nat) (fresh final : Heap σ) : Prop where
  inv : BuilderInv base limit final
    { builder with output := some { ptr := ptr, size := fullSize texts } }
  evolves : Evolves base (Spared base heap.heapStart limit builder.this)
    { heap := heap, live := builder.live base }
    { heap := final, live := { ptr := ptr, size := fullSize texts } :: builder.partsBlock :: base }
  headers : ∀ segments, HeapInv fresh segments → HeapInv final segments
  bytes : BytesAt final.mem ptr (joined texts)
  behind : final.mem (ptr + (joined texts).length) = fresh.mem (ptr + (joined texts).length)

section

variable {ptr : Nat} {fresh : Heap σ} (inv : BuilderInv base limit heap builder)
  (full : builder.entries.length = builder.nParts) (strings : Texts base limit heap builder texts)
  (positive : 0 < fullSize texts)
  (called : malloc mapPage fuel (released heap builder) (fullSize texts) = .ok (ptr, fresh))
  (below : fresh.heapEnd ≤ limit)

include inv full strings

theorem fullSize_small : fullSize texts < 2 ^ 63 := by
  have few := inv.few
  have lengths := strings.length_eq
  have small := fullSize_le texts
  omega

include positive called below

theorem build_allocates :
    ptr ≠ 0 ∧ (∃ segments, SystemInv { heap := fresh, live :=
        { ptr := ptr, size := fullSize texts } :: builder.partsBlock :: base } segments) ∧
      Evolves (builder.partsBlock :: base)
        (Held (builder.partsBlock :: base) heap.heapStart limit)
        { heap := heap, live := builder.live base }
        { heap := fresh, live :=
            { ptr := ptr, size := fullSize texts } :: builder.partsBlock :: base } := by
  obtain ⟨⟨segments, system⟩, release⟩ := inv.released
  have small := fullSize_small inv full strings
  have start := release.heapStart
  simp only at start
  obtain ⟨nonzero, system', allocate⟩ := system.malloc_step (by omega) (by omega) called
    inv.noWrap below (fun address held => by rwa [start])
  exact ⟨nonzero, system', release.trans allocate⟩

/-- The new block shares no byte with what the loops read. -/
theorem build_apart {address : Nat}
    (held : Held (builder.partsBlock :: base) heap.heapStart limit address) :
    address < ptr ∨ ptr + roundUp (fullSize texts) 0x10 ≤ address := by
  obtain ⟨_, ⟨segments, system⟩, evolves⟩ := build_allocates inv full strings positive called below
  have start := evolves.heapStart
  simp only at start
  have distinct := List.nodup_cons.mp system.distinct
  have apart := system.held_apart below List.mem_cons_self (fun other member =>
    ⟨List.mem_cons_of_mem _ member, fun same =>
      distinct.1 (List.mem_map.mpr ⟨other, member, same⟩)⟩) (by rwa [start])
  by_contra inside
  exact apart ⟨by simp only; omega, by simp only; omega⟩

theorem build_readable :
    Readable (Held (builder.partsBlock :: base) heap.heapStart limit)
      (setOutputBuf fresh.mem builder.this ptr) builder.this
      { builder.fields with outputBuf := ptr } builder.entries texts := by
  obtain ⟨_, ⟨segments, system⟩, evolves⟩ := build_allocates inv full strings positive called below
  have bounds := system.block_bounds List.mem_cons_self
  have noWrap64 := inv.noWrap
  have few := inv.few
  simp only at bounds
  have kept := (inv.readable full strings).congr evolves.bytes
  refine { kept with object := ?_, entry := ?_, strings := ?_ }
  · rw [object_setOutputBuf _ _ (by omega), kept.object]
  · intro index bound
    rw [← kept.entry index bound]
    exact load_congr fun address lower upper =>
      setOutputBuf_outside _ (inv.object_apart (by simp only [Builder.fields] at lower; omega)
        (by simp only [Builder.fields] at upper; omega))
  · have later : List.Forall₂
        (ProtectedString (Spared base heap.heapStart limit builder.this)
          (setOutputBuf fresh.mem builder.this ptr)) builder.entries texts :=
      strings.imp fun _ _ string => string.congr fun address spared => by
        rw [setOutputBuf_outside _ spared.2]
        exact evolves.bytes address (spared.1.mono fun _ => List.mem_cons_of_mem _)
    exact later.imp fun _ _ string => ⟨string.1, fun index less =>
      (string.2 index less).1.mono fun _ => List.mem_cons_of_mem _⟩

end

section

variable {ptr : Nat} {fresh : Heap σ} (inv : BuilderInv base limit heap builder)
  (full : builder.entries.length = builder.nParts) (strings : Texts base limit heap builder texts)
  (noWrap : NoWrap texts)
  (called : malloc mapPage fuel (released heap builder) (fullSize texts) = .ok (ptr, fresh))
  (below : fresh.heapEnd ≤ limit)

include inv full strings noWrap

theorem fullSize_bounds : (joined texts).length + 1 ≤ fullSize texts ∧ fullSize texts < 2 ^ 63 := by
  have positive := inv.positive
  have lengths := strings.length_eq
  have size := fullSize_eq noWrap
  exact ⟨by omega, fullSize_small inv full strings⟩

include called below

/-- What is written belongs to the builder. -/
theorem outMem_held {address : Nat}
    (changed : outMem fresh.mem builder.this ptr (fullSize texts) texts address ≠
      fresh.mem address) :
    Held ({ ptr := ptr, size := fullSize texts } :: builder.partsBlock :: base) fresh.heapStart
      limit address := by
  obtain ⟨shorter, small⟩ := fullSize_bounds inv full strings noWrap
  obtain ⟨_, _, allocate⟩ := build_allocates inv full strings (by omega) called below
  have larger := (roundUp16 (show fullSize texts ≤ 2 ^ 64 - 0x1000 by omega)).1
  have start : fresh.heapStart = heap.heapStart := allocate.heapStart
  by_cases object : address < builder.this ∨ builder.this + 32 ≤ address
  · have inside : ptr ≤ address ∧ address < ptr + (joined texts).length := by
      by_contra outside
      exact changed (outMem_outside object (by omega))
    exact .inl ⟨_, List.mem_cons_self, inside.1, by simp only; omega⟩
  · have held := inv.objectHeld (address - builder.this) (by omega)
    rw [show builder.this + (address - builder.this) = address by omega, ← start] at held
    exact held.mono fun _ member => by simp [member]

theorem outMem_spared {address : Nat}
    (spared : Spared base heap.heapStart limit builder.this address) :
    outMem fresh.mem builder.this ptr (fullSize texts) texts address = fresh.mem address := by
  obtain ⟨shorter, small⟩ := fullSize_bounds inv full strings noWrap
  have larger := (roundUp16 (show fullSize texts ≤ 2 ^ 64 - 0x1000 by omega)).1
  have outside := build_apart inv full strings (by omega) called below
    (spared.1.mono fun _ => List.mem_cons_of_mem _)
  exact outMem_outside spared.2 (by omega)

/-- The object does not lie in the new block. -/
theorem build_object_apart {address : Nat} (lower : ptr ≤ address)
    (upper : address < ptr + roundUp (fullSize texts) 0x10) :
    address < builder.this ∨ builder.this + 32 ≤ address := by
  by_contra inside
  obtain ⟨shorter, _⟩ := fullSize_bounds inv full strings noWrap
  have held := inv.objectHeld (address - builder.this) (by omega)
  rw [show builder.this + (address - builder.this) = address by omega] at held
  have outside := build_apart inv full strings (by omega) called below
    (held.mono fun _ => List.mem_cons_of_mem _)
  omega

theorem outMem_built :
    Built base limit heap builder texts ptr fresh
      { fresh with mem := outMem fresh.mem builder.this ptr (fullSize texts) texts } := by
  obtain ⟨shorter, small⟩ := fullSize_bounds inv full strings noWrap
  obtain ⟨_, ⟨segments, system⟩, allocate⟩ :=
    build_allocates inv full strings (by omega) called below
  have larger := (roundUp16 (show fullSize texts ≤ 2 ^ 64 - 0x1000 by omega)).1
  have readable := build_readable inv full strings (by omega) called below
  have apart : ∀ address, Held (builder.partsBlock :: base) heap.heapStart limit address →
      address < ptr ∨ ptr + (joined texts).length ≤ address := by
    intro address held
    have outside := build_apart inv full strings (by omega) called below held
    omega
  have changes : ∀ address,
      outMem fresh.mem builder.this ptr (fullSize texts) texts address ≠ fresh.mem address →
      Held ({ ptr := ptr, size := fullSize texts } :: builder.partsBlock :: base) fresh.heapStart
        limit address := fun address => outMem_held inv full strings noWrap called below
  have write : Evolves base (Spared base heap.heapStart limit builder.this)
      { heap := fresh, live := { ptr := ptr, size := fullSize texts } :: builder.partsBlock :: base }
      { heap := { fresh with mem := outMem fresh.mem builder.this ptr (fullSize texts) texts }
        live := { ptr := ptr, size := fullSize texts } :: builder.partsBlock :: base } :=
    Evolves.rewrite below changes fun address =>
      outMem_spared inv full strings noWrap called below
  have system' := system.rewrite below changes
  have objectOutside : ∀ address, ptr ≤ address → address < ptr + fullSize texts →
      address < builder.this ∨ builder.this + 32 ≤ address := fun address lower upper =>
    build_object_apart inv full strings noWrap called below lower (by omega)
  refine ⟨⟨⟨segments, system'⟩, below, inv.noWrap, inv.positive, inv.few, inv.room,
    outMem_object _ readable apart, ?_, ?_, by simpa using small⟩, ?_, ?_, ?_, ?_⟩
  · intro index bound
    rw [← (paste_readable readable apart).entry index bound]
    refine load_congr fun address lower upper => ?_
    simp only at bound lower upper
    exact setOutputBufSize_outside _ (inv.object_apart (by omega) (by omega))
  · intro index less
    change Held base fresh.heapStart limit _
    rw [show fresh.heapStart = heap.heapStart from allocate.heapStart]
    exact inv.objectHeld index less
  · exact (allocate.mono (fun _ member => List.mem_cons_of_mem _ member)
      fun _ spared => spared.1.mono fun _ => List.mem_cons_of_mem _).trans write
  · intro other otherInv
    rw [otherInv.unique system.inv]
    exact system'.inv
  · exact bytesAt_congr (fun address lower upper =>
      setOutputBufSize_outside _ (objectOutside address lower (by omega))) bytesAt_writeBytes
  · exact outMem_outside (objectOutside _ (by omega) (by omega)) (by omega)

variable (literal) in
theorem writeOut_spec (trace : List BuilderEvent) (enough : EnoughRounds fuel fuel texts) :
    ∃ final, writeOut literal fuel fresh trace builder.this ptr (fullSize texts) =
        .ok (ptr, ⟨final, trace ++ derefs 0 texts.length⟩) ∧
      Built base limit heap builder texts ptr fresh final := by
  obtain ⟨shorter, small⟩ := fullSize_bounds inv full strings noWrap
  obtain ⟨nonzero, _⟩ := build_allocates inv full strings (by omega) called below
  have larger := (roundUp16 (show fullSize texts ≤ 2 ^ 64 - 0x1000 by omega)).1
  refine ⟨_, ?_, outMem_built inv full strings noWrap called below⟩
  refine writeOut_eq literal (build_readable inv full strings (by omega) called below) ?_ nonzero
    (by omega) enough trace
  intro address held
  have outside := build_apart inv full strings (by omega) called below held
  omega

end

theorem copyLoop_end {rounds this i off : Nat} {state state' : Traced σ}
    (run : copyLoop fuel rounds state this i off = .ok state') :
    state'.heap.heapEnd = state.heap.heapEnd := by
  induction rounds generalizing state i off with
  | zero => simp [copyLoop] at run
  | succ rounds ih =>
      rw [copyLoop] at run
      split at run
      · obtain ⟨partLen, _, again⟩ := Fault.peel run
        simp only at again
        exact (ih again).trans rfl
      · rw [Except.ok.injEq] at run
        rw [run]

theorem writeOut_end {this ptr size result : Nat} {state' : Traced σ}
    (run : writeOut literal fuel heap trace this ptr size = .ok (result, state')) :
    heap.heapEnd = state'.heap.heapEnd := by
  simp only [writeOut] at run
  split at run
  · simp only [Except.ok.injEq, Prod.mk.injEq] at run
    rw [← run.2]
  · obtain ⟨state, copied, last⟩ := Fault.peel run
    simp only [Except.ok.injEq, Prod.mk.injEq] at last
    rw [← last.2]
    exact (copyLoop_end copied).symm

section

variable (inv : BuilderInv base limit heap builder)
  (full : builder.entries.length = builder.nParts) (strings : Texts base limit heap builder texts)
  (noWrap : NoWrap texts)

include inv full strings

theorem BuilderInv.build_eq :
    build mapPage literal fuel ⟨heap, trace⟩ builder.this =
      if EnoughRounds fuel fuel texts then do
        let (ptr, heap') ← malloc mapPage fuel (FastStringBuilder.released heap builder)
          (fullSize texts)
        writeOut literal fuel heap' (trace ++ derefs 0 texts.length ++ releaseEvents builder ++
          [.malloc ptr]) builder.this ptr (fullSize texts)
      else .error .outOfFuel := by
  refine FastStringBuilder.build_eq (inv.readable full strings) ?_
  intro out isOutput
  obtain ⟨segments, system⟩ := inv.system
  have bounds := system.block_bounds
    (show out ∈ builder.live base by simp [Builder.live, Option.mem_def.mp isOutput])
  omega

variable (literal) in
/-- `build` when the text it writes spares what its loops read. -/
theorem build_clear {ptr : Nat} {fresh : Heap σ} (positive : 0 < fullSize texts)
    (called : malloc mapPage fuel (released heap builder) (fullSize texts) = .ok (ptr, fresh))
    (below : fresh.heapEnd ≤ limit)
    (apart : ∀ address, Held (builder.partsBlock :: base) heap.heapStart limit address →
      address < ptr ∨ ptr + (joined texts).length ≤ address)
    (bound : (joined texts).length < 2 ^ 64) (enough : EnoughRounds fuel fuel texts)
    (trace : List BuilderEvent) :
    build mapPage literal fuel ⟨heap, trace⟩ builder.this =
      .ok (ptr, ⟨{ fresh with mem := outMem fresh.mem builder.this ptr (fullSize texts) texts },
        trace ++ derefs 0 texts.length ++ releaseEvents builder ++ [.malloc ptr] ++
          derefs 0 texts.length⟩) := by
  obtain ⟨nonzero, _⟩ := build_allocates inv full strings positive called below
  rw [inv.build_eq full strings, if_pos enough, called]
  exact writeOut_eq literal (build_readable inv full strings positive called below) apart nonzero
    bound enough _

include noWrap

theorem build_ok {result : Nat} {state' : Traced σ}
    (run : build mapPage literal fuel ⟨heap, trace⟩ builder.this = .ok (result, state'))
    (below : state'.heap.heapEnd ≤ limit) :
    ∃ fresh, malloc mapPage fuel (released heap builder) (fullSize texts) = .ok (result, fresh) ∧
      Built base limit heap builder texts result fresh state'.heap ∧
      state'.trace = trace ++ derefs 0 texts.length ++ releaseEvents builder ++ [.malloc result] ++
        derefs 0 texts.length := by
  rw [inv.build_eq full strings] at run
  split at run
  · rename_i enough
    obtain ⟨⟨ptr, fresh⟩, called, rest⟩ := Fault.peel run
    have ends := writeOut_end rest
    obtain ⟨final, wrote, built⟩ := writeOut_spec literal inv full strings noWrap
      called (by omega) (trace ++ derefs 0 texts.length ++ releaseEvents builder ++ [.malloc ptr])
      enough
    simp only at rest
    rw [wrote, Except.ok.injEq, Prod.mk.injEq] at rest
    obtain ⟨rfl, rfl⟩ := rest
    exact ⟨fresh, called, built, rfl⟩
  · cases run

end

/-! The destructor. -/

theorem destruct_spec {out : Block} (inv : BuilderInv base limit heap builder)
    (isOutput : builder.output = some out) (trace : List BuilderEvent) :
    ∃ heap', destruct ⟨heap, trace⟩ builder.this =
        ⟨heap', trace ++ [.free builder.parts, .free out.ptr]⟩ ∧
      (∃ segments, SystemInv { heap := heap', live := base } segments) ∧
      heap'.heapEnd = heap.heapEnd ∧
      Evolves base (Held base heap.heapStart limit)
        { heap := heap, live := builder.live base } { heap := heap', live := base } := by
  obtain ⟨segments, system⟩ := inv.system
  obtain ⟨_, _, partsEq, _, _⟩ := inv.reads
  have few := inv.few
  have positive := inv.positive
  have size := (roundUp16 (show 8 * builder.nParts ≤ 2 ^ 64 - 0x1000 by omega)).1
  have different : out ≠ builder.partsBlock := fun same =>
    (inv.ptrs.2 out isOutput).1 (congrArg Block.ptr same)
  have liveEq : builder.live base = out :: builder.partsBlock :: base := by
    rw [Builder.live, isOutput]
    rfl
  rw [liveEq] at system ⊢
  generalize first : OkeOS.sfree heap builder.partsBlock.ptr 4 = heap1
  obtain ⟨firstEnd, ⟨segments1, system1⟩, evolves1⟩ := system.sfree_step
    (List.mem_cons_of_mem _ List.mem_cons_self) (by simp only [Builder.partsBlock]; omega) first
    inv.noWrap inv.below fun _ held => held
  have erased : (out :: builder.partsBlock :: base).erase builder.partsBlock = out :: base := by
    rw [List.erase_cons_tail (by simpa using different), List.erase_cons_head]
  rw [erased] at system1 evolves1
  have objectEq : FastStringBuilder.object heap1.mem builder.this = builder.fields := by
    rw [← inv.object]
    exact object_congr fun index less => evolves1.bytes _
      ((inv.objectHeld index less).mono fun _ => List.mem_cons_of_mem _)
  rw [Builder.fields, isOutput] at objectEq
  obtain ⟨_, _, _, outputField, sizeField⟩ := Object.mk.inj objectEq
  have outputEq : outputBuf heap1.mem builder.this = out.ptr := outputField
  have sizeEq : outputBufSize heap1.mem builder.this = out.size % 2 ^ 32 := sizeField
  have small := inv.small out isOutput
  have outSize := (roundUp16 (show out.size ≤ 2 ^ 64 - 0x1000 by omega)).1
  have start : heap1.heapStart = heap.heapStart := evolves1.heapStart
  generalize second : OkeOS.sfree heap1 out.ptr (out.size % 2 ^ 32) = heap2
  have limits := inv.below
  obtain ⟨secondEnd, ⟨segments2, system2⟩, evolves2⟩ := system1.sfree_step List.mem_cons_self
    (by have less := Nat.mod_le out.size (2 ^ 32); omega) second inv.noWrap (by omega)
    fun _ held => held
  rw [List.erase_cons_head, start] at evolves2
  rw [List.erase_cons_head] at system2
  refine ⟨heap2, ?_, ⟨segments2, system2⟩, secondEnd.trans firstEnd,
    (evolves1.mono (fun _ => List.mem_cons_of_mem _)
      fun _ held => held.mono fun _ => List.mem_cons_of_mem _).trans evolves2⟩
  have firstFree : OkeOS.sfree heap builder.parts 4 = heap1 := first
  simp only [destruct, Traced.sfree, partsEq, firstFree, outputEq, sizeEq, second,
    List.append_assoc, List.cons_append, List.nil_append]

end

end FastStringBuilder

end OkeOS
