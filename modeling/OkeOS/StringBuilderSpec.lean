import OkeOS.HeapHeld
import OkeOS.StringBuilderLoops

/-!
One specification for each function of `FastStringBuilder`: what it does to the object, to the
blocks of the builder and to everybody else's memory.
-/

namespace OkeOS

open ByteMemory Tiling

namespace FastStringBuilder

/-- A builder with the blocks it owns. -/
structure Builder where
  this : Nat
  nParts : Nat
  parts : Nat
  entries : List Nat
  output : Option Block

namespace Builder

def partsBlock (builder : Builder) : Block :=
  { ptr := builder.parts, size := 8 * builder.nParts }

/-- The live blocks: the builder's own and those of everybody else. -/
def live (builder : Builder) (base : List Block) : List Block :=
  builder.output.toList ++ builder.partsBlock :: base

def fields (builder : Builder) : Object :=
  { parts := builder.parts, nParts := builder.nParts, partOffset := builder.entries.length,
    outputBuf := builder.output.elim 0 Block.ptr,
    outputBufSize := builder.output.elim 0 fun block => block.size % 2 ^ 32 }

/-- The entry that the next `append` stores to. -/
def slot (builder : Builder) : Nat := min builder.entries.length (builder.nParts - 1)

/-- What `append(ptr)` does; a full builder gets the address of its message instead. -/
def append (builder : Builder) (message ptr : Nat) : Builder :=
  if builder.entries.length < builder.nParts then
    { builder with entries := builder.entries ++ [ptr] }
  else { builder with entries := builder.entries.set (builder.nParts - 1) message }

end Builder

/-- The bytes that the calls on a builder leave alone. -/
def Spared (base : List Block) (start limit this address : Nat) : Prop :=
  Held base start limit address ∧ (address < this ∨ this + 32 ≤ address)

section

variable {σ : Type}

structure BuilderInv (base : List Block) (limit : Nat) (heap : Heap σ) (builder : Builder) :
    Prop where
  system : ∃ segments, SystemInv { heap := heap, live := builder.live base } segments
  below : heap.heapEnd ≤ limit
  noWrap : limit < 2 ^ 64
  positive : 1 ≤ builder.nParts
  few : builder.nParts < 2 ^ 31
  room : builder.entries.length ≤ builder.nParts
  object : object heap.mem builder.this = builder.fields
  entry : ∀ index (bound : index < builder.entries.length),
    load heap.mem (builder.parts + 8 * index) 8 = builder.entries[index]
  objectHeld : ∀ index < 32, Held base heap.heapStart limit (builder.this + index)
  small : ∀ out ∈ builder.output, out.size < 2 ^ 63

end

section FieldFrames

variable (mem : Memory) {this value address : Nat}
  (outside : address < this ∨ this + 32 ≤ address)

include outside

theorem setParts_outside : setParts mem this value address = mem address :=
  store_outside _ _ _ _ _ (by omega)

theorem setNParts_outside : setNParts mem this value address = mem address :=
  store_outside _ _ _ _ _ (by omega)

theorem setPartOffset_outside : setPartOffset mem this value address = mem address :=
  store_outside _ _ _ _ _ (by omega)

theorem setOutputBuf_outside : setOutputBuf mem this value address = mem address :=
  store_outside _ _ _ _ _ (by omega)

theorem setOutputBufSize_outside : setOutputBufSize mem this value address = mem address :=
  store_outside _ _ _ _ _ (by omega)

end FieldFrames

section

variable {σ : Type} {mapPage : σ → Nat → Except Fault σ} {literal : String → Nat}
  {base : List Block} {limit : Nat} {heap : Heap σ} {builder : Builder}

theorem traced_malloc {fuel size ptr : Nat} {state state' : Traced σ}
    (run : state.malloc mapPage fuel size = .ok (ptr, state')) :
    malloc mapPage fuel state.heap size = .ok (ptr, state'.heap) ∧
      state'.trace = state.trace ++ [.malloc ptr] := by
  obtain ⟨⟨pointer, heap'⟩, called, result⟩ := Fault.peel run
  simp only [Except.ok.injEq, Prod.mk.injEq] at result
  obtain ⟨rfl, rfl⟩ := result
  exact ⟨called, rfl⟩

theorem evolves_object (live : List Block) {this start : Nat} (mem : Memory)
    (sameStart : heap.heapStart = start) (below : heap.heapEnd ≤ limit)
    (held : ∀ index < 32, Held base start limit (this + index))
    (mine : ∀ block ∈ base, block ∈ live)
    (outside : ∀ address, address < this ∨ this + 32 ≤ address → mem address = heap.mem address) :
    Evolves base (Spared base start limit this) { heap := heap, live := live }
      { heap := { heap with mem := mem }, live := live } := by
  subst sameStart
  refine Evolves.rewrite below ?_ ?_
  · intro address changed
    have inside : this ≤ address ∧ address < this + 32 := by
      by_contra apart
      exact changed (outside address (by omega))
    have same := held (address - this) (by omega)
    rw [show this + (address - this) = address by omega] at same
    exact same.mono mine
  · intro address spared
    exact outside address spared.2

theorem construct_spec {fuel this parts : Nat} {segments : List Segment} {trace : List BuilderEvent}
    {state' : Traced σ} (inv : SystemInv { heap := heap, live := base } segments)
    (noWrap : limit < 2 ^ 64) (positive : 1 ≤ parts) (few : parts < 2 ^ 31)
    (held : ∀ index < 32, Held base heap.heapStart limit (this + index))
    (run : construct mapPage fuel ⟨heap, trace⟩ this parts = .ok state')
    (below : state'.heap.heapEnd ≤ limit) :
    ∃ ptr, BuilderInv base limit state'.heap ⟨this, parts, ptr, [], none⟩ ∧
      Evolves base (Spared base heap.heapStart limit this) { heap := heap, live := base }
        { heap := state'.heap, live := { ptr := ptr, size := 8 * parts } :: base } ∧
      state'.trace = trace ++ [.malloc ptr] := by
  obtain ⟨⟨ptr, between⟩, called, result⟩ := Fault.peel run
  obtain ⟨called, traceEq⟩ := traced_malloc called
  rw [Except.ok.injEq] at result
  subst result
  have size : mul64 8 parts = 8 * parts := Nat.mod_eq_of_lt (by omega)
  rw [size] at called
  generalize cleared : setOutputBufSize (setOutputBuf (setPartOffset heap.mem this 0) this 0)
    this 0 = mem at called
  have clearOutside : ∀ address, address < this ∨ this + 32 ≤ address →
      mem address = heap.mem address := by
    intro address outside
    rw [← cleared, setOutputBufSize_outside _ outside, setOutputBuf_outside _ outside,
      setPartOffset_outside _ outside]
  have clearObject : object mem this =
      { object heap.mem this with partOffset := 0, outputBuf := 0, outputBufSize := 0 } := by
    rw [← cleared, object_setOutputBufSize, object_setOutputBuf _ _ (by decide),
      object_setPartOffset _ _ (by decide), Nat.zero_mod]
  change malloc mapPage fuel { heap with mem := mem } (8 * parts) = _ at called
  have ends := malloc_end_le called
  simp only at ends
  have below' : between.heap.heapEnd ≤ limit := below
  have clear := evolves_object base mem rfl (by omega) held (fun _ member => member) clearOutside
  obtain ⟨segments1, inv1, _⟩ := clear.owners segments inv
  obtain ⟨_, ⟨segments2, inv2⟩, allocate⟩ := inv1.malloc_step (by omega) (by omega) called noWrap
    below' (fun address held => held)
  have start := allocate.heapStart
  simp only at start
  have fill := evolves_object ({ ptr := ptr, size := 8 * parts } :: base)
    (setNParts (setParts between.heap.mem this ptr) this parts) start below' held
    (fun _ member => List.mem_cons_of_mem _ member) (fun address outside => by
      rw [setNParts_outside _ outside, setParts_outside _ outside])
  obtain ⟨segments3, inv3, _⟩ := fill.owners segments2 inv2
  have kept : object between.heap.mem this = object mem this :=
    object_congr fun index less => allocate.bytes _ (held index less)
  have bounds := inv2.block_bounds List.mem_cons_self
  simp only at bounds
  refine ⟨ptr, ⟨⟨segments3, inv3⟩, below', noWrap, positive, few, Nat.zero_le _, ?_, ?_, ?_,
      by simp⟩,
    (clear.trans (allocate.mono (fun _ member => member) fun _ spared => spared.1)).trans fill,
    traceEq⟩
  · change object (setNParts (setParts between.heap.mem this ptr) this parts) this = _
    rw [object_setNParts _ _ (by omega), object_setParts _ _ (by omega), kept, clearObject]
    rfl
  · intro index bound
    exact absurd bound (Nat.not_lt_zero _)
  · intro index less
    change Held base between.heap.heapStart limit _
    rw [start]
    exact held index less

/-! The blocks of a builder. -/

theorem BuilderInv.partsLive (builder : Builder) (base : List Block) :
    builder.partsBlock ∈ builder.live base := by
  simp [Builder.live]

theorem BuilderInv.baseLive {block : Block} (member : block ∈ base) :
    block ∈ builder.live base := by
  simp [Builder.live, member]

theorem BuilderInv.ptrs (inv : BuilderInv base limit heap builder) :
    (∀ block ∈ base, block.ptr ≠ builder.parts) ∧
      ∀ out ∈ builder.output, out.ptr ≠ builder.parts ∧ ∀ block ∈ base, block.ptr ≠ out.ptr := by
  obtain ⟨segments, system⟩ := inv.system
  have distinct := system.distinct
  simp only [Builder.live, List.map_append, List.map_cons] at distinct
  obtain ⟨_, own, across⟩ := List.nodup_append.mp distinct
  refine ⟨?_, ?_⟩
  · intro block member same
    exact (List.nodup_cons.mp own).1 (List.mem_map.mpr ⟨block, member, same⟩)
  · intro out isOutput
    have mine : out.ptr ∈ builder.output.toList.map Block.ptr :=
      List.mem_map_of_mem (by simpa using isOutput)
    refine ⟨across _ mine _ (by simp [Builder.partsBlock]), ?_⟩
    intro block member same
    exact across _ mine block.ptr (by simp [List.mem_map_of_mem member]) same.symm

theorem BuilderInv.parts_apart (inv : BuilderInv base limit heap builder) {address : Nat}
    (held : Held base heap.heapStart limit address) :
    address < builder.parts ∨ builder.parts + 8 * builder.nParts ≤ address := by
  obtain ⟨segments, system⟩ := inv.system
  have few := inv.few
  have larger := (roundUp16 (show 8 * builder.nParts ≤ 2 ^ 64 - 0x1000 by omega)).1
  have apart := system.held_apart inv.below (BuilderInv.partsLive builder base)
    (fun other member => ⟨BuilderInv.baseLive member, inv.ptrs.1 other member⟩) held
  by_contra inside
  refine apart ⟨?_, ?_⟩
  · simp only [Builder.partsBlock]
    omega
  · simp only [Builder.partsBlock]
    omega

/-! `append`. -/

/-- Storing to an entry changes that entry and nothing that others hold. -/
theorem BuilderInv.store_entry (inv : BuilderInv base limit heap builder) {index value : Nat}
    (bound : index < builder.nParts) (word : value < 2 ^ 64) {mem : Memory}
    (stored : store heap.mem (builder.parts + 8 * index) 8 value = mem) :
    Evolves base (Held base heap.heapStart limit)
        { heap := heap, live := builder.live base }
        { heap := { heap with mem := mem }, live := builder.live base } ∧
      FastStringBuilder.object mem builder.this = FastStringBuilder.object heap.mem builder.this ∧
      ∀ other, load mem (builder.parts + 8 * other) 8 =
        if other = index then value else load heap.mem (builder.parts + 8 * other) 8 := by
  have few := inv.few
  have larger := (roundUp16 (show 8 * builder.nParts ≤ 2 ^ 64 - 0x1000 by omega)).1
  have kept : ∀ address, Held base heap.heapStart limit address → mem address = heap.mem address := by
    intro address held
    have apart := inv.parts_apart held
    rw [← stored]
    exact store_outside _ _ _ _ _ (by omega)
  refine ⟨Evolves.rewrite inv.below ?_ kept, ?_, ?_⟩
  · intro address changed
    have inside : builder.parts + 8 * index ≤ address ∧ address < builder.parts + 8 * index + 8 := by
      by_contra apart
      rw [← stored] at changed
      exact changed (store_outside _ _ _ _ _ (by omega))
    refine .inl ⟨builder.partsBlock, BuilderInv.partsLive builder base, ?_, ?_⟩
    · simp only [Builder.partsBlock]
      omega
    · simp only [Builder.partsBlock]
      omega
  · exact object_congr fun offset less => kept _ (inv.objectHeld offset less)
  · intro other
    rw [← stored]
    split
    · rename_i same
      rw [same, load_store_same, show (256 : Nat) ^ 8 = 2 ^ 64 by norm_num,
        Nat.mod_eq_of_lt word]
    · exact load_store_apart _ _ _ _ _ _ (by omega)

theorem BuilderInv.object_apart (inv : BuilderInv base limit heap builder) {address : Nat}
    (lower : builder.parts ≤ address) (upper : address < builder.parts + 8 * builder.nParts) :
    address < builder.this ∨ builder.this + 32 ≤ address := by
  by_contra inside
  have held := inv.objectHeld (address - builder.this) (by omega)
  rw [show builder.this + (address - builder.this) = address by omega] at held
  have apart := inv.parts_apart held
  omega

theorem BuilderInv.reads (inv : BuilderInv base limit heap builder) :
    nParts heap.mem builder.this = builder.nParts ∧
      partOffset heap.mem builder.this = builder.entries.length ∧
      parts heap.mem builder.this = builder.parts ∧
      outputBuf heap.mem builder.this = builder.output.elim 0 Block.ptr ∧
      outputBufSize heap.mem builder.this =
        builder.output.elim 0 fun block => block.size % 2 ^ 32 := by
  have few := inv.few
  have room := inv.room
  have fields := inv.object
  simp only [FastStringBuilder.object, Builder.fields, Object.mk.injEq] at fields
  obtain ⟨partsEq, nPartsEq, offsetEq, outputEq, sizeEq⟩ := fields
  refine ⟨?_, ?_, partsEq, outputEq, sizeEq⟩
  · rw [nParts, nPartsEq, toInt32_of_lt few]
  · rw [partOffset, offsetEq, toInt32_of_lt (by omega)]

/-- A full builder stores its message in the last entry. -/
theorem append_full {ptr message : Nat} (trace : List BuilderEvent)
    (inv : BuilderInv base limit heap builder) (full : ¬builder.entries.length < builder.nParts)
    (messageEq : literal "FastStringBuilder OutOfBounds" = message) (messageWord : message < 2 ^ 64) :
    ∃ heap', append literal ⟨heap, trace⟩ builder.this ptr =
        ⟨heap', trace ++ [.store builder.slot]⟩ ∧
      BuilderInv base limit heap' (builder.append message ptr) ∧
      Evolves base (Spared base heap.heapStart limit builder.this)
        { heap := heap, live := builder.live base } { heap := heap', live := builder.live base } := by
  obtain ⟨nPartsEq, offsetEq, partsEq, _⟩ := inv.reads
  have positive := inv.positive
  have room := inv.room
  have index : ((builder.nParts : Int) - 1).toNat = builder.nParts - 1 := by omega
  have slot : builder.slot = builder.nParts - 1 := by
    rw [Builder.slot]
    omega
  generalize stored : store heap.mem (builder.parts + 8 * (builder.nParts - 1)) 8 message = mem
  obtain ⟨evolves, objectEq, loads⟩ := inv.store_entry (by omega) messageWord stored
  obtain ⟨segments, system⟩ := inv.system
  obtain ⟨segments', system', _⟩ := evolves.owners segments system
  refine ⟨{ heap with mem := mem }, ?_, ?_, evolves.mono (fun _ member => member)
    fun _ spared => spared.1⟩
  · simp only [append, nPartsEq, offsetEq]
    rw [if_pos (by omega), index, slot, setPart, partsEq, messageEq, stored]
    rfl
  · have appended : builder.append message ptr =
        { builder with entries := builder.entries.set (builder.nParts - 1) message } := if_neg full
    rw [appended]
    refine { inv with system := ⟨segments', system'⟩, room := ?_, object := ?_, entry := ?_ }
    · simpa using room
    · rw [show FastStringBuilder.object mem builder.this = _ from objectEq, inv.object]
      simp [Builder.fields]
    · intro other bound
      simp only [List.length_set] at bound
      simp only [List.getElem_set, loads]
      by_cases last : other = builder.nParts - 1
      · rw [if_pos last, if_pos last.symm]
      · rw [if_neg last, if_neg (Ne.symm last)]
        exact inv.entry other bound

theorem append_room {ptr : Nat} (trace : List BuilderEvent)
    (inv : BuilderInv base limit heap builder) (more : builder.entries.length < builder.nParts)
    (message : Nat) (word : ptr < 2 ^ 64) :
    ∃ heap', append literal ⟨heap, trace⟩ builder.this ptr =
        ⟨heap', trace ++ [.store builder.slot]⟩ ∧
      BuilderInv base limit heap' (builder.append message ptr) ∧
      Evolves base (Spared base heap.heapStart limit builder.this)
        { heap := heap, live := builder.live base } { heap := heap', live := builder.live base } := by
  obtain ⟨nPartsEq, offsetEq, partsEq, _⟩ := inv.reads
  have few := inv.few
  have slot : builder.slot = builder.entries.length := by
    rw [Builder.slot]
    omega
  generalize stored : store heap.mem (builder.parts + 8 * builder.entries.length) 8 ptr = mem
  obtain ⟨evolves, objectEq, loads⟩ := inv.store_entry more word stored
  have offsetEq' : partOffset mem builder.this = builder.entries.length := by
    rw [← offsetEq, partOffset, partOffset]
    exact congrArg toInt32 (congrArg Object.partOffset objectEq)
  have next : ((builder.entries.length : Int) + 1).toNat = builder.entries.length + 1 := by omega
  have count := evolves_object (builder.live base)
    (setPartOffset mem builder.this (builder.entries.length + 1))
    (show Heap.heapStart { heap with mem := mem } = heap.heapStart from rfl) inv.below
    inv.objectHeld (fun _ member => BuilderInv.baseLive member)
    fun address outside => setPartOffset_outside mem outside
  have both := (evolves.mono (fun _ member => member) fun _ spared => spared.1).trans count
  obtain ⟨segments, system⟩ := inv.system
  obtain ⟨segments', system', _⟩ := both.owners segments system
  refine ⟨{ heap with mem := setPartOffset mem builder.this (builder.entries.length + 1) }, ?_, ?_,
    both⟩
  · simp only [append, nPartsEq, offsetEq]
    rw [if_neg (by omega), Int.toNat_natCast, slot, setPart, partsEq, stored, offsetEq', next]
    rfl
  · have appended : builder.append message ptr =
        { builder with entries := builder.entries ++ [ptr] } := if_pos more
    rw [appended]
    refine { inv with system := ⟨segments', system'⟩, room := ?_, object := ?_, entry := ?_ }
    · simp only [List.length_append, List.length_singleton]
      omega
    · refine (object_setPartOffset mem builder.this (by omega)).trans ?_
      rw [objectEq, inv.object]
      simp [Builder.fields]
    · intro other bound
      simp only [List.length_append, List.length_singleton] at bound
      have same : load (setPartOffset mem builder.this (builder.entries.length + 1))
          (builder.parts + 8 * other) 8 = load mem (builder.parts + 8 * other) 8 :=
        load_congr fun address lower upper =>
          setPartOffset_outside mem (inv.object_apart (by omega) (by omega))
      simp only [same, loads, List.getElem_append]
      by_cases last : other = builder.entries.length
      · rw [if_pos last, dif_neg (by omega)]
        simp
      · rw [if_neg last, dif_pos (by omega)]
        exact inv.entry other (by omega)

theorem append_spec {ptr : Nat} (trace : List BuilderEvent)
    (inv : BuilderInv base limit heap builder) (word : ptr < 2 ^ 64)
    (messageWord : literal "FastStringBuilder OutOfBounds" < 2 ^ 64) :
    ∃ heap', append literal ⟨heap, trace⟩ builder.this ptr =
        ⟨heap', trace ++ [.store builder.slot]⟩ ∧
      BuilderInv base limit heap'
        (builder.append (literal "FastStringBuilder OutOfBounds") ptr) ∧
      Evolves base (Spared base heap.heapStart limit builder.this)
        { heap := heap, live := builder.live base } { heap := heap', live := builder.live base } := by
  by_cases more : builder.entries.length < builder.nParts
  · exact append_room trace inv more _ word
  · exact append_full trace inv more rfl messageWord

end

end FastStringBuilder

end OkeOS
