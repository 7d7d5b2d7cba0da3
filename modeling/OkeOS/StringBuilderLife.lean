import OkeOS.StringBuilderBuild

/-!
The life of a builder, from its construction to its destruction, in a heap that others use at
the same time.
-/

namespace OkeOS

open ByteMemory Tiling

namespace FastStringBuilder

section

variable {σ : Type} {mapPage : σ → Nat → Except Fault σ} {literal : String → Nat} {fuel : Nat}
  {base : List Block} {limit : Nat} {heap : Heap σ} {builder : Builder}
  {texts : List (List UInt8)} {trace : List BuilderEvent}

/-- The block of a builder that was created with `new`. -/
def objectBlock (this : Nat) : Block := { ptr := this, size := sizeofFastStringBuilder }

theorem objectBlock_contains (this : Nat) {index : Nat} (less : index < 32) :
    (objectBlock this).Contains (this + index) := by
  have size : roundUp (objectBlock this).size 0x10 = 32 := by
    simp only [objectBlock, sizeofFastStringBuilder]
    decide
  refine ⟨Nat.le_add_right _ _, ?_⟩
  rw [size]
  simp only [objectBlock]
  omega

theorem construct_end_le {this parts : Nat} {state state' : Traced σ}
    (run : construct mapPage fuel state this parts = .ok state') :
    state.heap.heapEnd ≤ state'.heap.heapEnd := by
  obtain ⟨⟨ptr, between⟩, called, result⟩ := Fault.peel run
  rw [Except.ok.injEq] at result
  rw [← result]
  have ends := malloc_end_le (traced_malloc called).1
  exact ends

theorem new_ok {this parts : Nat} {state state' : Traced σ}
    (run : new mapPage fuel state parts = .ok (this, state')) :
    ∃ fresh, malloc mapPage fuel state.heap sizeofFastStringBuilder = .ok (this, fresh.heap) ∧
      fresh.trace = state.trace ++ [.malloc this] ∧
      ((this = 0 ∧ state' = fresh) ∨ construct mapPage fuel fresh this parts = .ok state') := by
  obtain ⟨⟨pointer, fresh⟩, called, rest⟩ := Fault.peel run
  obtain ⟨called, traceEq⟩ := traced_malloc called
  simp only at rest
  split at rest
  · rename_i null
    rw [Except.ok.injEq, Prod.mk.injEq] at rest
    obtain ⟨rfl, rfl⟩ := rest
    rw [null] at called traceEq
    exact ⟨fresh, called, traceEq, .inl ⟨rfl, rfl⟩⟩
  · obtain ⟨constructed, construction, result⟩ := Fault.peel rest
    rw [Except.ok.injEq, Prod.mk.injEq] at result
    obtain ⟨rfl, rfl⟩ := result
    exact ⟨fresh, called, traceEq, .inr construction⟩

theorem new_end_le {this parts : Nat} {state state' : Traced σ}
    (run : new mapPage fuel state parts = .ok (this, state')) :
    state.heap.heapEnd ≤ state'.heap.heapEnd := by
  obtain ⟨fresh, called, _, ⟨_, rfl⟩ | construction⟩ := new_ok run
  · exact malloc_end_le called
  · exact (malloc_end_le called).trans (construct_end_le construction)

theorem new_spec {this parts : Nat} {segments : List Segment} {state' : Traced σ}
    (inv : SystemInv { heap := heap, live := base } segments)
    (noWrap : limit < 2 ^ 64) (positive : 1 ≤ parts) (few : parts < 2 ^ 31)
    (run : new mapPage fuel ⟨heap, trace⟩ parts = .ok (this, state'))
    (below : state'.heap.heapEnd ≤ limit) :
    this ≠ 0 ∧ ∃ ptr, BuilderInv (objectBlock this :: base) limit state'.heap
        ⟨this, parts, ptr, [], none⟩ ∧
      Evolves base (Held base heap.heapStart limit) { heap := heap, live := base }
        { heap := state'.heap,
          live := { ptr := ptr, size := 8 * parts } :: objectBlock this :: base } ∧
      state'.trace = trace ++ [.malloc this, .malloc ptr] := by
  obtain ⟨fresh, called, traceEq, rest⟩ := new_ok run
  have later : fresh.heap.heapEnd ≤ state'.heap.heapEnd := by
    rcases rest with ⟨_, rfl⟩ | construction
    · exact Nat.le_refl _
    · exact construct_end_le construction
  obtain ⟨nonzero, ⟨segments1, inv1⟩, evolves1⟩ := inv.malloc_step (by decide) (by decide) called
    noWrap (by omega) fun _ held => held
  have construction := rest.resolve_left fun null => nonzero null.1
  obtain ⟨heap1, trace1⟩ := fresh
  simp only at traceEq
  have start : heap1.heapStart = heap.heapStart := evolves1.heapStart
  have object : ∀ index < 32,
      Held (objectBlock this :: base) heap1.heapStart limit (this + index) :=
    fun index less => .inl ⟨_, List.mem_cons_self, objectBlock_contains this less⟩
  obtain ⟨ptr, builderInv, evolves2, traceEq2⟩ :=
    construct_spec inv1 noWrap positive few object construction below
  refine ⟨nonzero, ptr, builderInv, evolves1.trans (evolves2.mono
    (fun _ => List.mem_cons_of_mem _) fun address held => ?_), ?_⟩
  · have distinct := List.nodup_cons.mp inv1.distinct
    have apart := inv1.held_apart (show heap1.heapEnd ≤ limit by simp only at later; omega)
      List.mem_cons_self (fun other member => ⟨List.mem_cons_of_mem _ member, fun same =>
        distinct.1 (List.mem_map.mpr ⟨other, member, same⟩)⟩) (by rwa [start])
    refine ⟨?_, ?_⟩
    · rw [start]
      exact held.mono fun _ => List.mem_cons_of_mem _
    · by_contra inside
      have contains := objectBlock_contains this (show address - this < 32 by omega)
      rw [show this + (address - this) = address by omega] at contains
      exact apart contains
  · rw [traceEq2, traceEq, List.append_assoc]
    rfl

theorem delete_spec {out : Block}
    (inv : BuilderInv (objectBlock builder.this :: base) limit heap builder)
    (isOutput : builder.output = some out) (trace : List BuilderEvent) :
    ∃ heap', delete ⟨heap, trace⟩ builder.this =
        ⟨heap', trace ++ [.free builder.parts, .free out.ptr, .free builder.this]⟩ ∧
      (∃ segments, SystemInv { heap := heap', live := base } segments) ∧
      heap'.heapEnd = heap.heapEnd ∧
      Evolves base (Held base heap.heapStart limit)
        { heap := heap, live := builder.live (objectBlock builder.this :: base) }
        { heap := heap', live := base } := by
  obtain ⟨heap1, destroyed, ⟨segments1, system1⟩, sameEnd, evolves1⟩ :=
    destruct_spec inv isOutput trace
  have bounds := system1.block_bounds List.mem_cons_self
  have nonzero : builder.this ≠ 0 := by
    simp only [objectBlock] at bounds
    omega
  have limits := inv.below
  have start : heap1.heapStart = heap.heapStart := evolves1.heapStart
  generalize freed : free heap1 (objectBlock builder.this).ptr = heap2
  obtain ⟨freedEnd, ⟨segments2, system2⟩, evolves2⟩ := system1.free_step List.mem_cons_self freed
    inv.noWrap (by omega) fun _ held => held
  rw [List.erase_cons_head, start] at evolves2
  rw [List.erase_cons_head] at system2
  refine ⟨heap2, ?_, ⟨segments2, system2⟩, freedEnd.trans sameEnd,
    (evolves1.mono (fun _ => List.mem_cons_of_mem _)
      fun _ held => held.mono fun _ => List.mem_cons_of_mem _).trans evolves2⟩
  have thisFree : free heap1 builder.this = heap2 := freed
  simp only [delete, nonzero, if_false, destroyed, Traced.free, thisFree, List.append_assoc,
    List.cons_append, List.nil_append]

/-- The blocks that the builder does not free itself. -/
def others (onHeap : Bool) (this : Nat) (base : List Block) : List Block :=
  if onHeap then objectBlock this :: base else base

/-- What becomes of a builder, with the blocks of everybody else: it is built in place
(`onHeap` is false) or with `new`, in any state of the heap; then `append` and `build` are
called on it in any order, between calls and writes of others that leave its memory alone.
Every `build` finds all parts stored and no part of `2 ^ 32 - 1` characters. -/
inductive BuilderRun (mapPage : σ → Nat → Except Fault σ) (literal : String → Nat) (limit : Nat) :
    Bool → List Block → Traced σ → Builder → Prop
  | construct {system : HeapSystem σ} {fuel this parts : Nat} {state : Traced σ}
      (run : HeapRun mapPage system) (positive : 1 ≤ parts) (few : parts < 2 ^ 31)
      (held : ∀ index < 32, Held system.live system.heap.heapStart limit (this + index))
      (call : construct mapPage fuel ⟨system.heap, []⟩ this parts = .ok state)
      (below : state.heap.heapEnd ≤ limit) :
      BuilderRun mapPage literal limit false system.live state
        ⟨this, parts, FastStringBuilder.parts state.heap.mem this, [], none⟩
  | new {system : HeapSystem σ} {fuel this parts : Nat} {state : Traced σ}
      (run : HeapRun mapPage system) (positive : 1 ≤ parts) (few : parts < 2 ^ 31)
      (call : new mapPage fuel ⟨system.heap, []⟩ parts = .ok (this, state))
      (below : state.heap.heapEnd ≤ limit) :
      BuilderRun mapPage literal limit true system.live state
        ⟨this, parts, FastStringBuilder.parts state.heap.mem this, [], none⟩
  | append {onHeap : Bool} {base : List Block} {state : Traced σ} {builder : Builder} {ptr : Nat}
      (run : BuilderRun mapPage literal limit onHeap base state builder) (word : ptr < 2 ^ 64) :
      BuilderRun mapPage literal limit onHeap base (append literal state builder.this ptr)
        (builder.append (literal "FastStringBuilder OutOfBounds") ptr)
  | build {onHeap : Bool} {base : List Block} {state state' : Traced σ} {builder : Builder}
      {texts : List (List UInt8)} {fuel ptr : Nat}
      (run : BuilderRun mapPage literal limit onHeap base state builder)
      (full : builder.entries.length = builder.nParts)
      (strings : Texts (others onHeap builder.this base) limit state.heap builder texts)
      (noWrap : NoWrap texts)
      (call : build mapPage literal fuel state builder.this = .ok (ptr, state'))
      (below : state'.heap.heapEnd ≤ limit) :
      BuilderRun mapPage literal limit onHeap base state'
        { builder with output := some { ptr := ptr, size := fullSize texts } }
  | call {onHeap : Bool} {base base' keep live : List Block} {state : Traced σ} {heap : Heap σ}
      {builder : Builder} (run : BuilderRun mapPage literal limit onHeap base state builder)
      (call : HeapCall mapPage
        { heap := state.heap, live := builder.live (others onHeap builder.this base) }
        { heap := heap, live := live })
      (same : live.Perm (builder.live (others onHeap builder.this base')))
      (kept : ∀ block ∈ keep, block ∈ others onHeap builder.this base ∧
        block ∈ others onHeap builder.this base')
      (held : ∀ index < 32, Held keep state.heap.heapStart limit (builder.this + index))
      (below : heap.heapEnd ≤ limit) :
      BuilderRun mapPage literal limit onHeap base' { state with heap := heap } builder
  | write {onHeap : Bool} {base : List Block} {state : Traced σ} {builder : Builder}
      {block : Block} {address : Nat} (byte : UInt8)
      (run : BuilderRun mapPage literal limit onHeap base state builder) (member : block ∈ base)
      (inside : block.Contains address)
      (outside : address < builder.this ∨ builder.this + 32 ≤ address) :
      BuilderRun mapPage literal limit onHeap base
        (state.setMem (writeByte state.heap.mem address byte)) builder

theorem Builder.append_this (builder : Builder) (message ptr : Nat) :
    (builder.append message ptr).this = builder.this := by
  unfold Builder.append
  split <;> rfl

theorem BuilderInv.of_ptr {this parts ptr : Nat}
    (inv : BuilderInv base limit heap ⟨this, parts, ptr, [], none⟩) :
    BuilderInv base limit heap
      ⟨this, parts, FastStringBuilder.parts heap.mem this, [], none⟩ := by
  rwa [show FastStringBuilder.parts heap.mem this = ptr from inv.reads.2.2.1]

theorem BuilderInv.call {base' keep live : List Block} {heap' : Heap σ}
    (inv : BuilderInv base limit heap builder)
    (call : HeapCall mapPage { heap := heap, live := builder.live base }
      { heap := heap', live := live })
    (same : live.Perm (builder.live base'))
    (kept : ∀ block ∈ keep, block ∈ base ∧ block ∈ base')
    (held : ∀ index < 32, Held keep heap.heapStart limit (builder.this + index))
    (below : heap'.heapEnd ≤ limit) : BuilderInv base' limit heap' builder := by
  obtain ⟨segments, system⟩ := inv.system
  have limits := inv.noWrap
  have few := inv.few
  have room := inv.room
  have larger := (roundUp16 (show 8 * builder.nParts ≤ 2 ^ 64 - 0x1000 by omega)).1
  have evolves : Evolves (builder.partsBlock :: keep)
      (Held (builder.partsBlock :: keep) heap.heapStart limit)
      { heap := heap, live := builder.live base } { heap := heap', live := live } := by
    refine .call system call limits below ?_ ?_ fun _ held => held
    · intro block member
      rcases List.mem_cons.mp member with rfl | member
      · exact BuilderInv.partsLive builder base
      · exact BuilderInv.baseLive (kept block member).1
    · intro block member
      refine same.mem_iff.mpr ?_
      rcases List.mem_cons.mp member with rfl | member
      · exact BuilderInv.partsLive builder base'
      · exact BuilderInv.baseLive (kept block member).2
  obtain ⟨segments', system', _⟩ := evolves.owners segments system
  have start : heap'.heapStart = heap.heapStart := evolves.heapStart
  refine ⟨⟨segments', system'.perm same⟩, below, limits, inv.positive, inv.few, inv.room, ?_, ?_, ?_,
    inv.small⟩
  · rw [← inv.object]
    exact object_congr fun index less => evolves.bytes _
      ((held index less).mono fun _ => List.mem_cons_of_mem _)
  · intro index bound
    rw [← inv.entry index bound]
    refine load_congr fun address lower upper => evolves.bytes address
      (.inl ⟨builder.partsBlock, List.mem_cons_self, ?_, ?_⟩)
    · simp only [Builder.partsBlock]
      omega
    · simp only [Builder.partsBlock]
      omega
  · intro index less
    rw [start]
    exact (held index less).mono fun block member => (kept block member).2

theorem BuilderInv.write {block : Block} {address : Nat} (byte : UInt8)
    (inv : BuilderInv base limit heap builder) (member : block ∈ base)
    (inside : block.Contains address)
    (outside : address < builder.this ∨ builder.this + 32 ≤ address) :
    BuilderInv base limit { heap with mem := writeByte heap.mem address byte } builder := by
  obtain ⟨segments, system⟩ := inv.system
  have few := inv.few
  have room := inv.room
  have apart := inv.parts_apart (.inl ⟨block, member, inside⟩)
  have changes : ∀ other, writeByte heap.mem address byte other ≠ heap.mem other →
      Held (builder.live base) heap.heapStart limit other := by
    intro other changed
    have here : other = address := by
      by_contra different
      exact changed (writeByte_other _ _ different)
    rw [here]
    exact .inl ⟨block, BuilderInv.baseLive member, inside⟩
  have system' := system.rewrite inv.below changes
  refine { inv with system := ⟨segments, system'⟩, object := ?_, entry := ?_ }
  · rw [← inv.object]
    exact object_congr fun index less => writeByte_other _ _ (by omega)
  · intro index bound
    rw [← inv.entry index bound]
    exact load_writeByte_apart _ _ _ _ _ (by omega)

theorem BuilderRun.inv {onHeap : Bool} {state : Traced σ} (noWrap : limit < 2 ^ 64)
    (messageWord : literal "FastStringBuilder OutOfBounds" < 2 ^ 64)
    (run : BuilderRun mapPage literal limit onHeap base state builder) :
    BuilderInv (others onHeap builder.this base) limit state.heap builder := by
  induction run with
  | construct run positive few held call below =>
      have ends := construct_end_le call
      simp only at ends
      obtain ⟨segments, system⟩ := run.inv (by omega)
      obtain ⟨ptr, inv, _⟩ := construct_spec system noWrap positive few held call below
      exact inv.of_ptr
  | new run positive few call below =>
      have ends := new_end_le call
      simp only at ends
      obtain ⟨segments, system⟩ := run.inv (by omega)
      obtain ⟨_, ptr, inv, _⟩ := new_spec system noWrap positive few call below
      exact inv.of_ptr
  | append _ word ih =>
      obtain ⟨heap', appended, inv, _⟩ := append_spec _ ih word messageWord
      rw [Builder.append_this, appended]
      exact inv
  | build _ full strings noWrap call below ih =>
      obtain ⟨_, _, built, _⟩ := build_ok ih full strings noWrap call below
      exact built.inv
  | call _ call same kept held below ih => exact ih.call call same kept held below
  | @write onHeap base state builder block address byte _ member inside outside ih =>
      refine ih.write byte ?_ inside outside
      unfold others
      split
      · exact List.mem_cons_of_mem _ member
      · exact member

end

/-! A builder with one part, for the closed instances. -/

/-- The letter `A` below the heap. -/
def letterHeap : Heap Unit :=
  { mem := fun address => if address = 0x2000 then 0x41 else 0, heapStart := 0, heapEnd := 0,
    lastHdr := 0, pages := () }

def noLiteral (_ : String) : Nat := 0x3000

/-- A builder with one part that is built once. -/
def oneLetter (heap : Heap Unit) : Except Fault (List Nat × List UInt8) := do
  let (this, state) ← new mapAny 3 ⟨heap, []⟩ 1
  let (ptr, after) ← build mapAny noLiteral 4 (append noLiteral state this 0x2000) this
  return ([this, state.heap.heapEnd, after.heap.heapEnd,
      (append noLiteral state this 0x2000).heap.heapStart],
    [(append noLiteral state this 0x2000).heap.mem 0x2000,
      (append noLiteral state this 0x2000).heap.mem 0x2001, after.heap.mem (ptr + 1)])

/-- A builder with the parts `texts` and its first `build`, which leaves `byte` behind the text. -/
structure PartsRun (texts : List (List UInt8)) (fuel : Nat) (state after : Traced Unit)
    (builder : Builder) (ptr : Nat) (byte : UInt8) : Prop where
  run : BuilderRun mapAny noLiteral 0x803000 true [] state builder
  full : builder.entries.length = builder.nParts
  strings : Texts (others true builder.this []) 0x803000 state.heap builder texts
  unbuilt : builder.output = none
  ends : state.heap.heapEnd = 0x801000
  called : build mapAny noLiteral fuel state builder.this = .ok (ptr, after)
  below : after.heap.heapEnd ≤ 0x803000
  behind : after.heap.mem (ptr + texts.flatten.length) = byte

/-- A string below the heap and the builder is out of their reach. -/
theorem lowString {mem : Memory} {base : List Block} {start limit this str : Nat}
    {chars : List UInt8} (string : StringAt mem str chars) (above : 0x1000 ≤ str)
    (belowStart : str + chars.length < start) (belowThis : str + chars.length < this) :
    ProtectedString (Spared base start limit this) mem str chars :=
  ⟨string, fun _ _ => ⟨.inr ⟨by omega, .inl (by omega)⟩, .inl (by omega)⟩⟩

theorem oneLetter_run {heap : Heap Unit} {byte : UInt8}
    (run : HeapRun mapAny { heap := heap, live := [] })
    (evaluated : oneLetter heap =
      .ok ([0x80001d, 0x801000, 0x801000, 0x800000], [0x41, 0, byte])) :
    ∃ this state after builder ptr, new mapAny 3 ⟨heap, []⟩ 1 = .ok (this, state) ∧
      builder.this = this ∧
      PartsRun [[0x41]] 4 (append noLiteral state this 0x2000) after builder ptr byte := by
  obtain ⟨⟨this, state⟩, made, evaluated⟩ := Fault.peel evaluated
  obtain ⟨⟨ptr, after⟩, called, result⟩ := Fault.peel evaluated
  simp only [Pure.pure, Except.pure, Except.ok.injEq, Prod.mk.injEq, List.cons.injEq,
    and_true] at result
  obtain ⟨⟨thisEq, ends, afterEnd, start⟩, letter, terminator, behind⟩ := result
  have run : BuilderRun mapAny noLiteral 0x803000 true [] state _ :=
    .new run (by decide) (by decide) made (by omega)
  have run := run.append (show 0x2000 < 2 ^ 64 by decide)
  simp only at run
  have same : (append noLiteral state this 0x2000).heap.heapEnd = state.heap.heapEnd := by
    simp only [append]
    split <;> rfl
  refine ⟨this, state, after, _, ptr, made, rfl, run, rfl, ?_, rfl, same.trans ends, called,
    by omega, behind⟩
  have string : StringAt (append noLiteral state this 0x2000).heap.mem 0x2000 [0x41] :=
    ⟨⟨letter, trivial⟩, terminator, by decide⟩
  refine .cons (lowString string (by decide) (by rw [start]; decide) ?_) .nil
  rw [Builder.append_this]
  simp only [List.length_singleton]
  omega

theorem freshLetter_run : ∃ state after builder ptr,
    PartsRun [[0x41]] 4 state after builder ptr 0 := by
  have evaluated : (initHeap mapAny letterHeap 0x800000 1 >>= oneLetter) =
      .ok ([0x80001d, 0x801000, 0x801000, 0x800000], [0x41, 0, 0]) := by decide +kernel
  obtain ⟨heap, boot, evaluated⟩ := Fault.peel evaluated
  obtain ⟨_, _, after, builder, ptr, _, _, letter⟩ :=
    oneLetter_run (.init (by decide) (by decide) (by decide) (by decide) boot) evaluated
  exact ⟨_, after, builder, ptr, letter⟩

end FastStringBuilder

end OkeOS
