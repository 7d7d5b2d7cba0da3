import OkeOS.HeapExpansions
import OkeOS.HeapReuse
import OkeOS.StringBuilderLife

/-!
What callers get from `build` and from `buildAndDestroy`.  `build` stores no terminator, so
its string ends with the parts only if the byte behind them was zero before, and
`buildAndDestroy` returns a pointer to a block that it has freed.
-/

namespace OkeOS

open ByteMemory Tiling
open HeapSegHdr hiding free

namespace FastStringBuilder

/-- `strlen(..) + 1` is a `u32`. -/
def Short (texts : List (List UInt8)) : Prop := ∀ chars ∈ texts, chars.length < 2 ^ 32 - 1

theorem Short.noWrap {texts : List (List UInt8)} (short : Short texts) : NoWrap texts := by
  intro chars member
  have less := short chars member
  rw [Nat.mod_eq_of_lt (by omega)]
  omega

/-- All of a part is copied if its length is a `u32`. -/
theorem joined_whole {texts : List (List UInt8)} (small : ∀ chars ∈ texts, chars.length < 2 ^ 32) :
    joined texts = texts.flatten := by
  induction texts with
  | nil => rfl
  | cons chars rest ih =>
      have whole : copied chars = chars := by
        rw [copied, Nat.mod_eq_of_lt (small chars (by simp)), List.take_length]
      rw [joined, List.flatMap_cons, whole, List.flatten_cons]
      exact congrArg (chars ++ ·) (ih fun other member => small other (by simp [member]))

theorem Short.joined_eq {texts : List (List UInt8)} (short : Short texts) :
    joined texts = texts.flatten :=
  joined_whole fun chars member => (short chars member).trans (by decide)

/-- With a longer part the block is too short for the string. -/
theorem fullSize_short {texts : List (List UInt8)} (long : ¬Short texts) :
    fullSize texts + (2 ^ 32 - 1) ≤ texts.flatten.length + texts.length := by
  have part (chars : List UInt8) : partSize chars ≤ chars.length + 1 ∧
      (¬chars.length < 2 ^ 32 - 1 → partSize chars + (2 ^ 32 - 1) ≤ chars.length + 1) := by
    unfold partSize
    omega
  have all (rest : List (List UInt8)) : fullSize rest ≤ rest.flatten.length + rest.length := by
    induction rest with
    | nil => exact Nat.le_refl _
    | cons chars rest ih =>
        have head := (part chars).1
        simp only [fullSize, List.map_cons, List.sum_cons, List.flatten_cons, List.length_append,
          List.length_cons] at ih ⊢
        omega
  induction texts with
  | nil => exact absurd (by simp [Short]) long
  | cons chars rest ih =>
      have head := part chars
      have others := all rest
      simp only [fullSize, List.map_cons, List.sum_cons, List.flatten_cons, List.length_append,
        List.length_cons] at ih others ⊢
      by_cases shortRest : Short rest
      · have longHead : ¬chars.length < 2 ^ 32 - 1 := fun less =>
          long (List.forall_mem_cons.mpr ⟨less, shortRest⟩)
        have more := head.2 longHead
        omega
      · have tail := ih shortRest
        omega

section

variable {σ : Type} {mapPage : σ → Nat → Except Fault σ} {literal : String → Nat} {fuel : Nat}
  {base : List Block} {limit : Nat} {heap : Heap σ} {builder : Builder}
  {texts : List (List UInt8)} {trace : List BuilderEvent} {onHeap : Bool} {state : Traced σ}

theorem enoughRounds_large (texts : List (List UInt8)) {fuel : Nat}
    (enough : texts.flatten.length + texts.length < fuel) : EnoughRounds fuel fuel texts := by
  refine ⟨by omega, fun chars member => ?_⟩
  have shorter := (List.sublist_flatten_of_mem member).length_le
  omega

theorem flatten_noNul {Protected : Nat → Prop} {mem : Memory} {entries : List Nat}
    (strings : List.Forall₂ (ProtectedString Protected mem) entries texts) :
    0 ∉ texts.flatten := by
  induction strings with
  | nil => simp
  | cons string _ ih =>
      rw [List.flatten_cons, List.mem_append]
      exact not_or.mpr ⟨string.1.noNul, ih⟩

/-- With enough rounds `build` comes to `outcome`. -/
def BuildSettles (mapPage : σ → Nat → Except Fault σ) (literal : String → Nat) (state : Traced σ)
    (this : Nat) (outcome : Except Fault (Nat × Traced σ)) : Prop :=
  ∃ least, ∀ fuel, least ≤ fuel → build mapPage literal fuel state this = outcome

/-- `build` returned `ptr`: the string there is the concatenation of `texts`, with its
terminator in the block that was allocated for it, and what others hold is unchanged. -/
structure Concatenated (base : List Block) (limit : Nat) (heap : Heap σ) (builder : Builder)
    (texts : List (List UInt8)) (ptr : Nat) (final : Heap σ) : Prop where
  string : StringAt final.mem ptr texts.flatten
  inside : texts.flatten.length < roundUp (fullSize texts) 0x10
  allocated : ∃ segments, SystemInv { heap := final, live :=
    { ptr := ptr, size := fullSize texts } :: builder.partsBlock :: base } segments
  frame : ∀ address, Spared base heap.heapStart limit builder.this address →
    final.mem address = heap.mem address

section

variable (inv : BuilderInv base limit heap builder)
  (full : builder.entries.length = builder.nParts) (strings : Texts base limit heap builder texts)

include inv full strings

theorem Concatenated.short {ptr : Nat} {final : Heap σ}
    (concatenated : Concatenated base limit heap builder texts ptr final) : Short texts := by
  by_contra long
  have few := inv.few
  have lengths := strings.length_eq
  have small := fullSize_le texts
  have size := fullSize_short long
  have rounded := (roundUp16 (show fullSize texts ≤ 2 ^ 64 - 0x1000 by omega)).2.1
  have inside := concatenated.inside
  omega

variable (short : Short texts)

include short

/-- The string ends with the parts if the byte behind them is zero. -/
theorem Built.concatenated_iff {ptr : Nat} {fresh final : Heap σ}
    (built : Built base limit heap builder texts ptr fresh final) :
    Concatenated base limit heap builder texts ptr final ↔
      fresh.mem (ptr + texts.flatten.length) = 0 := by
  obtain ⟨shorter, small⟩ := fullSize_bounds inv full strings short.noWrap
  have larger := (roundUp16 (show fullSize texts ≤ 2 ^ 64 - 0x1000 by omega)).1
  have bytes := built.bytes
  have behind := built.behind
  rw [short.joined_eq] at shorter bytes behind
  constructor
  · intro concatenated
    rw [← behind]
    exact concatenated.string.terminator
  · intro zero
    exact ⟨⟨bytes, behind.trans zero, flatten_noNul strings⟩, by omega, built.inv.system,
      built.evolves.bytes⟩

variable {outcome : Except Fault (Nat × Heap σ)}
  (settles : Settles mapPage (released heap builder) (fullSize texts) outcome)
  (below : ∀ ptr fresh, outcome = .ok (ptr, fresh) → fresh.heapEnd ≤ limit)

include settles below

variable (literal) in
theorem build_settles (trace : List BuilderEvent) :
    BuildSettles mapPage literal ⟨heap, trace⟩ builder.this (do
      let (ptr, fresh) ← outcome
      .ok (ptr, ⟨{ fresh with mem := outMem fresh.mem builder.this ptr (fullSize texts) texts },
        trace ++ derefs 0 texts.length ++ releaseEvents builder ++ [.malloc ptr] ++
          derefs 0 texts.length⟩)) := by
  obtain ⟨least, later⟩ := settles
  refine ⟨max least (texts.flatten.length + texts.length + 1), fun fuel enough => ?_⟩
  have called := later fuel (by omega)
  have rounds := enoughRounds_large texts (show _ < fuel by omega)
  cases outcome with
  | error fault =>
      rw [inv.build_eq full strings, if_pos rounds, called]
      rfl
  | ok result =>
      obtain ⟨ptr, fresh⟩ := result
      obtain ⟨shorter, small⟩ := fullSize_bounds inv full strings short.noWrap
      have larger := (roundUp16 (show fullSize texts ≤ 2 ^ 64 - 0x1000 by omega)).1
      refine build_clear literal inv full strings (by omega) called (below ptr fresh rfl) ?_
        (by omega) rounds trace
      intro address held
      have outside := build_apart inv full strings (by omega) called (below ptr fresh rfl) held
      omega

end

theorem Built.strings {ptr : Nat} {fresh final : Heap σ} (strings : Texts base limit heap builder texts)
    (built : Built base limit heap builder texts ptr fresh final) :
    Texts base limit final { builder with output := some { ptr := ptr, size := fullSize texts } }
      texts := by
  have start : final.heapStart = heap.heapStart := built.evolves.heapStart
  unfold Texts
  rw [start]
  exact strings.imp fun _ _ string => string.congr built.evolves.bytes

/-- A second call frees the block of the first one and gets it back. -/
theorem Built.again {ptr : Nat} {fresh final : Heap σ} (inv : BuilderInv base limit heap builder)
    (full : builder.entries.length = builder.nParts) (strings : Texts base limit heap builder texts)
    (short : Short texts)
    (called : malloc mapPage fuel (released heap builder) (fullSize texts) = .ok (ptr, fresh))
    (below : fresh.heapEnd ≤ limit)
    (built : Built base limit heap builder texts ptr fresh final)
    (trace : List BuilderEvent) :
    ∃ state', BuildSettles mapPage literal ⟨final, trace⟩ builder.this (.ok (ptr, state')) ∧
      (Concatenated base limit final
          { builder with output := some { ptr := ptr, size := fullSize texts } } texts ptr
          state'.heap ↔ final.mem (ptr + texts.flatten.length) = 0) := by
  obtain ⟨⟨segments, system⟩, _⟩ := inv.released
  obtain ⟨shorter, small⟩ := fullSize_bounds inv full strings short.noWrap
  have larger := (roundUp16 (show fullSize texts ≤ 2 ^ 64 - 0x1000 by omega)).1
  rw [short.joined_eq] at shorter
  have limits := inv.noWrap
  obtain ⟨again, settles, endEq, bytes⟩ := system.inv.malloc_reuses (by omega) (by omega) called
    (by omega) built.headers rfl
  have strings' := built.strings strings
  have below' : again.heapEnd ≤ limit := endEq.trans_le built.inv.below
  have calls := build_settles literal built.inv full strings' short settles
    (fun _ _ same => by cases same; exact below') trace
  obtain ⟨least, later⟩ := settles
  have built' := outMem_built built.inv full strings' short.noWrap
    (later least (Nat.le_refl _)) below'
  refine ⟨_, calls, ?_⟩
  rw [built'.concatenated_iff built.inv full strings' short, bytes _ (by omega)]

section

variable (inv : BuilderInv base limit heap builder)
  (full : builder.entries.length = builder.nParts) (strings : Texts base limit heap builder texts)
  (short : Short texts)
  (room : ∀ count ≤ 2, ∀ heap', Grows mapPage (roundUp (fullSize texts) 0x10)
    (released heap builder) count heap' → heap'.heapEnd ≤ limit)

include inv full strings short room

theorem malloc_below {ptr : Nat} {fresh : Heap σ}
    (called : malloc mapPage fuel (released heap builder) (fullSize texts) = .ok (ptr, fresh)) :
    fresh.heapEnd ≤ limit := by
  obtain ⟨⟨segments, system⟩, _⟩ := inv.released
  obtain ⟨shorter, small⟩ := fullSize_bounds inv full strings short.noWrap
  obtain ⟨larger, _, multiple, bound⟩ :=
    roundUp16 (show fullSize texts ≤ 2 ^ 64 - 0x1000 by omega)
  have limits := inv.noWrap
  obtain ⟨count, atMost, grown, grows, endEq⟩ := malloc_end_grows rfl (roundUp_rounded multiple)
    (by omega) bound system.inv (fun count atMost heap' grows => by
      have below := room count atMost heap' grows
      omega) called
  rw [endEq]
  exact room count atMost grown grows

variable (literal) in
theorem build_outcome (trace : List BuilderEvent) :
    ∃ outcome, BuildSettles mapPage literal ⟨heap, trace⟩ builder.this outcome ∧
      ∀ fault, outcome = .error fault → ∃ pages pos, mapPage pages pos = .error fault := by
  obtain ⟨⟨segments, system⟩, _⟩ := inv.released
  obtain ⟨shorter, small⟩ := fullSize_bounds inv full strings short.noWrap
  obtain ⟨larger, _, multiple, bound⟩ :=
    roundUp16 (show fullSize texts ≤ 2 ^ 64 - 0x1000 by omega)
  have limits := inv.noWrap
  obtain ⟨outcome, settles, returns⟩ := malloc_settles rfl (roundUp_rounded multiple)
    (by omega) bound system.inv fun count atMost heap' grows => by
      have below := room count atMost heap' grows
      omega
  have below : ∀ ptr fresh, outcome = .ok (ptr, fresh) → fresh.heapEnd ≤ limit := by
    intro ptr fresh returned
    obtain ⟨least, later⟩ := settles
    exact malloc_below inv full strings short room
      ((later least (Nat.le_refl _)).trans returned)
  refine ⟨_, build_settles literal inv full strings short settles below trace, ?_⟩
  intro fault failed
  cases outcome with
  | error other =>
      cases failed
      exact returns
  | ok result => cases failed

/-- A call of `build` that returns, and the next one. -/
theorem build_concatenates {ptr : Nat} {state' : Traced σ}
    (called : build mapPage literal fuel ⟨heap, trace⟩ builder.this = .ok (ptr, state'))
    {segments : List Segment} (heapInv : HeapInv (released heap builder) segments) :
    (Concatenated base limit heap builder texts ptr state'.heap ↔
      blockByte (released heap builder) segments (roundUp (fullSize texts) 0x10)
        texts.flatten.length = 0) ∧
    (Concatenated base limit heap builder texts ptr state'.heap → ∃ state'',
      BuildSettles mapPage literal state' builder.this (.ok (ptr, state'')) ∧
      Concatenated base limit state'.heap builder texts ptr state''.heap) := by
  obtain ⟨shorter, small⟩ := fullSize_bounds inv full strings short.noWrap
  obtain ⟨larger, _, multiple, bound⟩ :=
    roundUp16 (show fullSize texts ≤ 2 ^ 64 - 0x1000 by omega)
  have limits := inv.noWrap
  have below : state'.heap.heapEnd ≤ limit := by
    have ran := called
    rw [inv.build_eq full strings] at ran
    split at ran
    · obtain ⟨⟨ptr, fresh⟩, allocated, rest⟩ := Fault.peel ran
      have ends := writeOut_end rest
      have below := malloc_below inv full strings short room allocated
      omega
    · cases ran
  obtain ⟨fresh, allocated, built, _⟩ :=
    build_ok inv full strings short.noWrap called below
  have freshBelow := malloc_below inv full strings short room allocated
  rw [short.joined_eq] at shorter
  have byte := malloc_byte heapInv rfl multiple (by omega) bound allocated (by omega)
    (show texts.flatten.length < roundUp (fullSize texts) 0x10 by omega)
  have first := built.concatenated_iff inv full strings short
  refine ⟨by rw [first, byte], fun concatenated => ?_⟩
  obtain ⟨heap', trace'⟩ := state'
  obtain ⟨state'', settles, second⟩ :=
    built.again inv full strings short allocated freshBelow trace'
  obtain ⟨string, inside, live, frame⟩ := second.mpr concatenated.string.terminator
  exact ⟨state'', settles, string, inside, live, frame⟩

end

/-- `build` of a filled builder returns unless a request for a page panics, and what it returns
is the concatenation of its parts, the second time as the first, if and only if every part is
short and the byte at the end of the string was zero before the call. -/
theorem build_concatenates_iff (noWrap : limit < 2 ^ 64)
    (messageWord : literal "FastStringBuilder OutOfBounds" < 2 ^ 64)
    (run : BuilderRun mapPage literal limit onHeap base state builder)
    (full : builder.entries.length = builder.nParts)
    (strings : Texts (others onHeap builder.this base) limit state.heap builder texts)
    (room : ∀ count ≤ 2, ∀ heap', Grows mapPage (roundUp (fullSize texts) 0x10)
      (released state.heap builder) count heap' → heap'.heapEnd ≤ limit) :
    (Short texts → ∃ outcome, BuildSettles mapPage literal state builder.this outcome ∧
      ∀ fault, outcome = .error fault → ∃ pages pos, mapPage pages pos = .error fault) ∧
    ∀ fuel ptr state', build mapPage literal fuel state builder.this = .ok (ptr, state') →
      (Concatenated (others onHeap builder.this base) limit state.heap builder texts ptr
          state'.heap ∧
        (∃ ptr' state'', BuildSettles mapPage literal state' builder.this (.ok (ptr', state'')) ∧
          Concatenated (others onHeap builder.this base) limit state'.heap builder texts ptr'
            state''.heap) ↔
      Short texts ∧ ∀ segments, HeapInv (released state.heap builder) segments →
        blockByte (released state.heap builder) segments (roundUp (fullSize texts) 0x10)
          texts.flatten.length = 0) := by
  have inv := run.inv noWrap messageWord
  obtain ⟨heap, trace⟩ := state
  obtain ⟨⟨segments, system⟩, _⟩ := inv.released
  have heapInv := system.inv
  simp only at inv strings room heapInv ⊢
  generalize others onHeap builder.this base = base' at inv strings
  refine ⟨fun short => build_outcome literal inv full strings short room trace,
    fun fuel ptr state' called => ⟨?_, ?_⟩⟩
  · rintro ⟨concatenated, _⟩
    have short := concatenated.short inv full strings
    refine ⟨short, fun other otherInv => ?_⟩
    exact (build_concatenates inv full strings short room called otherInv).1.mp concatenated
  · rintro ⟨short, clear⟩
    obtain ⟨first, second⟩ := build_concatenates inv full strings short room called heapInv
    have concatenated := first.mpr (clear segments heapInv)
    exact ⟨concatenated, ptr, second concatenated⟩

/-! `buildAndDestroy`. -/

/-- What `buildAndDestroy` is for: `pointer` is an allocated block with the string that `build`
makes in the same state, and no later block overlaps it. -/
structure Yields (mapPage : σ → Nat → Except Fault σ) (literal : String → Nat) (fuel : Nat)
    (base : List Block) (state : Traced σ) (this pointer : Nat) (final : Heap σ) : Prop where
  block : ∃ chain node, ChainFrom final.mem final.heapStart chain ∧ node ∈ chain ∧
    node.addr + 29 = pointer ∧ node.header.free = false ∧
    ∀ later, LiveRun mapPage [] { heap := final, live := base } later →
      ∀ fuel size other heap', malloc mapPage fuel later.heap size = .ok (other, heap') →
        other ≠ 0 → ∀ address, pointer ≤ address → address < pointer + node.header.length →
          ¬Block.Contains { ptr := other, size := size } address
  string : ∃ ptr built chars, build mapPage literal fuel state this = .ok (ptr, built) ∧
    StringAt built.heap.mem ptr chars ∧ StringAt final.mem pointer chars

theorem chainOf_owner {prev : Nat} {segments : List Segment} {node : ChainNode}
    (member : node ∈ chainOf prev segments) :
    ∃ owner ∈ segments, owner.addr = node.addr ∧ owner.free = node.header.free := by
  rw [← chainOf_segments prev segments]
  exact ⟨node.segment, List.mem_map_of_mem member, rfl, rfl⟩

theorem sfree_end (heap : Heap σ) (pointer size : Nat) :
    (OkeOS.sfree heap pointer size).heapEnd = heap.heapEnd := by
  rw [sfree_eq, (zeroPayload_bounds _ _ _).heapEnd, (free_bounds _ _).heapEnd]

theorem delete_end (state : Traced σ) (this : Nat) :
    (delete state this).heap.heapEnd = state.heap.heapEnd := by
  unfold delete
  split
  · rfl
  · simp only [destruct, Traced.free, Traced.sfree]
    rw [(free_bounds _ _).heapEnd, sfree_end, sfree_end]

/-- The block that `buildAndDestroy` returns has been freed by the destructor. -/
theorem not_yields (noWrap : limit < 2 ^ 64)
    (messageWord : literal "FastStringBuilder OutOfBounds" < 2 ^ 64)
    (run : BuilderRun mapPage literal limit true base state builder)
    (full : builder.entries.length = builder.nParts)
    (strings : Texts (others true builder.this base) limit state.heap builder texts)
    (parts : NoWrap texts) {pointer : Nat} {final : Traced σ}
    (called : buildAndDestroy mapPage literal fuel state builder.this = .ok (pointer, final))
    (below : final.heap.heapEnd ≤ limit) :
    ¬Yields mapPage literal fuel base state builder.this pointer final.heap := by
  rintro ⟨⟨chain, node, reached, member, place, used, _⟩, _⟩
  have inv := run.inv noWrap messageWord
  obtain ⟨⟨ptr, built⟩, call, result⟩ := Fault.peel called
  simp only [Except.ok.injEq, Prod.mk.injEq] at result
  obtain ⟨rfl, result⟩ := result
  have ends := delete_end built builder.this
  rw [result] at ends
  obtain ⟨heap, trace⟩ := state
  obtain ⟨heap', trace'⟩ := built
  obtain ⟨fresh, _, isBuilt, _⟩ := build_ok inv full strings parts call (by omega)
  have inv' : BuilderInv (objectBlock builder.this :: base) limit heap'
      { builder with output := some { ptr := ptr, size := fullSize texts } } := isBuilt.inv
  obtain ⟨heap'', deleted, ⟨segments, system⟩, _⟩ :=
    @delete_spec σ base limit heap'
      { builder with output := some { ptr := ptr, size := fullSize texts } }
      { ptr := ptr, size := fullSize texts } inv' rfl trace'
  simp only at deleted
  rw [deleted] at result
  rw [← result] at reached
  rw [reached.unique system.inv.chainFrom] at member
  obtain ⟨owner, ownerMem, ownerAddr, ownerFree⟩ := chainOf_owner member
  obtain ⟨block, live, blockPtr⟩ := system.covered owner ownerMem (ownerFree.trans used)
  have different := (inv'.ptrs.2 _ rfl).2 block (List.mem_cons_of_mem _ live)
  simp only at different
  omega

end

/-! Few letters, in a fresh heap and in a block that was used before. -/

section

variable {texts : List (List UInt8)} {fuel : Nat} {state after : Traced Unit} {builder : Builder}
  {ptr : Nat} {byte : UInt8} (parts : PartsRun texts fuel state after builder ptr byte)
  (small : roundUp (fullSize texts) 0x10 = 0x10)

include parts small

theorem PartsRun.room : ∀ count ≤ 2, ∀ heap', Grows mapAny (roundUp (fullSize texts) 0x10)
    (released state.heap builder) count heap' → heap'.heapEnd ≤ 0x803000 := by
  intro count atMost heap' grows
  have same : released state.heap builder = state.heap := by rw [released, parts.unbuilt]
  rw [same] at grows
  have ends := parts.ends
  have grown := grows.end_eq (by omega)
  have page : roundUp 0x10 0x1000 / 0x1000 * 0x1000 = 0x1000 := by decide
  rw [small, page] at grown
  omega

theorem PartsRun.blockByte (short : Short texts) (inside : texts.flatten.length < 0x10)
    {segments : List Segment} (heapInv : HeapInv (released state.heap builder) segments) :
    blockByte (released state.heap builder) segments (roundUp (fullSize texts) 0x10)
      texts.flatten.length = byte := by
  have inv := parts.run.inv (by decide) (by decide)
  obtain ⟨heap, trace⟩ := state
  obtain ⟨fresh, allocated, built, _⟩ :=
    build_ok inv parts.full parts.strings short.noWrap parts.called parts.below
  have below := malloc_below inv parts.full parts.strings short (parts.room small) allocated
  have behind := built.behind
  rw [short.joined_eq] at behind
  rw [← malloc_byte heapInv rfl (by rw [small]) (by omega) (by omega) allocated (by omega)
    (by omega), ← parts.behind, behind]

end

/-- The strings `A` and `BC` below the heap. -/
def wordHeap : Heap Unit :=
  { mem := writeBytes (writeBytes (fun _ => 0) 0x2000 [0x41]) 0x2002 [0x42, 0x43], heapStart := 0,
    heapEnd := 0, lastHdr := 0, pages := () }

/-- A builder with both of them as its parts. -/
def twoParts : Except Fault (List Nat × List UInt8) := do
  let heap ← initHeap mapAny wordHeap 0x800000 1
  let (this, state) ← new mapAny 3 ⟨heap, []⟩ 2
  let filled := append noLiteral (append noLiteral state this 0x2000) this 0x2002
  let (ptr, after) ← build mapAny noLiteral 8 filled this
  return ([this, state.heap.heapEnd, filled.heap.heapEnd, filled.heap.heapStart, after.heap.heapEnd],
    [filled.heap.mem 0x2000, filled.heap.mem 0x2001, filled.heap.mem 0x2002,
      filled.heap.mem 0x2003, filled.heap.mem 0x2004, after.heap.mem (ptr + 3)])

theorem twoParts_run : ∃ state after builder ptr,
    PartsRun [[0x41], [0x42, 0x43]] 8 state after builder ptr 0 := by
  have evaluated : twoParts = .ok ([0x80001d, 0x801000, 0x801000, 0x800000, 0x801000],
      [0x41, 0, 0x42, 0x43, 0, 0]) := by decide +kernel
  obtain ⟨heap, boot, evaluated⟩ := Fault.peel evaluated
  obtain ⟨⟨this, state⟩, made, evaluated⟩ := Fault.peel evaluated
  obtain ⟨⟨ptr, after⟩, called, result⟩ := Fault.peel evaluated
  simp only [Pure.pure, Except.pure, Except.ok.injEq, Prod.mk.injEq, List.cons.injEq,
    and_true] at result
  obtain ⟨⟨thisEq, stateEnd, filledEnd, start, afterEnd⟩, a, zeroA, b, c, zeroC, behind⟩ := result
  have run : BuilderRun mapAny noLiteral 0x803000 true [] state _ :=
    .new (.init (by decide) (by decide) (by decide) (by decide) boot) (by decide) (by decide) made
      (by omega)
  have run := run.append (show 0x2000 < 2 ^ 64 by decide)
  have run := run.append (show 0x2002 < 2 ^ 64 by decide)
  simp only [Builder.append_this] at run
  have words (mem : Memory) (a : mem 0x2000 = 0x41) (zeroA : mem 0x2001 = 0) (b : mem 0x2002 = 0x42)
      (c : mem 0x2003 = 0x43) (zeroC : mem 0x2004 = 0) :
      StringAt mem 0x2000 [0x41] ∧ StringAt mem 0x2002 [0x42, 0x43] :=
    ⟨⟨⟨a, trivial⟩, zeroA, by decide⟩, ⟨b, c, trivial⟩, zeroC, by decide⟩
  obtain ⟨first, second⟩ := words _ a zeroA b c zeroC
  refine ⟨_, after, _, ptr,
    { run := run, full := rfl, strings := ?_, unbuilt := rfl, ends := filledEnd, called := ?_,
      below := by omega, behind := behind }⟩
  · refine .cons (lowString first (by decide) (by rw [start]; decide) ?_)
      (.cons (lowString second (by decide) (by rw [start]; decide) ?_) .nil)
    all_goals
      simp only [Builder.append_this, List.length_cons, List.length_nil]
      omega
  · rw [Builder.append_this, Builder.append_this]
    exact called

theorem build_concatenates_iff_twoParts : ∃ state after builder ptr,
    BuilderRun mapAny noLiteral 0x803000 true [] state builder ∧
      build mapAny noLiteral 8 state builder.this = .ok (ptr, after) ∧
      Concatenated (others true builder.this []) 0x803000 state.heap builder
        [[0x41], [0x42, 0x43]] ptr after.heap := by
  obtain ⟨state, after, builder, ptr, parts⟩ := twoParts_run
  have both := (build_concatenates_iff (by decide) (by decide) parts.run parts.full parts.strings
    (parts.room (by decide))).2 8 ptr after parts.called
  have short : Short [[(0x41 : UInt8)], [0x42, 0x43]] := by simp [Short]
  have concatenated := both.mpr ⟨short, fun _ => parts.blockByte (by decide) short (by decide)⟩
  exact ⟨state, after, builder, ptr, parts.run, parts.called, concatenated.1⟩

theorem not_yields_letter : ∃ state builder pointer final,
    BuilderRun mapAny noLiteral 0x803000 true [] state builder ∧
      buildAndDestroy mapAny noLiteral 4 state builder.this = .ok (pointer, final) ∧
      ¬Yields mapAny noLiteral 4 [] state builder.this pointer final.heap := by
  obtain ⟨state, after, builder, ptr, letter⟩ := freshLetter_run
  have called : buildAndDestroy mapAny noLiteral 4 state builder.this =
      .ok (ptr, delete after builder.this) := by
    rw [buildAndDestroy, letter.called]
    rfl
  refine ⟨state, builder, ptr, _, letter.run, called, not_yields (by decide) (by decide)
    letter.run letter.full letter.strings (by simp [NoWrap]) called ?_⟩
  rw [delete_end]
  exact letter.below

/-- The string of `buildAndDestroy`, and the next block. -/
def nextBlock (heap : Heap Unit) : Except Fault (List Nat) := do
  let (this, state) ← new mapAny 3 ⟨heap, []⟩ 1
  let (ptr, final) ← buildAndDestroy mapAny noLiteral 4 (append noLiteral state this 0x2000) this
  let (other, _) ← malloc mapAny 2 final.heap 256
  return [ptr, other]

/-- The next `malloc` hands out the string that `buildAndDestroy` has returned. -/
theorem buildAndDestroy_overlapped : ∃ state builder pointer final other heap',
    BuilderRun mapAny noLiteral 0x803000 true [] state builder ∧
      builder.entries.length = builder.nParts ∧
      Texts (others true builder.this []) 0x803000 state.heap builder [[0x41]] ∧
      buildAndDestroy mapAny noLiteral 4 state builder.this = .ok (pointer, final) ∧
      malloc mapAny 2 final.heap 256 = .ok (other, heap') ∧ other ≠ 0 ∧
      Block.Contains { ptr := other, size := 256 } pointer := by
  have first : (initHeap mapAny letterHeap 0x800000 1 >>= oneLetter) =
      .ok ([0x80001d, 0x801000, 0x801000, 0x800000], [0x41, 0, 0]) := by decide +kernel
  have second : (initHeap mapAny letterHeap 0x800000 1 >>= nextBlock) =
      .ok [0x800087, 0x80001d] := by decide +kernel
  obtain ⟨heap, boot, first⟩ := Fault.peel first
  rw [boot] at second
  change nextBlock heap = _ at second
  obtain ⟨this, state, after, builder, _, made, rfl, letter⟩ :=
    oneLetter_run (.init (by decide) (by decide) (by decide) (by decide) boot) first
  obtain ⟨⟨_, _⟩, made', second⟩ := Fault.peel second
  rw [made, Except.ok.injEq, Prod.mk.injEq] at made'
  obtain ⟨rfl, rfl⟩ := made'
  obtain ⟨⟨pointer, final⟩, called, second⟩ := Fault.peel second
  obtain ⟨⟨other, heap'⟩, next, result⟩ := Fault.peel second
  simp only [Pure.pure, Except.pure, Except.ok.injEq, List.cons.injEq, and_true] at result
  obtain ⟨rfl, rfl⟩ := result
  exact ⟨_, builder, _, final, _, heap', letter.run, letter.full, letter.strings, called, next,
    by decide, by decide, by decide⟩

/-- A client leaves the letter `B` where the string of the builder is going to end. -/
def usedHeap : Except Fault (Heap Unit) := do
  let heap ← initHeap mapAny letterHeap 0x800000 1
  let (pointer, heap) ← malloc mapAny 2 heap 256
  if pointer = 0x80001d then
    return free { heap with mem := writeByte heap.mem 0x800088 0x42 } pointer
  else .error .outOfFuel

theorem usedHeap_run {heap : Heap Unit} (used : usedHeap = .ok heap) :
    HeapRun mapAny { heap := heap, live := [] } := by
  obtain ⟨booted, boot, used⟩ := Fault.peel used
  obtain ⟨⟨pointer, taken⟩, called, used⟩ := Fault.peel used
  simp only at used
  split at used
  · rename_i place
    have run : HeapRun mapAny { heap := booted, live := [] } :=
      .init (by decide) (by decide) (by decide) (by decide) boot
    have run := run.step (.call (.malloc (by decide) called))
    rw [if_neg (by omega)] at run
    have inside : Block.Contains { ptr := pointer, size := 256 } 0x800088 := by
      refine ⟨by simp only; omega, ?_⟩
      simp only [place]
      decide
    have run := run.step (.write 0x42 List.mem_cons_self inside)
    have run := run.step (.call (.free List.mem_cons_self))
    simp only [Pure.pure, Except.pure, Except.ok.injEq, List.erase_cons_head] at used run
    rw [← used]
    exact run
  · cases used

/-- The string of the builder is `A`, the one that `build` returns goes on with `B`. -/
theorem build_unterminated : ∃ state after builder ptr,
    BuilderRun mapAny noLiteral 0x803000 true [] state builder ∧
      builder.entries.length = builder.nParts ∧
      Texts (others true builder.this []) 0x803000 state.heap builder [[0x41]] ∧
      build mapAny noLiteral 4 state builder.this = .ok (ptr, after) ∧
      ¬StringAt after.heap.mem ptr [0x41] := by
  have evaluated : (usedHeap >>= oneLetter) =
      .ok ([0x80001d, 0x801000, 0x801000, 0x800000], [0x41, 0, 0x42]) := by decide +kernel
  obtain ⟨heap, used, evaluated⟩ := Fault.peel evaluated
  obtain ⟨_, _, after, builder, ptr, _, _, letter⟩ :=
    oneLetter_run (usedHeap_run used) evaluated
  refine ⟨_, after, builder, ptr, letter.run, letter.full, letter.strings, letter.called, ?_⟩
  intro string
  have zero : (0x42 : UInt8) = 0 := letter.behind.symm.trans string.terminator
  exact absurd zero (by decide)

end FastStringBuilder

end OkeOS
