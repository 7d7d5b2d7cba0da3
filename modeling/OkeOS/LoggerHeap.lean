import Mathlib.Data.List.TakeWhile
import OkeOS.ConsolePercent
import OkeOS.StringBuilderOutput

/-!
The heap after a log call.  The three blocks of the builder are freed again and merged with
their neighbours, so a call that returns leaves the heap as it found it, as long as the size of
the message does not wrap.
-/

namespace OkeOS

open ByteMemory Tiling FastStringBuilder
open HeapSegHdr hiding free

namespace Logger

/-- The functions of the `Logger`. -/
inductive Level where
  | info
  | warn
  | error
deriving DecidableEq, Repr

def Level.tag : Level → String
  | .info => infoTag
  | .warn => warnTag
  | .error => errorTag

section

variable {σ : Type} (mapPage : σ → Nat → Except Fault σ) (literal : String → Nat) (fuel : Nat)

def log (this : Logger) (level : Level) (str : Nat) (args : List UInt64) (state : Traced σ)
    (console : Console) : Except Fault (Traced σ × Console) :=
  match level with
  | .info => this.info mapPage literal fuel str args state console
  | .warn => this.warn mapPage literal fuel str args state console
  | .error => this.error mapPage literal fuel str args state console

/-- What `__internal_log` appends. -/
def entries (this : Logger) (tpStr str : Nat) : List Nat :=
  [literal "$c8[", this.nspace, literal "/", this.tag, tpStr, str, literal "\n"]

/-- The strings that the entries point to. -/
def contents (level : Level) (nspace tag message : List UInt8) : List (List UInt8) :=
  [text "$c8[", nspace, text "/", tag, text level.tag, message, text "\n"]

end

end Logger

/-! A table of strings below a heap. -/

def logTable : List UInt8 :=
  text "$c8[" ++ [0] ++ text "/" ++ [0] ++ text Logger.infoTag ++ [0] ++ text "\n" ++ [0] ++
    text "n" ++ [0] ++ text "t" ++ [0] ++ text "m"

def logMem (address : Nat) : UInt8 :=
  if address < 0x2000 then 0 else logTable.getD (address - 0x2000) 0

def logLiteral (literal : String) : Nat :=
  if literal = "$c8[" then 0x2000
  else if literal = "/" then 0x2005
  else if literal = Logger.infoTag then 0x2007
  else if literal = "\n" then 0x2016
  else 0x2004

def serialLogger : Logger := { tag := 0x201a, nspace := 0x2018, target := .serial }

/-- The heap that `initHeap` makes at `0x800000`. -/
def bootHeap (mem : Memory) (pageCount : Nat) : Heap Unit :=
  { mem := setFree (setLast (setNext (setLength mem 0x800000
        (sub64 (pageCount * 0x1000 % 2 ^ 64) sizeofHeapSegHdr)) 0x800000 0) 0x800000 0) 0x800000 true
    heapStart := 0x800000
    heapEnd := 0x800000 + pageCount * 0x1000 % 2 ^ 64
    lastHdr := 0x800000
    pages := () }

theorem bootHeap_run (mem : Memory) {pageCount : Nat} (onePage : 1 ≤ pageCount)
    (noWrap : 0x800000 + pageCount * 0x1000 < 2 ^ 64) :
    HeapRun mapAny { heap := bootHeap mem pageCount, live := [] } := by
  have boot : initHeap mapAny { emptyHeap with mem := mem } 0x800000 pageCount =
      .ok (bootHeap mem pageCount) := by
    rw [initHeap, mapPages_mapAny]
    rfl
  exact .init (by decide) (by decide) onePage noWrap boot

theorem bootHeap_outside (mem : Memory) (pageCount : Nat) {address : Nat}
    (outside : address < 0x800000 ∨ 0x80001d ≤ address) :
    (bootHeap mem pageCount).mem address = mem address := by
  simp only [bootHeap]
  rw [setFree_outside _ _ _ outside, setLast_outside _ _ _ outside, setNext_outside _ _ _ outside,
    setLength_outside _ _ _ outside]

section

variable {heap : Heap Unit} {limit : Nat} (start : heap.heapStart = 0x800000)
  (same : ∀ address < 0x800000, heap.mem address = logMem address)

include start same

/-- A string of the table, in a heap that leaves it alone. -/
theorem table_string {ptr : Nat} {chars : List UInt8}
    (below : 0x1000 ≤ ptr ∧ ptr + chars.length < 0x800000) (string : StringAt logMem ptr chars) :
    ProtectedString (Held [] heap.heapStart limit) heap.mem ptr chars := by
  refine ⟨stringAt_congr (fun other _ upper => same other (by omega)) string, ?_⟩
  intro index less
  exact .inr ⟨by omega, .inl (by omega)⟩

theorem table_strings {str : Nat} {message : List UInt8}
    (string : ProtectedString (Held [] heap.heapStart limit) heap.mem str message) :
    List.Forall₂ (ProtectedString (Held [] heap.heapStart limit) heap.mem)
      (serialLogger.entries logLiteral (logLiteral Logger.infoTag) str)
      (Logger.contents .info (text "n") (text "t") message) := by
  have entry {ptr : Nat} {chars : List UInt8} (below : 0x1000 ≤ ptr ∧ ptr + chars.length < 0x800000)
      (string : StringAt logMem ptr chars) := @table_string heap limit start same ptr chars below string
  refine .cons (entry ?_ ?_) (.cons (entry ?_ ?_) (.cons (entry ?_ ?_) (.cons (entry ?_ ?_)
    (.cons (entry ?_ ?_) (.cons string (.cons (entry ?_ ?_) .nil))))))
  all_goals decide +kernel

end

/-- The end of the heap after a message of one letter. -/
def letterLog : Except Fault Nat := do
  let (state, _) ← serialLogger.log mapAny logLiteral 40 .info 0x201c [] ⟨bootHeap logMem 1, []⟩
    freshConsole
  return state.heap.heapEnd

section

variable {σ : Type} {mapPage : σ → Nat → Except Fault σ} {literal : String → Nat} {fuel : Nat}
  {base : List Block} {limit : Nat} {heap : Heap σ} {builder : Builder}
  {texts : List (List UInt8)} {system : HeapSystem σ}

/-! The builder of a message. -/

theorem append_end (state : Traced σ) (this ptr : Nat) :
    (append literal state this ptr).heap.heapEnd = state.heap.heapEnd := by
  simp only [append]
  split <;> rfl

theorem foldl_append_end (ptrs : List Nat) (state : Traced σ) (this : Nat) :
    (ptrs.foldl (fun state ptr => append literal state this ptr) state).heap.heapEnd =
      state.heap.heapEnd := by
  induction ptrs generalizing state with
  | nil => rfl
  | cons ptr rest ih => rw [List.foldl_cons, ih, append_end]

theorem foldl_append_spec {ptrs : List Nat} (trace : List BuilderEvent)
    (inv : BuilderInv base limit heap builder) (words : ∀ ptr ∈ ptrs, ptr < 2 ^ 64)
    (room : builder.entries.length + ptrs.length ≤ builder.nParts) :
    ∃ heap' trace', ptrs.foldl (fun state ptr => append literal state builder.this ptr)
        ⟨heap, trace⟩ = ⟨heap', trace'⟩ ∧
      BuilderInv base limit heap' { builder with entries := builder.entries ++ ptrs } ∧
      Evolves base (Spared base heap.heapStart limit builder.this)
        { heap := heap, live := builder.live base } { heap := heap', live := builder.live base } := by
  induction ptrs generalizing heap trace builder with
  | nil => exact ⟨heap, trace, rfl, by simpa using inv, .refl _ _ _⟩
  | cons ptr rest ih =>
      rw [List.length_cons] at room
      have more : builder.entries.length < builder.nParts := by omega
      obtain ⟨heap1, first, inv1, evolves1⟩ :=
        append_room trace inv more (literal "FastStringBuilder OutOfBounds") (words ptr (by simp))
      have appended : builder.append (literal "FastStringBuilder OutOfBounds") ptr =
          { builder with entries := builder.entries ++ [ptr] } := if_pos more
      rw [appended] at inv1
      have start : heap1.heapStart = heap.heapStart := evolves1.heapStart
      obtain ⟨heap2, trace2, others, inv2, evolves2⟩ := ih (trace ++ [.store builder.slot]) inv1
        (fun other member => words other (by simp [member]))
        (by simp only [List.length_append, List.length_singleton]; omega)
      simp only [List.append_assoc, List.singleton_append, start] at inv2 evolves2
      refine ⟨heap2, trace2, ?_, inv2, evolves1.trans evolves2⟩
      rw [List.foldl_cons, first]
      exact others

/-- What others hold lies outside of an object that was created with `new`. -/
theorem FastStringBuilder.BuilderInv.held_spared
    (inv : BuilderInv (objectBlock builder.this :: base) limit heap builder)
    {address : Nat} (held : Held base heap.heapStart limit address) :
    Spared (objectBlock builder.this :: base) heap.heapStart limit builder.this address := by
  refine ⟨held.mono fun _ => List.mem_cons_of_mem _, ?_⟩
  obtain ⟨segments, system⟩ := inv.system
  have distinct := system.distinct
  simp only [Builder.live, List.map_append, List.map_cons] at distinct
  have own := (List.nodup_cons.mp (List.nodup_append.mp distinct).2.1).2
  have apart := system.held_apart inv.below (BuilderInv.baseLive List.mem_cons_self)
    (fun other member => ⟨BuilderInv.baseLive (List.mem_cons_of_mem _ member), fun same =>
      (List.nodup_cons.mp own).1 (List.mem_map.mpr ⟨other, member, same⟩)⟩) held
  by_contra inside
  have contains := objectBlock_contains builder.this (show address - builder.this < 32 by omega)
  rw [show builder.this + (address - builder.this) = address by omega] at contains
  exact apart contains

theorem assemble_ok {logger : Logger} {tpStr str this : Nat} {state state' : Traced σ}
    (call : logger.assemble mapPage literal fuel tpStr str state = .ok (this, state')) :
    ∃ fresh, new mapPage fuel state 7 = .ok (this, fresh) ∧
      (logger.entries literal tpStr str).foldl (fun state ptr => append literal state this ptr)
        fresh = state' := by
  obtain ⟨⟨this', fresh⟩, made, result⟩ := Fault.peel call
  rw [Except.ok.injEq, Prod.mk.injEq] at result
  obtain ⟨rfl, result⟩ := result
  refine ⟨fresh, made, ?_⟩
  simp only [Logger.entries, List.foldl_cons, List.foldl_nil]
  exact result

theorem assemble_end_le {logger : Logger} {tpStr str this : Nat} {state state' : Traced σ}
    (call : logger.assemble mapPage literal fuel tpStr str state = .ok (this, state')) :
    state.heap.heapEnd ≤ state'.heap.heapEnd := by
  obtain ⟨fresh, made, rfl⟩ := assemble_ok call
  rw [foldl_append_end]
  exact new_end_le made

theorem assemble_spec {logger : Logger} {tpStr str this : Nat} {segments : List Segment}
    {trace : List BuilderEvent} {state : Traced σ}
    (inv : SystemInv { heap := heap, live := base } segments) (noWrap : limit < 2 ^ 64)
    (words : ∀ ptr ∈ logger.entries literal tpStr str, ptr < 2 ^ 64)
    (strings : List.Forall₂ (ProtectedString (Held base heap.heapStart limit) heap.mem)
      (logger.entries literal tpStr str) texts)
    (call : logger.assemble mapPage literal fuel tpStr str ⟨heap, trace⟩ = .ok (this, state))
    (below : state.heap.heapEnd ≤ limit) :
    ∃ builder : Builder, builder.this = this ∧ builder.entries.length = builder.nParts ∧
      builder.output = none ∧
      BuilderInv (objectBlock builder.this :: base) limit state.heap builder ∧
      Texts (objectBlock builder.this :: base) limit state.heap builder texts ∧
      Evolves base (Held base heap.heapStart limit) { heap := heap, live := base }
        { heap := state.heap, live := builder.live (objectBlock builder.this :: base) } := by
  obtain ⟨fresh, made, result⟩ := assemble_ok call
  have kept : state.heap.heapEnd = fresh.heap.heapEnd := by rw [← result, foldl_append_end]
  obtain ⟨heap1, trace1⟩ := fresh
  obtain ⟨_, ptr, inv1, evolves1, _⟩ := new_spec inv noWrap (by decide) (by decide) made
    (by simp only at kept ⊢; omega)
  obtain ⟨heap2, trace2, filled, inv2, evolves2⟩ :=
    foldl_append_spec trace1 inv1 words (by simp [Logger.entries])
  simp only at filled
  rw [filled] at result
  have start : heap1.heapStart = heap.heapStart := evolves1.heapStart
  have start2 : heap2.heapStart = heap1.heapStart := evolves2.heapStart
  have spared : ∀ address, Held base heap.heapStart limit address →
      Spared (objectBlock this :: base) heap1.heapStart limit this address :=
    fun address held => @BuilderInv.held_spared σ base limit heap1 ⟨this, 7, ptr, [], none⟩ inv1
      address (by rwa [start])
  have evolves := evolves1.trans (evolves2.mono (fun _ => List.mem_cons_of_mem _) spared)
  rw [← result]
  refine ⟨⟨this, 7, ptr, logger.entries literal tpStr str, none⟩, rfl, rfl, rfl, inv2, ?_, evolves⟩
  unfold Texts
  rw [start2]
  refine strings.imp fun _ _ string => ?_
  obtain ⟨held, safe⟩ := string.congr evolves.bytes
  exact ⟨held, fun index less => spared _ (safe index less)⟩

/-! The call as a whole. -/

theorem sizeLoop_end {rounds this i fullSize size : Nat} {state state' : Traced σ}
    (run : sizeLoop fuel rounds state this i fullSize = .ok (size, state')) :
    state'.heap = state.heap := by
  induction rounds generalizing state i fullSize with
  | zero => simp [sizeLoop] at run
  | succ rounds ih =>
      rw [sizeLoop] at run
      split at run
      · obtain ⟨len, _, again⟩ := Fault.peel run
        exact (ih again).trans rfl
      · simp only [Except.ok.injEq, Prod.mk.injEq] at run
        rw [run.2]

theorem build_end_le {this result : Nat} {state state' : Traced σ}
    (run : build mapPage literal fuel state this = .ok (result, state')) :
    state.heap.heapEnd ≤ state'.heap.heapEnd := by
  obtain ⟨⟨size, sized⟩, counted, run⟩ := Fault.peel run
  have same := sizeLoop_end counted
  obtain ⟨⟨ptr, fresh⟩, called, rest⟩ := Fault.peel run
  have grown := malloc_end_le (traced_malloc called).1
  have freed : (if outputBuf sized.heap.mem this ≠ 0 then
      sized.free (outputBuf sized.heap.mem this) else sized).heap.heapEnd = state.heap.heapEnd := by
    rw [← same]
    split
    · simp only [Traced.free]
      rw [(free_bounds _ _).heapEnd]
    · rfl
  have kept := @writeOut_end σ literal fuel fresh.heap fresh.trace this ptr size result state' rest
  rw [← freed, ← kept]
  exact grown

theorem internalLog_ok {logger : Logger} {tpStr str : Nat} {args : List UInt64}
    {state state' : Traced σ} {console console' : Console} (prints : logger.target ≠ .none)
    (run : logger.internalLog mapPage literal fuel tpStr str args state console =
      .ok (state', console')) :
    ∃ this filled ptr built,
      logger.assemble mapPage literal fuel tpStr str state = .ok (this, filled) ∧
      build mapPage literal fuel filled this = .ok (ptr, built) ∧ state' = delete built this := by
  obtain ⟨⟨this, filled⟩, assembled, run⟩ := Fault.peel run
  simp only at run
  cases target : logger.target with
  | none => exact absurd target prints
  | _ =>
      simp only [target] at run
      obtain ⟨⟨ptr, built⟩, called, run⟩ := Fault.peel run
      obtain ⟨_, _, result⟩ := Fault.peel run
      simp only [Except.ok.injEq, Prod.mk.injEq] at result
      exact ⟨this, filled, ptr, built, assembled, called, result.1.symm⟩

theorem log_serial {logger : Logger} {level : Logger.Level} {str this ptr : Nat}
    {args rest : List UInt64} {state filled built : Traced σ} {console console' : Console}
    (target : logger.target = .serial)
    (assembled : logger.assemble mapPage literal fuel (literal level.tag) str state =
      .ok (this, filled))
    (called : build mapPage literal fuel filled this = .ok (ptr, built))
    (printed : kprintfAt fuel built.heap.mem ptr args console true false = .ok (rest, console')) :
    logger.log mapPage literal fuel level str args state console =
      .ok (delete built this, console') := by
  have call : logger.internalLog mapPage literal fuel (literal level.tag) str args state console =
      .ok (delete built this, console') := by
    rw [Logger.internalLog, assembled]
    simp only [Bind.bind, Except.bind, target, called, vakprintfSerial, printed]
  cases level <;> exact call

/-! What is left behind. -/

/-- The live blocks are those of `system`, `getUsedMem` is what it was, and unless the heap has
grown so is the chain. -/
structure Unleaked (system : HeapSystem σ) (heap' : Heap σ) : Prop where
  live : ∃ segments, SystemInv { heap := heap', live := system.live } segments
  allocated : ∃ chain chain', ChainFrom system.heap.mem system.heap.heapStart chain ∧
    ChainFrom heap'.mem heap'.heapStart chain' ∧ ∀ segment : Segment, segment.free = false →
      (segment ∈ chain'.map ChainNode.segment ↔ segment ∈ chain.map ChainNode.segment)
  used : ∃ used, UsedMem system.heap used ∧ UsedMem heap' used
  chain : heap'.heapEnd = system.heap.heapEnd → ∃ chain,
    ChainFrom system.heap.mem system.heap.heapStart chain ∧
      ChainFrom heap'.mem heap'.heapStart chain

theorem Evolves.unleaked {Spared : Nat → Prop} {segments : List Segment} {heap' : Heap σ}
    (inv : SystemInv system segments)
    (evolves : Evolves system.live Spared system { heap := heap', live := system.live }) :
    Unleaked system heap' := by
  obtain ⟨segments', inv', owners⟩ := evolves.owners segments inv
  have same : ∀ segment : Segment, segment.free = false →
      (segment ∈ segments' ↔ segment ∈ segments) := by
    intro segment used
    constructor
    · intro member
      obtain ⟨block, live, place⟩ := inv'.covered segment member used
      exact (owners segment ⟨used, block, live, place⟩).mp member
    · intro member
      obtain ⟨block, live, place⟩ := inv.covered segment member used
      exact (owners segment ⟨used, block, live, place⟩).mpr member
  refine ⟨⟨segments', inv'⟩, ⟨_, _, inv.inv.chainFrom, inv'.inv.chainFrom, ?_⟩,
    ⟨_, inv.inv.usedMem, ?_⟩, fun ends => ?_⟩
  · rw [chainOf_segments, chainOf_segments]
    exact same
  · rw [← usedBytes_eq (by decide) inv'.inv.tiles inv.inv.tiles same]
    exact inv'.inv.usedMem
  · have tiles := inv'.inv.tiles
    have start := evolves.heapStart
    simp only at tiles start
    rw [ends, start] at tiles
    have equal := tiles_unique (by decide) tiles inv.inv.tiles inv'.inv.noFreePair
      inv.inv.noFreePair same
    have reached := inv'.inv.chainFrom
    rw [equal] at reached
    exact ⟨_, inv.inv.chainFrom, reached⟩

theorem Logger.contents_noWrap (level : Level) {nspace tag message : List UInt8}
    (lengths : NoWrap [nspace, tag, message]) :
    NoWrap (Logger.contents level nspace tag message) := by
  have short {chars : List UInt8} (less : chars.length < 2 ^ 32 - 1) :
      chars.length % 2 ^ 32 ≠ 2 ^ 32 - 1 := by
    rw [Nat.mod_eq_of_lt (by omega)]
    omega
  intro chars member
  simp only [Logger.contents, List.mem_cons, List.not_mem_nil, or_false] at member
  rcases member with rfl | rfl | rfl | rfl | rfl | rfl | rfl
  · exact short (by decide)
  · exact lengths _ (by simp)
  · exact short (by decide)
  · exact lengths _ (by simp)
  · cases level <;> exact short (by decide)
  · exact lengths _ (by simp)
  · exact short (by decide)

/-- In every state of a run, a log call that prints and returns leaves the heap as it was, if
the length of no string of its message is `2 ^ 32 - 1` modulo `2 ^ 32`. -/
theorem log_unleaked {logger : Logger} {level : Logger.Level} {str : Nat} {args : List UInt64}
    {nspace tag message : List UInt8} {trace : List BuilderEvent} {state' : Traced σ}
    {console console' : Console} (run : HeapRun mapPage system) (prints : logger.target ≠ .none)
    (noWrap : limit < 2 ^ 64)
    (words : ∀ ptr ∈ logger.entries literal (literal level.tag) str, ptr < 2 ^ 64)
    (strings : List.Forall₂
      (ProtectedString (Held system.live system.heap.heapStart limit) system.heap.mem)
      (logger.entries literal (literal level.tag) str)
      (Logger.contents level nspace tag message))
    (lengths : NoWrap [nspace, tag, message])
    (returned : logger.log mapPage literal fuel level str args ⟨system.heap, trace⟩ console =
      .ok (state', console'))
    (below : state'.heap.heapEnd ≤ limit) : Unleaked system state'.heap := by
  have call : logger.internalLog mapPage literal fuel (literal level.tag) str args
      ⟨system.heap, trace⟩ console = .ok (state', console') := by
    cases level <;> exact returned
  obtain ⟨this, filled, ptr, built, assembled, called, rfl⟩ := internalLog_ok prints call
  have ends := delete_end built this
  have filledEnd := assemble_end_le assembled
  have builtEnd := build_end_le called
  simp only at filledEnd
  obtain ⟨segments, inv⟩ := run.inv (by omega)
  obtain ⟨heap, base⟩ := system
  obtain ⟨builder, rfl, full, _, builderInv, texts, evolves1⟩ :=
    assemble_spec inv noWrap words strings assembled (by omega)
  have parts := Logger.contents_noWrap level lengths
  obtain ⟨filledHeap, filledTrace⟩ := filled
  obtain ⟨builtHeap, builtTrace⟩ := built
  obtain ⟨fresh, _, isBuilt, _⟩ := build_ok builderInv full texts parts called (by omega)
  obtain ⟨heap', deleted, _, _, evolves3⟩ := @delete_spec σ base limit builtHeap
    { builder with output := some ⟨ptr, fullSize (Logger.contents level nspace tag message)⟩ }
    ⟨ptr, fullSize (Logger.contents level nspace tag message)⟩ isBuilt.inv rfl builtTrace
  simp only at deleted
  rw [deleted]
  have start1 : filledHeap.heapStart = heap.heapStart := evolves1.heapStart
  have start2 : builtHeap.heapStart = filledHeap.heapStart := isBuilt.evolves.heapStart
  have evolves2 := isBuilt.evolves.mono (fun block (member : block ∈ base) =>
    List.mem_cons_of_mem _ member) fun address (held : Held base heap.heapStart limit address) =>
      builderInv.held_spared (by rwa [start1])
  rw [start2, start1] at evolves3
  exact Evolves.unleaked inv ((evolves1.trans evolves2).trans evolves3)

end

theorem log_unleaked_letter :
    ∃ state' console', serialLogger.log mapAny logLiteral 40 .info 0x201c []
        ⟨bootHeap logMem 1, []⟩ freshConsole = .ok (state', console') ∧
      Unleaked ⟨bootHeap logMem 1, []⟩ state'.heap := by
  have evaluated : letterLog = .ok 0x801000 := by decide +kernel
  obtain ⟨⟨state', console'⟩, returned, ends⟩ := Fault.peel evaluated
  simp only [Pure.pure, Except.pure, Except.ok.injEq] at ends
  have below : ∀ address < 0x800000, (bootHeap logMem 1).mem address = logMem address :=
    fun address less => bootHeap_outside _ _ (.inl less)
  have letter : ProtectedString (Held [] (bootHeap logMem 1).heapStart 0x801000)
      (bootHeap logMem 1).mem 0x201c (text "m") :=
    table_string rfl below (by decide) (by decide +kernel)
  refine ⟨state', console', returned, ?_⟩
  exact log_unleaked (bootHeap_run _ (by decide) (by decide)) (by decide)
    (show 0x801000 < 2 ^ 64 by decide) (by decide +kernel) (table_strings rfl below letter)
    (by unfold NoWrap; decide) returned (by omega)

/-! Printing. -/

theorem charsLoop_eq {mem : Memory} {str : Nat} {chars : List UInt8}
    (string : StringAt mem str chars) {fuel : Nat} (enough : chars.length < fuel) :
    charsLoop fuel mem str = .ok chars := by
  induction chars generalizing str fuel with
  | nil =>
      obtain ⟨fuel, rfl⟩ : ∃ less, fuel = less + 1 := ⟨fuel - 1, by omega⟩
      rw [charsLoop, if_pos (stringAt_nil.mp string)]
  | cons byte rest ih =>
      obtain ⟨fuel, rfl⟩ : ∃ less, fuel = less + 1 := ⟨fuel - 1, by omega⟩
      obtain ⟨nonzero, first, tail⟩ := stringAt_cons.mp string
      rw [List.length_cons] at enough
      rw [charsLoop, first, if_neg nonzero, ih tail (by omega)]
      rfl

/-- A format without a specifier is printed to its end. -/
theorem kprintfLoop_returns {stringAt : UInt64 → CString} {fuel : Nat} {chars : List UInt8}
    (plain : ∀ c ∈ chars, c ≠ '%'.toUInt8 ∧ c ≠ 0) (serial terminal : Bool) (args : List UInt64)
    (console : Console) :
    ∃ after, kprintfLoop writechar stringAt fuel serial terminal chars false args console =
      .ok (args, after) := by
  induction chars generalizing console with
  | nil => exact ⟨console, rfl⟩
  | cons c rest ih =>
      obtain ⟨notPercent, nonzero⟩ := plain c (by simp)
      obtain ⟨between, printed⟩ := @kprintfLoop_letter stringAt fuel c notPercent nonzero serial
        terminal args console
      obtain ⟨after, later⟩ := ih (fun other member => plain other (by simp [member])) between
      refine ⟨after, ?_⟩
      rw [← List.singleton_append, kprintfLoop_append, printed]
      simp only [flagAfter, notPercent, decide_false]
      exact later

theorem kprintfAt_returns {mem : Memory} {str fuel : Nat} {chars : List UInt8}
    (string : StringAt mem str chars) (enough : chars.length < fuel)
    (noPercent : '%'.toUInt8 ∉ chars) (serial terminal : Bool) (args : List UInt64)
    (console : Console) :
    ∃ result, kprintfAt fuel mem str args console serial terminal = .ok result := by
  have plain : ∀ c ∈ chars, c ≠ '%'.toUInt8 ∧ c ≠ 0 := fun c member =>
    ⟨fun percent => noPercent (percent ▸ member), fun zero => string.noNul (zero ▸ member)⟩
  have whole : (CString.ofBuffer chars).chars = chars :=
    List.takeWhile_eq_self_iff.mpr fun c member => by simpa using (plain c member).2
  obtain ⟨after, printed⟩ := @kprintfLoop_returns (stringFrom fuel mem) fuel chars plain serial
    terminal args console
  refine ⟨(args, after), ?_⟩
  rw [kprintfAt, charsLoop_eq string enough]
  change kprintfLoop writechar _ fuel serial terminal (CString.ofBuffer chars).chars false args
    console = _
  rw [whole, printed]

/-! A heap of `2 ^ 21` pages and a message of `2 ^ 32 - 1` characters, above the heap. -/

/-- A message of which the eight bytes from 23 on are the address `0xffff800101010101`. -/
def messageByte (index : Nat) : UInt8 :=
  if 23 ≤ index ∧ index < 28 then 1
  else if index = 28 then 0x80
  else if index = 29 ∨ index = 30 then 0xff
  else 'x'.toUInt8

def hugeMessage (count : Nat) : List UInt8 := (List.range count).map messageByte

theorem messageByte_plain (index : Nat) :
    messageByte index ≠ 0 ∧ messageByte index ≠ '%'.toUInt8 := by
  unfold messageByte
  split
  · decide
  split
  · decide
  split
  · decide
  · decide

theorem writeBytes_message {count : Nat} (countEq : count = 2 ^ 32 - 1) (mem : Memory)
    (address : Nat) :
    writeBytes mem address (hugeMessage count) =
      pasted mem address (2 ^ 32 - 1) messageByte := by
  have same : writeBytes mem address (hugeMessage count) =
      pasted mem address (hugeMessage count).length messageByte :=
    writeBytes_eq_pasted fun index bound => by simp [hugeMessage]
  rw [same, show (hugeMessage count).length = count by simp [hugeMessage], countEq]

def hugeHeap : Heap Unit := bootHeap (pasted logMem (2 ^ 40) (2 ^ 32 - 1) messageByte) (2 ^ 21)

theorem hugeMessage_string {count : Nat} (countEq : count = 2 ^ 32 - 1) :
    StringAt hugeHeap.mem (2 ^ 40) (hugeMessage count) := by
  have length : (hugeMessage count).length = count := by simp [hugeMessage]
  have outside : ∀ address, 2 ^ 40 ≤ address → hugeHeap.mem address =
      writeBytes logMem (2 ^ 40) (hugeMessage count) address := by
    intro address lower
    rw [writeBytes_message countEq]
    exact bootHeap_outside _ _ (by omega)
  refine ⟨bytesAt_congr (fun other lower _ => outside other lower) bytesAt_writeBytes, ?_, ?_⟩
  · have short : logTable.length ≤ 0x1000 := by decide
    rw [outside _ (by omega), writeBytes_outside (by omega), logMem, if_neg (by omega)]
    rw [List.getD_eq_getElem?_getD, List.getElem?_eq_none (by omega)]
    rfl
  · intro member
    obtain ⟨index, _, zero⟩ := List.mem_map.mp member
    exact (messageByte_plain index).1 zero

/-- The memory after `build`: the message lies over the header behind the block. -/
def overrunMem (mem : Memory) (this ptr : Nat) : Memory :=
  setOutputBufSize (writeBytes (pasted (writeBytes (setOutputBuf mem this ptr) ptr
    (text "$c8[" ++ text "n" ++ text "/" ++ text "t" ++ text Logger.infoTag))
    (ptr + 21) (2 ^ 32 - 1) messageByte) (ptr + 21 + (2 ^ 32 - 1)) (text "\n")) this 28

def overrunHeap (heap : Heap Unit) (this ptr : Nat) : Heap Unit :=
  { heap with mem := overrunMem heap.mem this ptr }

def overrunLog : Except Fault (List Nat) := do
  let (this, state) ← serialLogger.assemble mapAny logLiteral (2 ^ 33) (logLiteral Logger.infoTag)
    (2 ^ 40) ⟨hugeHeap, []⟩
  let (ptr, fresh) ← malloc mapAny (2 ^ 33) state.heap 28
  return [this, parts state.heap.mem this, ptr, state.heap.heapEnd, fresh.heapEnd,
    (overrunMem fresh.mem this ptr (ptr + 21 + (2 ^ 32 - 1) + 1)).toNat,
    (delete ⟨overrunHeap fresh this ptr, []⟩ this).heap.heapStart,
    next (delete ⟨overrunHeap fresh this ptr, []⟩ this).heap.mem 0x800000]

theorem delete_heap (heap : Heap Unit) (trace : List BuilderEvent) (this : Nat) :
    (delete ⟨heap, trace⟩ this).heap = (delete ⟨heap, []⟩ this).heap := by
  unfold delete
  split
  · rfl
  · rfl

theorem overrun_small {count : Nat} (countEq : count = 2 ^ 32 - 1) :
    ∀ chars ∈ Logger.contents .info (text "n") (text "t") (hugeMessage count),
      chars.length < 2 ^ 32 := by
  have length : (hugeMessage count).length = count := by simp [hugeMessage]
  intro chars member
  simp only [Logger.contents, List.mem_cons, List.not_mem_nil, or_false] at member
  rcases member with rfl | rfl | rfl | rfl | rfl | rfl | rfl
  case inr.inr.inr.inr.inr.inl => omega
  all_goals decide

theorem overrun_joined {count : Nat} (countEq : count = 2 ^ 32 - 1) :
    FastStringBuilder.joined (Logger.contents .info (text "n") (text "t") (hugeMessage count)) =
      text "$c8[" ++ text "n" ++ text "/" ++ text "t" ++ text Logger.infoTag ++
        hugeMessage count ++ text "\n" := by
  rw [joined_whole (overrun_small countEq)]
  simp [Logger.contents, Logger.Level.tag]

theorem overrun_length {count : Nat} (countEq : count = 2 ^ 32 - 1) :
    (FastStringBuilder.joined
      (Logger.contents .info (text "n") (text "t") (hugeMessage count))).length =
        21 + (2 ^ 32 - 1) + 1 := by
  have front : (text "$c8[" ++ text "n" ++ text "/" ++ text "t" ++ text Logger.infoTag).length =
      21 := by decide
  have back : (text "\n").length = 1 := by decide
  rw [overrun_joined countEq, List.length_append, List.length_append, front, back,
    show (hugeMessage count).length = count by simp [hugeMessage], countEq]

theorem overrunMem_eq {count : Nat} (countEq : count = 2 ^ 32 - 1) (mem : Memory) (this ptr : Nat) :
    outMem mem this ptr 28 (Logger.contents .info (text "n") (text "t") (hugeMessage count)) =
      overrunMem mem this ptr := by
  have length : (hugeMessage count).length = count := by simp [hugeMessage]
  have front : (text "$c8[" ++ text "n" ++ text "/" ++ text "t" ++ text Logger.infoTag).length =
      21 := by decide
  have whole : (text "$c8[" ++ text "n" ++ text "/" ++ text "t" ++ text Logger.infoTag ++
      hugeMessage count).length = 21 + (2 ^ 32 - 1) := by
    rw [List.length_append, front, length, countEq]
  rw [outMem, overrun_joined countEq, writeBytes_append, writeBytes_append, front, whole,
    ← Nat.add_assoc, writeBytes_message countEq, overrunMem]

theorem overrun_fullSize {count : Nat} (countEq : count = 2 ^ 32 - 1) :
    fullSize (Logger.contents .info (text "n") (text "t") (hugeMessage count)) = 28 := by
  have length : (hugeMessage count).length = count := by simp [hugeMessage]
  have wrapped : partSize (hugeMessage count) = 0 := by
    rw [partSize, length, countEq]
    decide
  simp only [fullSize, Logger.contents, List.map_cons, List.map_nil, List.sum_cons, List.sum_nil,
    wrapped]
  decide

theorem overrun_plain {count : Nat} (countEq : count = 2 ^ 32 - 1) :
    ∀ c ∈ FastStringBuilder.joined
      (Logger.contents .info (text "n") (text "t") (hugeMessage count)), c ≠ 0 ∧ c ≠ '%'.toUInt8 := by
  have front : ∀ c ∈ text "$c8[" ++ text "n" ++ text "/" ++ text "t" ++ text Logger.infoTag,
      c ≠ 0 ∧ c ≠ '%'.toUInt8 := by decide +kernel
  have back : ∀ c ∈ text "\n", c ≠ 0 ∧ c ≠ '%'.toUInt8 := by decide +kernel
  intro c member
  rw [overrun_joined countEq, List.mem_append, List.mem_append] at member
  rcases member with (inFront | inMessage) | inBack
  · exact front c inFront
  · obtain ⟨index, _, rfl⟩ := List.mem_map.mp inMessage
    exact messageByte_plain index
  · exact back c inBack

theorem overrun_strings {count : Nat} (countEq : count = 2 ^ 32 - 1) :
    List.Forall₂ (ProtectedString (Held [] hugeHeap.heapStart (0x800000 + 2 ^ 33)) hugeHeap.mem)
      (serialLogger.entries logLiteral (logLiteral Logger.infoTag) (2 ^ 40))
      (Logger.contents .info (text "n") (text "t") (hugeMessage count)) := by
  refine table_strings rfl (fun address below => ?_) ⟨hugeMessage_string countEq, ?_⟩
  · refine (bootHeap_outside _ _ (.inl below)).trans ?_
    rw [pasted, if_neg (by omega)]
  · intro index less
    exact .inr ⟨by omega, .inr (by omega)⟩

/-- `build` copies the message over the headers that follow its block. -/
theorem overrun_builds {limit : Nat} {heap fresh : Heap Unit} {builder : Builder}
    {contents : List (List UInt8)} {ptr : Nat}
    (inv : BuilderInv [objectBlock builder.this] limit heap builder)
    (full : builder.entries.length = builder.nParts) (unbuilt : builder.output = none)
    (strings : Texts [objectBlock builder.this] limit heap builder contents)
    (seven : contents.length = 7) (small : ∀ chars ∈ contents, chars.length < 2 ^ 32)
    (size : fullSize contents = 28)
    (length : (FastStringBuilder.joined contents).length = 21 + (2 ^ 32 - 1) + 1)
    (called : malloc mapAny (2 ^ 33) heap 28 = .ok (ptr, fresh)) (below : fresh.heapEnd ≤ limit)
    (objectBelow : builder.this + 32 ≤ ptr) (partsBelow : builder.parts + 64 ≤ ptr)
    (start : heap.heapStart ≤ ptr) (wide : ptr + 2 ^ 32 + 21 ≤ limit)
    (trace : List BuilderEvent) :
    ∃ trace', build mapAny logLiteral (2 ^ 33) ⟨heap, trace⟩ builder.this =
      .ok (ptr, ⟨{ fresh with mem := outMem fresh.mem builder.this ptr 28 contents }, trace'⟩) := by
  have same : released heap builder = heap := by rw [released, unbuilt]
  have lengths : builder.nParts = 7 := by rw [← full, strings.length_eq, seven]
  rw [← same, ← size] at called
  have built := build_clear logLiteral inv full strings (by omega) called below ?_ (by omega)
    ⟨by omega, fun chars member => (small chars member).trans (by decide)⟩ trace
  · rw [size] at built
    exact ⟨_, built⟩
  · have rounded : roundUp (8 * 7) 0x10 = 64 ∧ roundUp sizeofFastStringBuilder 0x10 = 32 := by
      decide
    rintro address (⟨block, member, _, upper⟩ | outside)
    · rcases List.mem_cons.mp member with rfl | member
      · simp only [Builder.partsBlock, lengths, rounded.1] at upper
        omega
      · rw [List.mem_singleton.mp member] at upper
        simp only [objectBlock, rounded.2] at upper
        omega
    · have place := outside.2
      omega

/-- The whole call returns, and the first header of the heap links to an address from the
message. -/
theorem overrun_returns {count : Nat} (countEq : count = 2 ^ 32 - 1) :
    ∃ state' console', serialLogger.log mapAny logLiteral (2 ^ 33) .info (2 ^ 40) []
        ⟨hugeHeap, []⟩ freshConsole = .ok (state', console') ∧
      state'.heap.heapEnd = hugeHeap.heapEnd ∧ state'.heap.heapStart = 0x800000 ∧
      next state'.heap.mem 0x800000 = 0xffff800101010101 := by
  have evaluated : overrunLog = .ok [0x80001d, 0x80005a, 0x8000b7, 0x800000 + 2 ^ 33,
      0x800000 + 2 ^ 33, 0, 0x800000, 0xffff800101010101] := by decide +kernel
  obtain ⟨⟨this, ⟨heap, trace⟩⟩, assembled, evaluated⟩ := Fault.peel evaluated
  obtain ⟨⟨ptr, fresh⟩, called, result⟩ := Fault.peel evaluated
  simp only [Pure.pure, Except.pure, Except.ok.injEq, List.cons.injEq, and_true] at result called
  obtain ⟨thisEq, partsEq, ptrEq, heapEnd, freshEnd, terminator, startEq, nextEq⟩ := result
  obtain ⟨segments, system⟩ := (bootHeap_run (pasted logMem (2 ^ 40) (2 ^ 32 - 1) messageByte)
    (show 1 ≤ 2 ^ 21 by decide) (by decide)).inv (by decide)
  obtain ⟨builder, rfl, full, unbuilt, inv, strings, evolves⟩ := assemble_spec system (by decide)
    (by decide +kernel) (overrun_strings countEq) assembled (by simp only; omega)
  have start : heap.heapStart = 0x800000 := evolves.heapStart
  have partsAt : builder.parts = 0x80005a := inv.reads.2.2.1.symm.trans partsEq
  have length := overrun_length countEq
  have plain := overrun_plain countEq
  have copy := overrunMem_eq countEq fresh.mem builder.this ptr
  obtain ⟨built, called⟩ := overrun_builds inv full unbuilt strings rfl (overrun_small countEq)
    (overrun_fullSize countEq) length called (by omega) (by omega) (by omega) (by simp only; omega)
    (by omega) trace
  rw [copy] at called
  have string : StringAt (overrunMem fresh.mem builder.this ptr) ptr
      (FastStringBuilder.joined
        (Logger.contents .info (text "n") (text "t") (hugeMessage count))) := by
    refine ⟨?_, ?_, fun member => (plain 0 member).1 rfl⟩
    · rw [← copy]
      exact bytesAt_congr (fun address lower upper =>
        setOutputBufSize_outside _ (by omega)) bytesAt_writeBytes
    · rw [length, ← Nat.add_assoc, ← Nat.add_assoc]
      exact UInt8.toNat.inj terminator
  obtain ⟨⟨rest, console⟩, printed⟩ := kprintfAt_returns string (show _ < 2 ^ 33 by omega)
    (fun member => (plain _ member).2 rfl) true false [] freshConsole
  refine ⟨_, console, log_serial rfl assembled called printed, ?_, ?_, ?_⟩
  · rw [delete_end]
    exact freshEnd
  · rw [delete_heap]
    exact startEq
  · rw [delete_heap]
    exact nextEq

/-- The call leaves a heap of which the chain can no longer be followed. -/
theorem log_overruns :
    ∃ message : List UInt8, message.length = 2 ^ 32 - 1 ∧
      HeapRun mapAny ⟨hugeHeap, []⟩ ∧
      List.Forall₂ (ProtectedString (Held [] hugeHeap.heapStart (0x800000 + 2 ^ 33)) hugeHeap.mem)
        (serialLogger.entries logLiteral (logLiteral Logger.infoTag) (2 ^ 40))
        (Logger.contents .info (text "n") (text "t") message) ∧
      ∃ state' console', serialLogger.log mapAny logLiteral (2 ^ 33) .info (2 ^ 40) []
          ⟨hugeHeap, []⟩ freshConsole = .ok (state', console') ∧
        state'.heap.heapEnd ≤ 0x800000 + 2 ^ 33 ∧ ¬ Unleaked ⟨hugeHeap, []⟩ state'.heap := by
  obtain ⟨count, countEq⟩ : ∃ count, count = 2 ^ 32 - 1 := ⟨_, rfl⟩
  obtain ⟨state', console', returned, ends, start, overwritten⟩ := overrun_returns countEq
  refine ⟨hugeMessage count, ?_, bootHeap_run _ (by decide) (by decide), overrun_strings countEq,
    state', console', returned, ?_, ?_⟩
  · rw [← countEq]
    simp [hugeMessage]
  · rw [ends]
    decide
  · intro unleaked
    obtain ⟨chain, before, after⟩ := unleaked.chain ends
    rw [start] at after
    have linked : next hugeHeap.mem 0x800000 = next state'.heap.mem 0x800000 :=
      before.next_eq after (by decide)
    rw [overwritten] at linked
    exact absurd linked (by decide +kernel)

end OkeOS
