import OkeOS.HeapCore
import OkeOS.Tiling

/-!
Segment headers in memory and the chain they form.  `Linked` reads a list of
segments off the `next` and `last` fields, and `HeapChain` adds that the list tiles
the heap and ends in `LastHdr`.
-/

namespace OkeOS

open ByteMemory Tiling
open HeapSegHdr hiding free

/-- The fields of a header that the code reads. -/
structure Header where
  length : Nat
  next : Nat
  last : Nat
  free : Bool
deriving DecidableEq, Repr

def header (mem : Memory) (this : Nat) : Header :=
  { length := length mem this, next := next mem this, last := last mem this,
    free := HeapSegHdr.free mem this }

section

variable {mem : Memory} {this : Nat} {fields : Header} (same : header mem this = fields)

include same

theorem header_length : length mem this = fields.length := by
  rw [← same, header]

theorem header_next : next mem this = fields.next := by
  rw [← same, header]

theorem header_last : last mem this = fields.last := by
  rw [← same, header]

theorem header_free : HeapSegHdr.free mem this = fields.free := by
  rw [← same, header]

end

/-- The 29-byte headers at the two addresses do not overlap. -/
def HeadersApart (first second : Nat) : Prop := first + 29 ≤ second ∨ second + 29 ≤ first

theorem header_congr {first second : Memory} {this : Nat}
    (agree : ∀ address, this ≤ address → address < this + 29 → first address = second address) :
    header first this = header second this := by
  have word (offset : Nat) (inside : offset + 8 ≤ 29) :
      load first (this + offset) 8 = load second (this + offset) 8 :=
    load_congr fun address lower upper => agree address (by omega) (by omega)
  simp only [header, length, next, last, HeapSegHdr.free]
  rw [word 4 (by omega), word 12 (by omega), word 20 (by omega),
    agree (this + 28) (by omega) (by omega)]

section FieldWrites

variable (mem : Memory) (this : Nat)

theorem setLength_outside (value : Nat) {address : Nat}
    (outside : address < this ∨ this + 29 ≤ address) :
    setLength mem this value address = mem address :=
  store_outside _ _ _ _ _ (by omega)

theorem setNext_outside (value : Nat) {address : Nat}
    (outside : address < this ∨ this + 29 ≤ address) :
    setNext mem this value address = mem address :=
  store_outside _ _ _ _ _ (by omega)

theorem setLast_outside (value : Nat) {address : Nat}
    (outside : address < this ∨ this + 29 ≤ address) :
    setLast mem this value address = mem address :=
  store_outside _ _ _ _ _ (by omega)

theorem setFree_outside (value : Bool) {address : Nat}
    (outside : address < this ∨ this + 29 ≤ address) :
    setFree mem this value address = mem address :=
  writeByte_other _ _ (by omega)

@[simp] theorem header_setLength_apart (value : Nat) {other : Nat}
    (apart : HeadersApart other this) :
    header (setLength mem this value) other = header mem other :=
  header_congr fun address lower upper =>
    setLength_outside _ _ _ (by unfold HeadersApart at apart; omega)

@[simp] theorem header_setNext_apart (value : Nat) {other : Nat}
    (apart : HeadersApart other this) :
    header (setNext mem this value) other = header mem other :=
  header_congr fun address lower upper =>
    setNext_outside _ _ _ (by unfold HeadersApart at apart; omega)

@[simp] theorem header_setLast_apart (value : Nat) {other : Nat}
    (apart : HeadersApart other this) :
    header (setLast mem this value) other = header mem other :=
  header_congr fun address lower upper =>
    setLast_outside _ _ _ (by unfold HeadersApart at apart; omega)

@[simp] theorem header_setFree_apart (value : Bool) {other : Nat}
    (apart : HeadersApart other this) :
    header (setFree mem this value) other = header mem other :=
  header_congr fun address lower upper =>
    setFree_outside _ _ _ (by unfold HeadersApart at apart; omega)

@[simp] theorem header_setLength {value : Nat} (bound : value < 2 ^ 64) :
    header (setLength mem this value) this = { header mem this with length := value } := by
  have size : (256 : Nat) ^ 8 = 2 ^ 64 := by norm_num
  simp only [header, length, next, last, HeapSegHdr.free, setLength]
  rw [load_store_same, load_store_apart _ _ _ _ _ _ (by omega),
    load_store_apart _ _ _ _ _ _ (by omega), store_outside _ _ _ _ _ (by omega), size,
    Nat.mod_eq_of_lt bound]

@[simp] theorem header_setNext {value : Nat} (bound : value < 2 ^ 64) :
    header (setNext mem this value) this = { header mem this with next := value } := by
  have size : (256 : Nat) ^ 8 = 2 ^ 64 := by norm_num
  simp only [header, length, next, last, HeapSegHdr.free, setNext]
  rw [load_store_same, load_store_apart _ _ _ _ _ _ (by omega),
    load_store_apart _ _ _ _ _ _ (by omega), store_outside _ _ _ _ _ (by omega), size,
    Nat.mod_eq_of_lt bound]

@[simp] theorem header_setLast {value : Nat} (bound : value < 2 ^ 64) :
    header (setLast mem this value) this = { header mem this with last := value } := by
  have size : (256 : Nat) ^ 8 = 2 ^ 64 := by norm_num
  simp only [header, length, next, last, HeapSegHdr.free, setLast]
  rw [load_store_same, load_store_apart _ _ _ _ _ _ (by omega),
    load_store_apart _ _ _ _ _ _ (by omega), store_outside _ _ _ _ _ (by omega), size,
    Nat.mod_eq_of_lt bound]

@[simp] theorem header_setFree (value : Bool) :
    header (setFree mem this value) this = { header mem this with free := value } := by
  simp only [header, length, next, last, HeapSegHdr.free, setFree]
  rw [load_writeByte_apart _ _ _ _ _ (by omega), load_writeByte_apart _ _ _ _ _ (by omega),
    load_writeByte_apart _ _ _ _ _ (by omega), writeByte_same]
  cases value <;> rfl

end FieldWrites

/-! The chain as a list of segments. -/

def headAddr (stop : Nat) : List Segment → Nat
  | [] => stop
  | segment :: _ => segment.addr

def lastAddr (start : Nat) : List Segment → Nat
  | [] => start
  | segment :: rest => lastAddr segment.addr rest

/-- The headers of `segments` are linked in both directions, from `prev` to `stop`. -/
def Linked (mem : Memory) : Nat → List Segment → Nat → Prop
  | _, [], _ => True
  | prev, segment :: rest, stop =>
      header mem segment.addr =
          { length := segment.length, next := headAddr stop rest, last := prev,
            free := segment.free } ∧
        Linked mem segment.addr rest stop

theorem headAddr_append (stop : Nat) (first second : List Segment) :
    headAddr stop (first ++ second) = headAddr (headAddr stop second) first := by
  cases first <;> rfl

theorem lastAddr_append (start : Nat) (first second : List Segment) :
    lastAddr start (first ++ second) = lastAddr (lastAddr start first) second := by
  induction first generalizing start with
  | nil => rfl
  | cons segment rest ih => exact ih segment.addr

theorem linked_append {mem : Memory} {prev stop : Nat} {first second : List Segment} :
    Linked mem prev (first ++ second) stop ↔
      Linked mem prev first (headAddr stop second) ∧
        Linked mem (lastAddr prev first) second stop := by
  induction first generalizing prev with
  | nil => simp [Linked, lastAddr]
  | cons segment rest ih =>
      simp only [List.cons_append, Linked, lastAddr, headAddr_append, ih, and_assoc]

theorem linked_frame {first second : Memory} {prev stop : Nat} {segments : List Segment}
    (linked : Linked first prev segments stop)
    (same : ∀ segment ∈ segments, header second segment.addr = header first segment.addr) :
    Linked second prev segments stop := by
  induction segments generalizing prev with
  | nil => trivial
  | cons segment rest ih =>
      refine ⟨(same segment (by simp)).trans linked.1, ?_⟩
      exact ih linked.2 fun other member => same other (by simp [member])

/-- What the globals and the header bytes say about the segments of the heap. -/
structure HeapChain {σ : Type} (heap : Heap σ) (segments : List Segment) : Prop where
  linked : Linked heap.mem 0 segments 0
  tiles : Tiles 29 heap.heapStart segments heap.heapEnd
  lastHdr : heap.lastHdr = lastAddr 0 segments
  startLow : 0x1000 ≤ heap.heapStart
  endHigh : heap.heapEnd < 2 ^ 64

/-- The byte lies in the header of one of the segments. -/
def InHeader (segments : List Segment) (address : Nat) : Prop :=
  ∃ segment ∈ segments, segment.addr ≤ address ∧ address < segment.addr + 29

/-- Two heaps that differ at most in memory and in `LastHdr`. -/
structure SameBounds {σ : Type} (first second : Heap σ) : Prop where
  heapStart : first.heapStart = second.heapStart
  heapEnd : first.heapEnd = second.heapEnd
  pages : first.pages = second.pages

theorem SameBounds.refl {σ : Type} (heap : Heap σ) : SameBounds heap heap := ⟨rfl, rfl, rfl⟩

theorem SameBounds.trans {σ : Type} {first second third : Heap σ}
    (left : SameBounds first second) (right : SameBounds second third) :
    SameBounds first third :=
  ⟨left.heapStart.trans right.heapStart, left.heapEnd.trans right.heapEnd,
    left.pages.trans right.pages⟩

section

variable {σ : Type} {heap : Heap σ} {before after : List Segment} {segment : Segment}

theorem HeapChain.bounds (chain : HeapChain heap (before ++ segment :: after)) :
    heap.heapStart ≤ segment.addr ∧
      segment.addr + 29 + segment.length ≤ heap.heapEnd :=
  tiles_mem chain.tiles (by simp)

theorem HeapChain.header_eq (chain : HeapChain heap (before ++ segment :: after)) :
    header heap.mem segment.addr =
      { length := segment.length, next := headAddr 0 after, last := lastAddr 0 before,
        free := segment.free } :=
  (linked_append.mp chain.linked).2.1

theorem HeapChain.linked_before (chain : HeapChain heap (before ++ segment :: after)) :
    Linked heap.mem 0 before segment.addr :=
  (linked_append.mp chain.linked).1

theorem HeapChain.linked_after (chain : HeapChain heap (before ++ segment :: after)) :
    Linked heap.mem segment.addr after 0 :=
  (linked_append.mp chain.linked).2.2

theorem HeapChain.before_apart (chain : HeapChain heap (before ++ segment :: after))
    {other : Segment} (member : other ∈ before) {address : Nat}
    (lower : segment.addr ≤ address) : HeadersApart other.addr address := by
  have bound := (tiles_mem (tiles_split chain.tiles).1 member).2
  exact Or.inl (by omega)

theorem HeapChain.after_apart (chain : HeapChain heap (before ++ segment :: after))
    {other : Segment} (member : other ∈ after) {address : Nat}
    (upper : address ≤ segment.addr + segment.length) : HeadersApart other.addr address := by
  have bound := (tiles_mem (tiles_split chain.tiles).2 member).1
  exact Or.inr (by omega)

end

end OkeOS
