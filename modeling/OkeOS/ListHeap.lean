import OkeOS.HeapRun
import OkeOS.ListCore

/-!
`lib/list.h` on the heap of `mem/heap.cpp`.  An element is `sizeofT` bytes, and `stores` records
the address of every element that a call stores.
-/

namespace OkeOS

open ByteMemory

structure ListMachine (σ : Type) where
  heap : Heap σ
  stores : List Nat

/-- The address of `items[index]`. -/
def elementAt (sizeofT items index : Nat) : Nat := add64 items (mul64 sizeofT index)

section

variable {σ : Type} (sizeofT : Nat)

/-- `items[index]`. -/
def ListMachine.element (state : ListMachine σ) (items index : Nat) : Nat :=
  load state.heap.mem (elementAt sizeofT items index) sizeofT

/-- `items[index] = item`. -/
def ListMachine.setElement (state : ListMachine σ) (items index item : Nat) : ListMachine σ where
  heap := { state.heap with
    mem := store state.heap.mem (elementAt sizeofT items index) sizeofT item }
  stores := state.stores ++ [elementAt sizeofT items index]

end

/-- The calls that change a list. -/
inductive ListChange where
  | add (item : Nat)
  | removeAt (index : Nat)
  | removeItem (item : Nat)
  | set (index item : Nat)
  | clear
deriving DecidableEq, Repr

namespace HeapList

section

variable {σ : Type} (mapPage : σ → Nat → Except Fault σ) (fuel sizeofT : Nat)

/-- `(T*)malloc(sizeof(T) * capacity)`. -/
def newItems (state : ListMachine σ) (capacity : Nat) : Except Fault (Nat × ListMachine σ) := do
  let (items, heap) ← malloc mapPage fuel state.heap (mul64 sizeofT capacity)
  .ok (items, { state with heap := heap })

def withCapacity (state : ListMachine σ) (capacity : Nat) :
    Except Fault (ListObject × ListMachine σ) := do
  let (items, state) ← newItems mapPage fuel sizeofT state capacity
  .ok ({ items := items, length := 0, capacity := capacity }, state)

/-- `List()`. -/
def empty (state : ListMachine σ) : Except Fault (ListObject × ListMachine σ) :=
  withCapacity mapPage fuel sizeofT state 4

/-- The first rounds of the copy loop of `add`. -/
def copyItems (state : ListMachine σ) (newItems items : Nat) : Nat → ListMachine σ
  | 0 => state
  | i + 1 =>
      let state := copyItems state newItems items i
      state.setElement sizeofT newItems i (state.element sizeofT items i)

/-- The first `if` of `add`. -/
def makeRoom (list : ListObject) (state : ListMachine σ) :
    Except Fault (ListObject × ListMachine σ) :=
  if list.length = list.capacity then do
    let capacity := mul64 list.capacity 2
    let (newItems, state) ← newItems mapPage fuel sizeofT state capacity
    let state := copyItems sizeofT state newItems list.items list.length
    .ok ({ list with items := newItems, capacity := capacity },
      { state with heap := free state.heap list.items })
  else .ok (list, state)

def add (list : ListObject) (state : ListMachine σ) (item : Nat) :
    Except Fault (ListObject × ListMachine σ) := do
  let (list, state) ← makeRoom mapPage fuel sizeofT list state
  .ok ({ list with length := add64 list.length 1 },
    state.setElement sizeofT list.items list.length item)

/-- The first rounds of the loop of `remove`, which starts at `index`. -/
def shiftItems (state : ListMachine σ) (items index : Nat) : Nat → ListMachine σ
  | 0 => state
  | i + 1 =>
      let state := shiftItems state items index i
      state.setElement sizeofT items (index + i) (state.element sizeofT items (index + i + 1))

/-- `remove(u64 index)`. -/
def removeAt (list : ListObject) (state : ListMachine σ) (index : Nat) :
    ListObject × ListMachine σ :=
  if index ≥ list.length then (list, state)
  else
    ({ list with length := sub64 list.length 1 },
      shiftItems sizeofT state list.items index (sub64 list.length 1 - index))

/- `operator==` of `T`. -/
variable (equal : Nat → Nat → Bool)

/-- The index that the loop of `remove(T item)` stops at. -/
def search (state : ListMachine σ) (items item : Nat) : Nat → Nat → Option Nat
  | 0, _ => none
  | rounds + 1, i =>
      if equal (state.element sizeofT items i) item then some i
      else search state items item rounds (i + 1)

/-- `remove(T item)`. -/
def removeItem (list : ListObject) (state : ListMachine σ) (item : Nat) :
    ListObject × ListMachine σ :=
  match search sizeofT equal state list.items item list.length 0 with
  | some i => removeAt sizeofT list state i
  | none => (list, state)

def set (list : ListObject) (state : ListMachine σ) (index item : Nat) : ListMachine σ :=
  if index ≥ list.length then state else state.setElement sizeofT list.items index item

def call (list : ListObject) (state : ListMachine σ) :
    ListChange → Except Fault (ListObject × ListMachine σ)
  | .add item => add mapPage fuel sizeofT list state item
  | .removeAt index => .ok (removeAt sizeofT list state index)
  | .removeItem item => .ok (removeItem sizeofT equal list state item)
  | .set index item => .ok (list, set sizeofT list state index item)
  | .clear => .ok (list.clear, state)

end

end HeapList

/-- The block of the items, with the size that `malloc` was asked for. -/
def ListObject.block (sizeofT : Nat) (list : ListObject) : Block :=
  { ptr := list.items, size := mul64 sizeofT list.capacity }

/-- The live blocks of a list and of everybody else. -/
def ListObject.live (sizeofT : Nat) (list : ListObject) (base : List Block) : List Block :=
  if list.items = 0 then base else list.block sizeofT :: base

section

variable {σ : Type} (mapPage : σ → Nat → Except Fault σ) (equal : Nat → Nat → Bool)
  (sizeofT limit : Nat) (Constructs : Nat → Prop) (Grows : ListObject → Prop)

/-- What becomes of a list, with the blocks of everybody else and the stores of its last call:
it is constructed in any state of the heap, then its calls come in any order, between calls and
writes of others.  `Constructs` is asked about the capacity of the constructor, `Grows` about a
full list before an `add`. -/
inductive ListRun : List Block → Heap σ → ListObject → List Nat → Prop
  | construct {system : HeapSystem σ} {fuel capacity : Nat} {list : ListObject}
      {state : ListMachine σ} (run : HeapRun mapPage system) (word : capacity < 2 ^ 64)
      (meets : Constructs capacity)
      (call : HeapList.withCapacity mapPage fuel sizeofT ⟨system.heap, []⟩ capacity =
        .ok (list, state))
      (below : state.heap.heapEnd ≤ limit) :
      ListRun system.live state.heap list state.stores
  | call {base : List Block} {heap : Heap σ} {list list' : ListObject} {stores : List Nat}
      {fuel : Nat} {change : ListChange} {state : ListMachine σ}
      (run : ListRun base heap list stores)
      (meets : ∀ item, change = .add item → list.length = list.capacity → Grows list)
      (call : HeapList.call mapPage fuel sizeofT equal list ⟨heap, []⟩ change = .ok (list', state))
      (below : state.heap.heapEnd ≤ limit) :
      ListRun base state.heap list' state.stores
  | others {base base' live : List Block} {heap heap' : Heap σ} {list : ListObject}
      {stores : List Nat} (run : ListRun base heap list stores)
      (call : HeapCall mapPage { heap := heap, live := list.live sizeofT base }
        { heap := heap', live := live })
      (same : live.Perm (list.live sizeofT base')) (below : heap'.heapEnd ≤ limit) :
      ListRun base' heap' list []
  | write {base : List Block} {heap : Heap σ} {list : ListObject} {stores : List Nat}
      {block : Block} {address : Nat} (byte : UInt8) (run : ListRun base heap list stores)
      (member : block ∈ base) (inside : block.Contains address) :
      ListRun base { heap with mem := writeByte heap.mem address byte } list []

end

end OkeOS
