import Mathlib.Logic.Function.Basic
import OkeOS.MachineCore

/-!
`lib/list.h`: a growing array.  The heap is a set of live blocks of cells of type `T`; an
access to a cell that does not exist, or to a block that is not live, has no result.
-/

namespace OkeOS

/-- The live blocks, and the cells of each. -/
structure Blocks (T : Type) where
  live : List Nat
  cells : Nat → List T

section

variable {T : Type}

/-- `pointer[index]`. -/
def Blocks.read (blocks : Blocks T) (pointer index : Nat) : Option T :=
  if pointer ∈ blocks.live then (blocks.cells pointer)[index]? else none

/-- `pointer[index] = item`. -/
def Blocks.write (blocks : Blocks T) (pointer index : Nat) (item : T) : Option (Blocks T) :=
  if pointer ∈ blocks.live ∧ index < (blocks.cells pointer).length then
    let cells := (blocks.cells pointer).set index item
    some { blocks with cells := Function.update blocks.cells pointer cells }
  else none

/-- A new live block. -/
def Blocks.insert (blocks : Blocks T) (pointer : Nat) (contents : List T) : Blocks T where
  live := pointer :: blocks.live
  cells := Function.update blocks.cells pointer contents

def Blocks.free (blocks : Blocks T) (pointer : Nat) : Blocks T :=
  { blocks with live := blocks.live.filter (· ≠ pointer) }

end

/-- What `malloc` promises its callers: a block that is not live yet, with room for the
bytes asked for and arbitrary contents. -/
structure Allocator (T : Type) where
  sizeofT : Nat
  sizePos : 0 < sizeofT
  malloc : Blocks T → Nat → Nat × List T
  fresh : ∀ blocks bytes, 0 < bytes → (malloc blocks bytes).1 ∉ blocks.live
  room : ∀ blocks bytes, 0 < bytes → (malloc blocks bytes).2.length = bytes / sizeofT

structure ListObject where
  items : Nat
  length : Nat
  capacity : Nat
deriving DecidableEq, Repr

section

variable {T : Type} (allocator : Allocator T)

/-- `(T*)malloc(sizeof(T) * capacity)`. -/
def Blocks.newItems (blocks : Blocks T) (capacity : Nat) : Nat × Blocks T :=
  let (pointer, contents) := allocator.malloc blocks (mul64 allocator.sizeofT capacity)
  (pointer, blocks.insert pointer contents)

namespace ListObject

def withCapacity (blocks : Blocks T) (capacity : Nat) : ListObject × Blocks T :=
  let (items, blocks) := blocks.newItems allocator capacity
  ({ items := items, length := 0, capacity := capacity }, blocks)

/-- `List()`. -/
def empty (blocks : Blocks T) : ListObject × Blocks T := withCapacity allocator blocks 4

/-- The first rounds of the copy loop of `add`. -/
def copyItems (blocks : Blocks T) (newItems items : Nat) : Nat → Option (Blocks T)
  | 0 => some blocks
  | i + 1 => do
      let blocks ← copyItems blocks newItems items i
      let item ← blocks.read items i
      blocks.write newItems i item

/-- The first `if` of `add`. -/
def makeRoom (list : ListObject) (blocks : Blocks T) : Option (ListObject × Blocks T) :=
  if list.length = list.capacity then do
    let capacity := mul64 list.capacity 2
    let (newItems, blocks) := blocks.newItems allocator capacity
    let blocks ← copyItems blocks newItems list.items list.length
    some ({ list with items := newItems, capacity := capacity }, blocks.free list.items)
  else some (list, blocks)

def add (list : ListObject) (blocks : Blocks T) (item : T) : Option (ListObject × Blocks T) := do
  let (list, blocks) ← list.makeRoom allocator blocks
  let blocks ← blocks.write list.items list.length item
  some ({ list with length := add64 list.length 1 }, blocks)

/-- The first rounds of the loop of `remove`, which starts at `index`. -/
def shiftItems (blocks : Blocks T) (items index : Nat) : Nat → Option (Blocks T)
  | 0 => some blocks
  | i + 1 => do
      let blocks ← shiftItems blocks items index i
      let item ← blocks.read items (index + i + 1)
      blocks.write items (index + i) item

/-- `remove(u64 index)`. -/
def removeAt (list : ListObject) (blocks : Blocks T) (index : Nat) :
    Option (ListObject × Blocks T) :=
  if index ≥ list.length then some (list, blocks)
  else do
    let blocks ← shiftItems blocks list.items index (sub64 list.length 1 - index)
    some ({ list with length := sub64 list.length 1 }, blocks)

/-- The loop over `items[i] == item` that `remove`, `contains` and `indexOf` share, with
`rounds` rounds left. -/
def search [DecidableEq T] (blocks : Blocks T) (items : Nat) (item : T) :
    Nat → Nat → Option (Option Nat)
  | 0, _ => some none
  | rounds + 1, i => do
      let other ← blocks.read items i
      if other = item then some (some i) else search blocks items item rounds (i + 1)

/-- `remove(T item)`. -/
def removeItem [DecidableEq T] (list : ListObject) (blocks : Blocks T) (item : T) :
    Option (ListObject × Blocks T) := do
  match ← search blocks list.items item list.length 0 with
  | some i => list.removeAt blocks i
  | none => some (list, blocks)

def clear (list : ListObject) : ListObject := { list with length := 0 }

/-- `null` is `(T)NULL`. -/
def get (null : T) (list : ListObject) (blocks : Blocks T) (index : Nat) : Option T :=
  if index ≥ list.length then some null else blocks.read list.items index

def set (list : ListObject) (blocks : Blocks T) (index : Nat) (item : T) : Option (Blocks T) :=
  if index ≥ list.length then some blocks else blocks.write list.items index item

def contains [DecidableEq T] (list : ListObject) (blocks : Blocks T) (item : T) : Option Bool := do
  match ← search blocks list.items item list.length 0 with
  | some _ => some true
  | none => some false

def indexOf [DecidableEq T] (list : ListObject) (blocks : Blocks T) (item : T) : Option Nat := do
  match ← search blocks list.items item list.length 0 with
  | some i => some i
  | none => some (2 ^ 64 - 1)

/-- The first rounds of the loop of `reverse`. -/
def swapItems (blocks : Blocks T) (items length : Nat) : Nat → Option (Blocks T)
  | 0 => some blocks
  | i + 1 => do
      let blocks ← swapItems blocks items length i
      let temp ← blocks.read items i
      let other ← blocks.read items (length - i - 1)
      let blocks ← blocks.write items i other
      blocks.write items (length - i - 1) temp

def reverse (list : ListObject) (blocks : Blocks T) : Option (Blocks T) :=
  swapItems blocks list.items list.length (list.length / 2)

end ListObject

end

/-! Sequences of calls. -/

inductive ListOp (T : Type) where
  | add (item : T)
  | removeAt (index : Nat)
  | removeItem (item : T)
  | set (index : Nat) (item : T)
  | clear
  | reverse
  | get (index : Nat)
  | contains (item : T)
  | indexOf (item : T)
deriving DecidableEq, Repr

/-- What a call returns. -/
inductive Answer (T : Type) where
  | nothing
  | item (value : T)
  | bool (value : Bool)
  | index (value : Nat)
deriving DecidableEq, Repr

section

variable {T : Type} [DecidableEq T] (allocator : Allocator T) (null : T)

def ListObject.call (list : ListObject) (blocks : Blocks T) :
    ListOp T → Option (Answer T × ListObject × Blocks T)
  | .add item => (list.add allocator blocks item).map (.nothing, ·)
  | .removeAt index => (list.removeAt blocks index).map (.nothing, ·)
  | .removeItem item => (list.removeItem blocks item).map (.nothing, ·)
  | .set index item => (list.set blocks index item).map (.nothing, list, ·)
  | .clear => some (.nothing, list.clear, blocks)
  | .reverse => (list.reverse blocks).map (.nothing, list, ·)
  | .get index => (list.get null blocks index).map (.item ·, list, blocks)
  | .contains item => (list.contains blocks item).map (.bool ·, list, blocks)
  | .indexOf item => (list.indexOf blocks item).map (.index ·, list, blocks)

def ListObject.calls (list : ListObject) (blocks : Blocks T) :
    List (ListOp T) → Option (List (Answer T) × ListObject × Blocks T)
  | [] => some ([], list, blocks)
  | op :: rest => do
      let (answer, list, blocks) ← list.call allocator null blocks op
      let (answers, list, blocks) ← list.calls blocks rest
      some (answer :: answers, list, blocks)

end

end OkeOS
