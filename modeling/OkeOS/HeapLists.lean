import OkeOS.ListSort
import OkeOS.ListStorage

/-!
All of `lib/list.h` on the heap of `mem/heap.cpp`, for unsigned numbers of `sizeofT` bytes.  The
cells of a block are the numbers that its bytes spell, so the loops over memory are the loops over
cells, and a full list that moves to another block takes its items along.
-/

namespace OkeOS

open ByteMemory Tiling BubbleSort

namespace HeapList

section

variable {σ : Type} (sizeofT : Nat)

/-- `NULL` is the number zero. -/
def get (list : ListObject) (state : ListMachine σ) (index : Nat) : Nat :=
  if index ≥ list.length then 0 else state.element sizeofT list.items index

/-- The loop over `items[i] == item`. -/
def find (list : ListObject) (state : ListMachine σ) (item : Nat) : Option Nat :=
  search sizeofT (fun first second => decide (first = second)) state list.items item list.length 0

def contains (list : ListObject) (state : ListMachine σ) (item : Nat) : Bool :=
  match find sizeofT list state item with
  | some _ => true
  | none => false

def indexOf (list : ListObject) (state : ListMachine σ) (item : Nat) : Nat :=
  match find sizeofT list state item with
  | some i => i
  | none => 2 ^ 64 - 1

/-- The first rounds of the loop of `reverse`. -/
def swapItems (state : ListMachine σ) (items length : Nat) : Nat → ListMachine σ
  | 0 => state
  | i + 1 =>
      let state := swapItems state items length i
      let temp := state.element sizeofT items i
      let state := state.setElement sizeofT items i (state.element sizeofT items (length - i - 1))
      state.setElement sizeofT items (length - i - 1) temp

def reverse (list : ListObject) (state : ListMachine σ) : ListMachine σ :=
  swapItems sizeofT state list.items list.length (list.length / 2)

/-- The body of the inner loop of `sort`. -/
def compareSwap (state : ListMachine σ) (items j : Nat) : ListMachine σ :=
  if state.element sizeofT items j > state.element sizeofT items (j + 1) then
    let temp := state.element sizeofT items j
    let state := state.setElement sizeofT items j (state.element sizeofT items (j + 1))
    state.setElement sizeofT items (j + 1) temp
  else state

/-- The first rounds of the inner loop. -/
def sortInner (state : ListMachine σ) (items : Nat) : Nat → ListMachine σ
  | 0 => state
  | j + 1 => compareSwap sizeofT (sortInner state items j) items j

/-- The first rounds of the outer loop. -/
def sortOuter (state : ListMachine σ) (items length : Nat) : Nat → ListMachine σ
  | 0 => state
  | i + 1 =>
      sortInner sizeofT (sortOuter state items length i) items (sub64 (sub64 length i) 1)

def sort (list : ListObject) (state : ListMachine σ) : ListMachine σ :=
  sortOuter sizeofT state list.items list.length list.length

end

end HeapList

/-! The cells in memory. -/

def cellsOf (sizeofT : Nat) (mem : Memory) (items capacity : Nat) : List Nat :=
  (List.range capacity).map fun i => load mem (elementAt sizeofT items i) sizeofT

/-- The blocks at the pointers of `live`, with `capacity` cells each. -/
def viewOf (sizeofT : Nat) (live : List Nat) (capacity : Nat → Nat) (mem : Memory) : Blocks Nat where
  live := live
  cells := fun pointer =>
    if pointer ∈ live then cellsOf sizeofT mem pointer (capacity pointer) else []

/-- The blocks lie below the end of the address space and apart from each other. -/
structure Laid (sizeofT : Nat) (live : List Nat) (capacity : Nat → Nat) : Prop where
  high : ∀ pointer ∈ live, pointer + sizeofT * capacity pointer < 2 ^ 64
  apart : ∀ pointer ∈ live, ∀ other ∈ live, pointer ≠ other →
    pointer + sizeofT * capacity pointer ≤ other ∨ other + sizeofT * capacity other ≤ pointer

section

variable {sizeofT : Nat} {live : List Nat} {capacity : Nat → Nat} {mem : Memory}
  {pointer index item : Nat}

theorem cellsOf_length (sizeofT : Nat) (mem : Memory) (items capacity : Nat) :
    (cellsOf sizeofT mem items capacity).length = capacity := by
  simp [cellsOf]

theorem cellsOf_get {items capacity : Nat} (inside : index < capacity) :
    (cellsOf sizeofT mem items capacity)[index]? =
      some (load mem (elementAt sizeofT items index) sizeofT) := by
  simp [cellsOf, inside]

theorem cellsOf_congr {mem' : Memory} {items capacity : Nat}
    (high : items + sizeofT * capacity < 2 ^ 64)
    (same : ∀ address, items ≤ address → address < items + sizeofT * capacity →
      mem' address = mem address) :
    cellsOf sizeofT mem' items capacity = cellsOf sizeofT mem items capacity := by
  refine List.map_congr_left fun i member => load_congr fun address lower upper => ?_
  have within : sizeofT * (i + 1) ≤ sizeofT * capacity :=
    Nat.mul_le_mul_left _ (List.mem_range.mp member)
  rw [Nat.mul_add, Nat.mul_one] at within
  rw [elementAt_eq (by omega)] at lower upper
  exact same address (by omega) (by omega)

theorem viewOf_cells (member : pointer ∈ live) :
    (viewOf sizeofT live capacity mem).cells pointer =
      cellsOf sizeofT mem pointer (capacity pointer) := if_pos member

theorem viewOf_read (member : pointer ∈ live) (inside : index < capacity pointer) :
    (viewOf sizeofT live capacity mem).read pointer index =
      some (load mem (elementAt sizeofT pointer index) sizeofT) := by
  rw [Blocks.read_live member, viewOf_cells member, cellsOf_get inside]

theorem Laid.element_lt (laid : Laid sizeofT live capacity) (member : pointer ∈ live)
    (inside : index < capacity pointer) :
    elementAt sizeofT pointer index = pointer + sizeofT * index ∧
      sizeofT * index + sizeofT ≤ sizeofT * capacity pointer := by
  have high := laid.high pointer member
  have within : sizeofT * (index + 1) ≤ sizeofT * capacity pointer := Nat.mul_le_mul_left _ inside
  rw [Nat.mul_add, Nat.mul_one] at within
  exact ⟨elementAt_eq (by omega), within⟩

/-- An element that is stored is a cell that is written. -/
theorem viewOf_write (laid : Laid sizeofT live capacity) (member : pointer ∈ live)
    (inside : index < capacity pointer) (small : item < 256 ^ sizeofT) :
    (viewOf sizeofT live capacity mem).write pointer index item =
      some (viewOf sizeofT live capacity
        (store mem (elementAt sizeofT pointer index) sizeofT item)) := by
  obtain ⟨place, within⟩ := laid.element_lt member inside
  rw [Blocks.write_live member (by rw [viewOf_cells member, cellsOf_length]; exact inside)]
  refine congrArg some ?_
  simp only [Blocks.put, viewOf, Blocks.mk.injEq, true_and, if_pos member]
  funext other
  by_cases same : other = pointer
  · subst same
    rw [Function.update_self, if_pos member]
    refine List.ext_getElem? fun j => ?_
    rw [List.getElem?_set, cellsOf_length]
    by_cases beyond : capacity other ≤ j
    · rw [List.getElem?_eq_none (by rw [cellsOf_length]; exact beyond),
        List.getElem?_eq_none (by rw [cellsOf_length]; exact beyond), if_neg (by omega)]
    · obtain ⟨otherPlace, otherWithin⟩ := laid.element_lt member (Nat.lt_of_not_le beyond)
      rw [cellsOf_get (Nat.lt_of_not_le beyond), cellsOf_get (Nat.lt_of_not_le beyond)]
      by_cases here : index = j
      · subst here
        rw [if_pos rfl, if_pos inside, load_store_same, Nat.mod_eq_of_lt small]
      · rw [if_neg here, load_store_apart]
        rw [place, otherPlace]
        rcases Nat.lt_or_gt_of_ne here with before | after
        · have step : sizeofT * (index + 1) ≤ sizeofT * j := Nat.mul_le_mul_left _ before
          rw [Nat.mul_add, Nat.mul_one] at step
          omega
        · have step : sizeofT * (j + 1) ≤ sizeofT * index := Nat.mul_le_mul_left _ after
          rw [Nat.mul_add, Nat.mul_one] at step
          omega
  · rw [Function.update_of_ne same]
    by_cases otherMember : other ∈ live
    · rw [if_pos otherMember, if_pos otherMember]
      have apart := laid.apart pointer member other otherMember (Ne.symm same)
      refine (cellsOf_congr (laid.high other otherMember) fun address lower upper => ?_).symm
      exact store_outside _ _ _ _ _ (by rw [place]; omega)
    · rw [if_neg otherMember, if_neg otherMember]

end

/-! The loops. -/

section

variable {σ : Type} {sizeofT : Nat} {live : List Nat} {capacity : Nat → Nat} {items : Nat}

theorem element_view (state : ListMachine σ) (member : items ∈ live) {index : Nat}
    (inside : index < capacity items) :
    (viewOf sizeofT live capacity state.heap.mem).read items index =
      some (state.element sizeofT items index) :=
  viewOf_read member inside

theorem element_small (state : ListMachine σ) (items index : Nat) :
    state.element sizeofT items index < 256 ^ sizeofT :=
  load_lt _ _ _

theorem setElement_view (laid : Laid sizeofT live capacity) (state : ListMachine σ)
    (member : items ∈ live) {index item : Nat} (inside : index < capacity items)
    (small : item < 256 ^ sizeofT) :
    (viewOf sizeofT live capacity state.heap.mem).write items index item =
      some (viewOf sizeofT live capacity (state.setElement sizeofT items index item).heap.mem) :=
  viewOf_write laid member inside small

theorem copyItems_view (laid : Laid sizeofT live capacity) (state : ListMachine σ) {newItems : Nat}
    (newMember : newItems ∈ live) (member : items ∈ live) {rounds : Nat}
    (newInside : rounds ≤ capacity newItems) (inside : rounds ≤ capacity items) :
    ListObject.copyItems (viewOf sizeofT live capacity state.heap.mem) newItems items rounds =
      some (viewOf sizeofT live capacity
        (HeapList.copyItems sizeofT state newItems items rounds).heap.mem) := by
  induction rounds with
  | zero => rfl
  | succ i ih =>
      rw [ListObject.copyItems, ih (by omega) (by omega)]
      simp only [Option.bind_eq_bind, Option.bind_some]
      rw [element_view _ member (by omega), Option.bind_some]
      exact setElement_view laid _ newMember (by omega) (element_small _ _ _)

/-- The first cells of the new block are those of the old one. -/
theorem copyItems_cells {newItems : Nat} (laid : Laid sizeofT [newItems, items] capacity)
    (state : ListMachine σ) (different : items ≠ newItems) {rounds index : Nat}
    (newInside : rounds ≤ capacity newItems) (inside : rounds ≤ capacity items)
    (less : index < rounds) :
    (cellsOf sizeofT (HeapList.copyItems sizeofT state newItems items rounds).heap.mem newItems
        (capacity newItems))[index]? =
      (cellsOf sizeofT state.heap.mem items (capacity items))[index]? := by
  have newMember : newItems ∈ [newItems, items] := List.mem_cons_self
  have member : items ∈ [newItems, items] := List.mem_cons_of_mem _ List.mem_cons_self
  have run := copyItems_view laid state newMember member newInside inside
  obtain ⟨cells, copied, _, same⟩ := @ListObject.copyItems_put Nat
    (viewOf sizeofT [newItems, items] capacity state.heap.mem) items newItems member newMember
    different rounds (by rw [viewOf_cells member, cellsOf_length]; exact inside)
    (by rw [viewOf_cells newMember, cellsOf_length]; exact newInside)
  rw [copied, Option.some.injEq] at run
  have cellsEq := congrArg (fun blocks => blocks.cells newItems) run
  simp only [Blocks.put_cells] at cellsEq
  rw [viewOf_cells newMember] at cellsEq
  rw [← cellsEq, same, if_pos less, viewOf_cells member]

theorem shiftItems_view (laid : Laid sizeofT live capacity) (state : ListMachine σ)
    (member : items ∈ live) {index rounds : Nat} (inside : index + rounds < capacity items) :
    ListObject.shiftItems (viewOf sizeofT live capacity state.heap.mem) items index rounds =
      some (viewOf sizeofT live capacity
        (HeapList.shiftItems sizeofT state items index rounds).heap.mem) := by
  induction rounds with
  | zero => rfl
  | succ i ih =>
      rw [ListObject.shiftItems, ih (by omega)]
      simp only [Option.bind_eq_bind, Option.bind_some]
      rw [element_view _ member (by omega), Option.bind_some]
      exact setElement_view laid _ member (by omega) (element_small _ _ _)

theorem swapItems_view (laid : Laid sizeofT live capacity) (state : ListMachine σ)
    (member : items ∈ live) {length rounds : Nat} (half : rounds ≤ length / 2)
    (inside : length ≤ capacity items) :
    ListObject.swapItems (viewOf sizeofT live capacity state.heap.mem) items length rounds =
      some (viewOf sizeofT live capacity
        (HeapList.swapItems sizeofT state items length rounds).heap.mem) := by
  induction rounds with
  | zero => rfl
  | succ i ih =>
      rw [ListObject.swapItems, ih (by omega)]
      simp only [Option.bind_eq_bind, Option.bind_some]
      rw [element_view _ member (by omega), Option.bind_some, element_view _ member (by omega),
        Option.bind_some, setElement_view laid _ member (by omega) (element_small _ _ _),
        Option.bind_some]
      exact setElement_view laid _ member (by omega) (element_small _ _ _)

theorem search_view (state : ListMachine σ) (member : items ∈ live) (item : Nat) {rounds i : Nat}
    (inside : i + rounds ≤ capacity items) :
    ListObject.search (viewOf sizeofT live capacity state.heap.mem) items item rounds i =
      some (HeapList.search sizeofT (fun first second => decide (first = second)) state items item
        rounds i) := by
  induction rounds generalizing i with
  | zero => rfl
  | succ rounds ih =>
      rw [ListObject.search, element_view state member (by omega), HeapList.search]
      simp only [Option.bind_eq_bind, Option.bind_some]
      by_cases same : state.element sizeofT items i = item
      · rw [if_pos same, if_pos (decide_eq_true same)]
      · rw [if_neg same, if_neg (by simpa using same)]
        exact ih (by omega)

/-! `sort` over cells records its accesses, which memory does not. -/

theorem compareSwap_view (laid : Laid sizeofT live capacity) (state : ListMachine σ)
    (member : items ∈ live) {j : Nat} (inside : j + 1 < capacity items) (indices : List Nat) :
    ∃ more, ListObject.compareSwap (· > ·)
        ⟨viewOf sizeofT live capacity state.heap.mem, indices⟩ items j =
      some ⟨viewOf sizeofT live capacity
        (HeapList.compareSwap sizeofT state items j).heap.mem, more⟩ := by
  have read (indices : List Nat) {index : Nat} (below : index < capacity items) :
      (⟨viewOf sizeofT live capacity state.heap.mem, indices⟩ : Accessed Nat).read items index =
        some (state.element sizeofT items index,
          ⟨viewOf sizeofT live capacity state.heap.mem, indices ++ [index]⟩) := by
    rw [Accessed.read, element_view state member below]
    rfl
  have write (state : ListMachine σ) (indices : List Nat) {index item : Nat}
      (below : index < capacity items) (small : item < 256 ^ sizeofT) :
      (⟨viewOf sizeofT live capacity state.heap.mem, indices⟩ : Accessed Nat).write items index item =
        some ⟨viewOf sizeofT live capacity (state.setElement sizeofT items index item).heap.mem,
          indices ++ [index]⟩ := by
    rw [Accessed.write, setElement_view laid state member below small]
    rfl
  have first : j < capacity items := by omega
  rw [ListObject.compareSwap, read _ first]
  simp only [Option.bind_eq_bind, Option.bind_some]
  rw [read _ inside, HeapList.compareSwap]
  simp only [Option.bind_some]
  by_cases greater : state.element sizeofT items j > state.element sizeofT items (j + 1)
  · rw [if_pos greater, if_pos greater, read _ first]
    simp only [Option.bind_some]
    rw [read _ inside]
    simp only [Option.bind_some]
    rw [write state _ first (element_small _ _ _), Option.bind_some,
      write _ _ inside (element_small _ _ _)]
    exact ⟨_, rfl⟩
  · rw [if_neg greater, if_neg greater]
    exact ⟨_, rfl⟩

theorem sortInner_view (laid : Laid sizeofT live capacity) (state : ListMachine σ)
    (member : items ∈ live) {rounds : Nat} (inside : rounds < capacity items) (indices : List Nat) :
    ∃ more, ListObject.sortInner (· > ·)
        ⟨viewOf sizeofT live capacity state.heap.mem, indices⟩ items rounds =
      some ⟨viewOf sizeofT live capacity
        (HeapList.sortInner sizeofT state items rounds).heap.mem, more⟩ := by
  induction rounds with
  | zero => exact ⟨indices, rfl⟩
  | succ j ih =>
      obtain ⟨between, run⟩ := ih (by omega)
      rw [ListObject.sortInner, run]
      exact compareSwap_view laid _ member inside between

theorem sortOuter_view (laid : Laid sizeofT live capacity) (state : ListMachine σ)
    (member : items ∈ live) {length rounds : Nat} (word : length < 2 ^ 64)
    (inside : length ≤ capacity items) (enough : rounds ≤ length) (indices : List Nat) :
    ∃ more, ListObject.sortOuter (· > ·)
        ⟨viewOf sizeofT live capacity state.heap.mem, indices⟩ items length rounds =
      some ⟨viewOf sizeofT live capacity
        (HeapList.sortOuter sizeofT state items length rounds).heap.mem, more⟩ := by
  induction rounds with
  | zero => exact ⟨indices, rfl⟩
  | succ i ih =>
      obtain ⟨between, run⟩ := ih (by omega)
      have bound := ListObject.innerRounds word (Nat.lt_of_succ_le enough)
      rw [ListObject.sortOuter, run, HeapList.sortOuter, bound, Option.bind_eq_bind, Option.bind_some]
      exact sortInner_view laid _ member (by omega) between

end

/-! Where the loops store. -/

section

variable {σ : Type} {sizeofT capacity : Nat} {block : Block} (room : sizeofT * capacity = block.size)
  (high : block.ptr + block.size < 2 ^ 64)

include room high

theorem swapItems_storesIn {length rounds : Nat} (state : ListMachine σ)
    (half : rounds ≤ length / 2) (inside : length ≤ capacity) :
    StoresIn sizeofT block state (HeapList.swapItems sizeofT state block.ptr length rounds) := by
  induction rounds with
  | zero => exact .refl state
  | succ i ih =>
      exact ((ih (by omega)).trans (setElement_storesIn room high _ _ (by omega))).trans
        (setElement_storesIn room high _ _ (by omega))

theorem compareSwap_storesIn {j : Nat} (state : ListMachine σ) (inside : j + 1 < capacity) :
    StoresIn sizeofT block state (HeapList.compareSwap sizeofT state block.ptr j) := by
  rw [HeapList.compareSwap]
  split
  · exact (setElement_storesIn room high _ _ (by omega)).trans
      (setElement_storesIn room high _ _ inside)
  · exact .refl state

theorem sortInner_storesIn {rounds : Nat} (state : ListMachine σ) (inside : rounds < capacity) :
    StoresIn sizeofT block state (HeapList.sortInner sizeofT state block.ptr rounds) := by
  induction rounds with
  | zero => exact .refl state
  | succ j ih => exact (ih (by omega)).trans (compareSwap_storesIn room high _ inside)

theorem sortOuter_storesIn {length rounds : Nat} (state : ListMachine σ) (word : length < 2 ^ 64)
    (inside : length ≤ capacity) (enough : rounds ≤ length) :
    StoresIn sizeofT block state (HeapList.sortOuter sizeofT state block.ptr length rounds) := by
  induction rounds with
  | zero => exact .refl state
  | succ i ih =>
      have bound := ListObject.innerRounds word (Nat.lt_of_succ_le enough)
      rw [HeapList.sortOuter, bound]
      exact (ih (by omega)).trans (sortInner_storesIn room high _ (by omega))

end

/-! The contents of a list in memory. -/

theorem SystemInv.head_ne {σ : Type} {heap : Heap σ} {segments : List Segment} {first block : Block}
    {blocks : List Block} (system : SystemInv { heap := heap, live := first :: blocks } segments)
    (member : block ∈ blocks) : first.ptr ≠ block.ptr := by
  intro same
  have pointer : block.ptr ∈ blocks.map Block.ptr := List.mem_map_of_mem member
  rw [← same] at pointer
  exact (List.nodup_cons.mp system.distinct).1 pointer

theorem Laid.pair {sizeofT newItems items newCapacity capacity : Nat}
    (newHigh : newItems + sizeofT * newCapacity < 2 ^ 64) (high : items + sizeofT * capacity < 2 ^ 64)
    (different : items ≠ newItems) (separate : newItems + sizeofT * newCapacity ≤ items ∨
      items + sizeofT * capacity ≤ newItems) :
    Laid sizeofT [newItems, items] fun pointer =>
      if pointer = newItems then newCapacity else capacity := by
  constructor
  · intro pointer member
    rcases List.mem_cons.mp member with rfl | old
    · rw [if_pos rfl]
      exact newHigh
    · rw [List.mem_singleton.mp old, if_neg different]
      exact high
  · intro pointer member other otherMember unequal
    rcases List.mem_cons.mp member with rfl | old
    · rcases List.mem_cons.mp otherMember with rfl | otherOld
      · exact absurd rfl unequal
      · rw [List.mem_singleton.mp otherOld, if_pos rfl, if_neg different]
        exact separate
    · rcases List.mem_cons.mp otherMember with rfl | otherOld
      · rw [List.mem_singleton.mp old, if_pos rfl, if_neg different]
        exact separate.symm
      · rw [List.mem_singleton.mp old, List.mem_singleton.mp otherOld] at unequal
        exact absurd rfl unequal

/-- The cells of the items alone. -/
def ListObject.view (sizeofT : Nat) (list : ListObject) (mem : Memory) : Blocks Nat :=
  viewOf sizeofT [list.items] (fun _ => list.capacity) mem

/-- The list is in good order, and its elements are `contents`. -/
structure Stored {σ : Type} (sizeofT limit : Nat) (base : List Block) (heap : Heap σ)
    (list : ListObject) (contents : List Nat) : Prop extends
    ListInv sizeofT limit base heap list where
  represents : ListObject.Represents sizeofT list (list.view sizeofT heap.mem) contents

/-- The bytes of the blocks of `base` are those they were. -/
def KeepsBytes {σ : Type} (base : List Block) (heap heap' : Heap σ) : Prop :=
  ∀ block ∈ base, ∀ address, block.Contains address → heap'.mem address = heap.mem address

section

variable {σ : Type} {mapPage : σ → Nat → Except Fault σ} {fuel sizeofT limit : Nat}
  {base : List Block} {heap heap' : Heap σ} {list : ListObject} {contents : List Nat}

theorem Stored.owned (stored : Stored sizeofT limit base heap list contents) :
    ∃ segments, SystemInv { heap := heap, live := list.block sizeofT :: base } segments := by
  obtain ⟨segments, system⟩ := stored.system
  rw [stored.live_eq stored.represents.positive] at system
  exact ⟨segments, system⟩

theorem Stored.laid (stored : Stored sizeofT limit base heap list contents)
    (noWrap : limit < 2 ^ 64) : Laid sizeofT [list.items] fun _ => list.capacity := by
  have high := stored.high noWrap stored.represents.positive
  rw [show (list.block sizeofT).size = sizeofT * list.capacity from stored.fits.mul64_eq] at high
  constructor
  · intro pointer member
    rw [List.mem_singleton.mp member]
    exact high
  · intro pointer member other otherMember different
    rw [List.mem_singleton.mp member, List.mem_singleton.mp otherMember] at different
    exact absurd rfl different

/-- Stores into the own block are seen by nobody else. -/
theorem Stored.keeps {state : ListMachine σ} (stored : Stored sizeofT limit base heap list contents)
    (storesIn : StoresIn sizeofT (list.block sizeofT) ⟨heap, []⟩ state) :
    KeepsBytes base heap state.heap := by
  obtain ⟨segments, system⟩ := stored.owned
  have size : (list.block sizeofT).size = sizeofT * list.capacity := stored.fits.mul64_eq
  have larger := (roundUp16 (show (list.block sizeofT).size ≤ 2 ^ 64 - 0x1000 by
    rw [size]; exact stored.fits)).1
  intro block member address inside
  by_contra changed
  obtain ⟨lower, upper⟩ := storesIn.changes address changed
  exact system.blocks_apart List.mem_cons_self (List.mem_cons_of_mem _ member) (system.head_ne member)
    address ⟨⟨lower, by omega⟩, inside⟩

/-- `free` keeps the bytes of the blocks before and behind the one it frees. -/
theorem free_keepsBytes {first block : Block} {segments : List Segment}
    (system : SystemInv { heap := heap, live := first :: block :: base } segments)
    (freed : free heap block.ptr = heap') (noWrap : limit < 2 ^ 64) (below : heap.heapEnd ≤ limit) :
    KeepsBytes (first :: base) heap heap' := by
  have different : first ≠ block := fun same =>
    system.head_ne List.mem_cons_self (congrArg Block.ptr same)
  have erased : (first :: block :: base).erase block = first :: base := by
    rw [List.erase_cons_tail (by rw [beq_iff_eq]; exact different), List.erase_cons_head]
  obtain ⟨_, _, evolves⟩ := @SystemInv.free_step σ _ _ _ _ limit
    (fun address => ∃ block ∈ first :: base, block.Contains address) block system
    (List.mem_cons_of_mem _ List.mem_cons_self) freed noWrap below
    fun address held => .inl (by rw [erased]; exact held)
  intro other member address inside
  exact evolves.bytes address ⟨other, member, inside⟩

/-- The new block after the copy loop of `add`. -/
structure Copied {σ : Type} (sizeofT : Nat) (base : List Block) (heap : Heap σ) (list : ListObject)
    (contents : List Nat) (newItems : Nat) (moved : Heap σ) : Prop where
  kept : KeepsBytes (list.block sizeofT :: base) heap moved
  system : ∃ segments, SystemInv { heap := moved, live :=
    { ptr := newItems, size := sizeofT * (list.capacity * 2) } :: list.block sizeofT :: base } segments
  cells : ∀ i < contents.length,
    (cellsOf sizeofT moved.mem newItems (list.capacity * 2))[i]? = contents[i]?

theorem Stored.copied {newItems : Nat} {heap1 : Heap σ}
    (stored : Stored sizeofT limit base heap list contents) (noWrap : limit < 2 ^ 64)
    (sizePos : 0 < sizeofT) (full : list.length = list.capacity)
    (fits : SizeFits sizeofT (list.capacity * 2))
    (called : malloc mapPage fuel heap (sizeofT * (list.capacity * 2)) = .ok (newItems, heap1))
    (below : heap1.heapEnd ≤ limit) :
    Copied sizeofT base heap list contents newItems
      (HeapList.copyItems sizeofT ⟨heap1, []⟩ newItems list.items list.length).heap := by
  have some := stored.represents.positive
  obtain ⟨segments, system⟩ := stored.owned
  have oldSize : (list.block sizeofT).size = sizeofT * list.capacity := stored.fits.mul64_eq
  have oldPointer : (list.block sizeofT).ptr = list.items := rfl
  have oldLarger := (roundUp16 (show (list.block sizeofT).size ≤ 2 ^ 64 - 0x1000 by
    rw [oldSize]; exact stored.fits)).1
  have newLarger := (roundUp16 (show sizeofT * (list.capacity * 2) ≤ 2 ^ 64 - 0x1000 from fits)).1
  have newPos : 0 < sizeofT * (list.capacity * 2) := Nat.mul_pos sizePos (by omega)
  have oldPos : 0 < sizeofT * list.capacity := Nat.mul_pos sizePos some
  obtain ⟨moved, copied⟩ : ∃ moved, HeapList.copyItems sizeofT ⟨heap1, []⟩ newItems list.items
    list.length = moved := ⟨_, rfl⟩
  rw [copied]
  -- `malloc` touches no live block, and the new block lies apart from all of them
  obtain ⟨_, ⟨segments1, system1⟩, evolves⟩ := @SystemInv.malloc_step σ mapPage _ _ _ _ limit
    (fun address => ∃ block ∈ list.block sizeofT :: base, block.Contains address) _ _ _ system
    newPos fits called noWrap below fun address held => .inl held
  have kept : KeepsBytes (list.block sizeofT :: base) heap heap1 := fun block member address inside =>
    evolves.bytes address ⟨block, member, inside⟩
  have bounds := system1.block_bounds List.mem_cons_self
  have oldBounds := system1.block_bounds (List.mem_cons_of_mem _ List.mem_cons_self)
  simp only at bounds oldBounds
  have apart : ∀ block ∈ list.block sizeofT :: base, ∀ address, block.Contains address →
      ¬(newItems ≤ address ∧ address < newItems + sizeofT * (list.capacity * 2)) := by
    intro block member address inside within
    exact system1.blocks_apart List.mem_cons_self (List.mem_cons_of_mem _ member)
      (system1.head_ne member) address ⟨⟨within.1, by simp only; omega⟩, inside⟩
  have storesIn : StoresIn sizeofT { ptr := newItems, size := sizeofT * (list.capacity * 2) }
      ⟨heap1, []⟩ moved := by
    rw [← copied]
    exact @copyItems_storesIn σ sizeofT
      { ptr := newItems, size := sizeofT * (list.capacity * 2) } (list.capacity * 2) rfl
      (by simp only; omega) _ _ _ (by omega)
  refine ⟨?_, ⟨segments1, ?_⟩, ?_⟩
  · intro block member address inside
    refine Eq.trans ?_ (kept block member address inside)
    by_contra changed
    exact apart block member address inside (storesIn.changes address changed)
  · have rewritten := @SystemInv.rewrite σ _ segments1 limit moved.heap.mem system1 below
      fun address changed => .inl ⟨_, List.mem_cons_self, (storesIn.changes address changed).1,
        Nat.lt_of_lt_of_le (storesIn.changes address changed).2 (Nat.add_le_add_left newLarger _)⟩
    rw [storesIn.heap]
    exact rewritten
  · have separate : newItems + sizeofT * (list.capacity * 2) ≤ list.items ∨
        list.items + sizeofT * list.capacity ≤ newItems := by
      by_contra overlap
      exact apart _ List.mem_cons_self (max newItems list.items)
        ⟨by rw [oldPointer]; omega, by rw [oldPointer]; omega⟩ ⟨by omega, by omega⟩
    have different : list.items ≠ newItems := (system1.head_ne List.mem_cons_self).symm
    have laid := Laid.pair (show newItems + sizeofT * (list.capacity * 2) < 2 ^ 64 by omega)
      (show list.items + sizeofT * list.capacity < 2 ^ 64 by omega) different separate
    intro i less
    have length := stored.represents.length
    have copiedCells := @copyItems_cells σ sizeofT _ list.items newItems laid ⟨heap1, []⟩ different
      list.length i (by rw [if_pos rfl]; omega) (by rw [if_neg different]; omega) (by omega)
    rw [if_pos rfl, if_neg different, copied] at copiedCells
    have oldCells := stored.represents.cells i less
    rw [ListObject.view, viewOf_cells (List.mem_singleton_self _)] at oldCells
    have keptCells : cellsOf sizeofT heap1.mem list.items list.capacity =
        cellsOf sizeofT heap.mem list.items list.capacity :=
      cellsOf_congr (by omega) fun address lower upper => kept _ List.mem_cons_self address
        ⟨by rw [oldPointer]; exact lower, by rw [oldPointer]; omega⟩
    rw [copiedCells, keptCells, oldCells]

/-- A full list that moves takes its elements along. -/
theorem Stored.grown {newItems : Nat} {heap1 : Heap σ} {moved : ListMachine σ}
    (stored : Stored sizeofT limit base heap list contents) (noWrap : limit < 2 ^ 64)
    (sizePos : 0 < sizeofT) (full : list.length = list.capacity)
    (fits : SizeFits sizeofT (list.capacity * 2))
    (called : malloc mapPage fuel heap (sizeofT * (list.capacity * 2)) = .ok (newItems, heap1))
    (copied : HeapList.copyItems sizeofT ⟨heap1, []⟩ newItems list.items list.length = moved)
    (below : (free moved.heap list.items).heapEnd ≤ limit) :
    Stored sizeofT limit base (free moved.heap list.items)
        { list with items := newItems, capacity := list.capacity * 2 } contents ∧
      KeepsBytes base heap (free moved.heap list.items) := by
  have some := stored.represents.positive
  obtain ⟨inv, _⟩ := ListInv.grown noWrap stored.toListInv sizePos some full fits called copied below
  have newLarger := (roundUp16 (show sizeofT * (list.capacity * 2) ≤ 2 ^ 64 - 0x1000 from fits)).1
  have freedEnd := (free_bounds moved.heap list.items).heapEnd
  have movedEnd := copyItems_heapEnd sizeofT ⟨heap1, []⟩ newItems list.items list.length
  rw [copied] at movedEnd
  have between := stored.copied noWrap sizePos full fits called (by simp only at movedEnd; omega)
  rw [copied] at between
  obtain ⟨segments, system⟩ := between.system
  have bounds := system.block_bounds List.mem_cons_self
  simp only at bounds
  have freedKept : KeepsBytes _ moved.heap (free moved.heap list.items) :=
    free_keepsBytes system rfl noWrap (by omega)
  constructor
  · have shorter := stored.represents.fits
    have unbounded : sizeofT * (list.capacity * 2) ≤ 2 ^ 64 - 0x1000 := fits
    refine ⟨inv, List.mem_singleton_self _, ?_, stored.represents.length, by simp only; omega,
      by simp only; omega, by simp only; omega, ?_⟩
    · rw [ListObject.view, viewOf_cells (List.mem_singleton_self _), cellsOf_length]
    · intro i less
      have movedCells : cellsOf sizeofT (free moved.heap list.items).mem newItems
          (list.capacity * 2) = cellsOf sizeofT moved.heap.mem newItems (list.capacity * 2) :=
        cellsOf_congr (by omega) fun address lower upper =>
          freedKept _ List.mem_cons_self address ⟨lower, by simp only; omega⟩
      rw [ListObject.view, viewOf_cells (List.mem_singleton_self _), movedCells, between.cells i less]
  · intro block member address inside
    rw [freedKept block (List.mem_cons_of_mem _ member) address inside,
      between.kept block (List.mem_cons_of_mem _ member) address inside]

/-- Stores into the own block that leave other contents. -/
theorem Stored.rewritten {state : ListMachine σ} {length : Nat} {contents' : List Nat}
    (stored : Stored sizeofT limit base heap list contents)
    (storesIn : StoresIn sizeofT (list.block sizeofT) ⟨heap, []⟩ state)
    (represents : ListObject.Represents sizeofT { list with length := length }
      (list.view sizeofT state.heap.mem) contents') :
    Stored sizeofT limit base state.heap { list with length := length } contents' ∧
      KeepsBytes base heap state.heap := by
  have shorter : length ≤ list.capacity := by
    have fits := represents.fits
    have length := represents.length
    simp only at fits length
    omega
  exact ⟨⟨@ListInv.stored σ sizeofT limit base list ⟨heap, []⟩ state length stored.toListInv storesIn
    shorter, represents⟩, stored.keeps storesIn⟩

end

end OkeOS
