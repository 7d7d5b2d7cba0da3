import OkeOS.HeapHeld
import OkeOS.ListHeap

/-!
The room of a list.  As long as no size wraps around and no empty block has to grow, the items
lie in a block of the heap that is large enough, and every call stores inside of it.
-/

namespace OkeOS

open ByteMemory Tiling
open HeapSegHdr hiding free

section

variable {σ : Type} {sizeofT : Nat} {block : Block} {state first second third : ListMachine σ}

/-- `second` comes from `first` by stores of elements that lie in the block. -/
structure StoresIn (sizeofT : Nat) (block : Block) (first second : ListMachine σ) : Prop where
  heap : second.heap = { first.heap with mem := second.heap.mem }
  changes : ∀ address, second.heap.mem address ≠ first.heap.mem address →
    block.ptr ≤ address ∧ address < block.ptr + block.size
  stores : ∀ address ∈ second.stores, address ∈ first.stores ∨
    block.ptr ≤ address ∧ address + sizeofT ≤ block.ptr + block.size

theorem StoresIn.refl (state : ListMachine σ) : StoresIn sizeofT block state state :=
  ⟨rfl, fun _ changed => absurd rfl changed, fun _ member => .inl member⟩

theorem StoresIn.trans (left : StoresIn sizeofT block first second)
    (right : StoresIn sizeofT block second third) : StoresIn sizeofT block first third := by
  refine ⟨?_, ?_, ?_⟩
  · rw [right.heap, left.heap]
  · intro address changed
    by_cases same : second.heap.mem address = first.heap.mem address
    · exact right.changes address (by rwa [same])
    · exact left.changes address same
  · intro address member
    rcases right.stores address member with before | inside
    · exact left.stores address before
    · exact .inr inside

theorem elementAt_eq {items index : Nat} (bound : items + sizeofT * index < 2 ^ 64) :
    elementAt sizeofT items index = items + sizeofT * index := by
  rw [elementAt, mul64, Nat.mod_eq_of_lt (by omega), add64_of_lt bound]

variable {capacity : Nat} (room : sizeofT * capacity = block.size)
  (high : block.ptr + block.size < 2 ^ 64)

include room high

theorem setElement_storesIn {index : Nat} (state : ListMachine σ) (item : Nat)
    (inside : index < capacity) :
    StoresIn sizeofT block state (state.setElement sizeofT block.ptr index item) := by
  have within : sizeofT * (index + 1) ≤ sizeofT * capacity := Nat.mul_le_mul_left _ inside
  rw [Nat.mul_add, Nat.mul_one] at within
  have place := @elementAt_eq sizeofT block.ptr index (by omega)
  refine ⟨rfl, ?_, ?_⟩
  · intro address changed
    simp only [ListMachine.setElement, place] at changed
    by_contra outside
    exact changed (store_outside _ _ _ _ _ (by omega))
  · intro address member
    rcases List.mem_append.mp member with before | here
    · exact .inl before
    · rw [List.mem_singleton.mp here, place]
      exact .inr ⟨by omega, by omega⟩

theorem copyItems_storesIn {rounds : Nat} (state : ListMachine σ) (items : Nat)
    (inside : rounds ≤ capacity) :
    StoresIn sizeofT block state (HeapList.copyItems sizeofT state block.ptr items rounds) := by
  induction rounds with
  | zero => exact .refl state
  | succ i ih => exact (ih (by omega)).trans (setElement_storesIn room high _ _ (by omega))

theorem shiftItems_storesIn {rounds index : Nat} (state : ListMachine σ)
    (inside : index + rounds ≤ capacity) :
    StoresIn sizeofT block state (HeapList.shiftItems sizeofT state block.ptr index rounds) := by
  induction rounds with
  | zero => exact .refl state
  | succ i ih => exact (ih (by omega)).trans (setElement_storesIn room high _ _ (by omega))

end

theorem setElement_heapEnd {σ : Type} (sizeofT : Nat) (state : ListMachine σ)
    (items index item : Nat) :
    (state.setElement sizeofT items index item).heap.heapEnd = state.heap.heapEnd :=
  rfl

theorem copyItems_heapEnd {σ : Type} (sizeofT : Nat) (state : ListMachine σ)
    (newItems items rounds : Nat) :
    (HeapList.copyItems sizeofT state newItems items rounds).heap.heapEnd = state.heap.heapEnd := by
  induction rounds with
  | zero => rfl
  | succ i ih => rw [HeapList.copyItems, setElement_heapEnd, ih]

/-- The bytes that `malloc` is asked for do not wrap around, nor does their rounding to pages. -/
def SizeFits (sizeofT capacity : Nat) : Prop := sizeofT * capacity ≤ 2 ^ 64 - 0x1000

/-- A full list that can double its capacity. -/
def CanGrow (sizeofT : Nat) (list : ListObject) : Prop :=
  1 ≤ list.capacity ∧ SizeFits sizeofT (list.capacity * 2)

/-- The invariant of a run. -/
structure ListInv {σ : Type} (sizeofT limit : Nat) (base : List Block) (heap : Heap σ)
    (list : ListObject) : Prop where
  below : heap.heapEnd ≤ limit
  system : ∃ segments, SystemInv { heap := heap, live := list.live sizeofT base } segments
  length : list.length ≤ list.capacity
  fits : SizeFits sizeofT list.capacity
  null : list.items = 0 → list.capacity = 0

section

variable {σ : Type} {mapPage : σ → Nat → Except Fault σ} {equal : Nat → Nat → Bool}
  {fuel sizeofT limit : Nat} {base : List Block} {heap : Heap σ} {list : ListObject}

theorem SizeFits.mul64_eq {capacity : Nat} (fits : SizeFits sizeofT capacity) :
    mul64 sizeofT capacity = sizeofT * capacity := by
  unfold SizeFits at fits
  exact Nat.mod_eq_of_lt (by omega)

theorem ListInv.live_eq (inv : ListInv sizeofT limit base heap list) (some : 0 < list.capacity) :
    list.live sizeofT base = list.block sizeofT :: base :=
  if_neg fun null => by
    have := inv.null null
    omega

theorem ListInv.owner (inv : ListInv sizeofT limit base heap list) (some : 0 < list.capacity) :
    ∃ segments, HeapInv heap segments ∧ ∃ owner ∈ segments, owner.free = false ∧
      owner.addr + 29 = list.items ∧ sizeofT * list.capacity ≤ owner.length ∧
      list.items + sizeofT * list.capacity ≤ heap.heapEnd := by
  obtain ⟨segments, system⟩ := inv.system
  rw [inv.live_eq some] at system
  obtain ⟨owner, member, used, ownerPtr, enough⟩ := system.owners _ List.mem_cons_self
  have larger := (roundUp16 (show (list.block sizeofT).size ≤ 2 ^ 64 - 0x1000 by
    rw [ListObject.block, inv.fits.mul64_eq]; exact inv.fits)).1
  have size : (list.block sizeofT).size = sizeofT * list.capacity := inv.fits.mul64_eq
  have bounds := tiles_mem system.inv.tiles member
  have place : (list.block sizeofT).ptr = list.items := rfl
  simp only at bounds
  exact ⟨segments, system.inv, owner, member, used, ownerPtr, by omega, by omega⟩

theorem ListInv.stored {before state : ListMachine σ} {length : Nat}
    (inv : ListInv sizeofT limit base before.heap list)
    (storesIn : StoresIn sizeofT (list.block sizeofT) before state)
    (shorter : length ≤ list.capacity) :
    ListInv sizeofT limit base state.heap { list with length := length } := by
  obtain ⟨segments, system⟩ := inv.system
  have heapEq := storesIn.heap
  refine ⟨?_, ⟨segments, ?_⟩, shorter, inv.fits, inv.null⟩
  · rw [heapEq]
    exact inv.below
  · have rewritten := @SystemInv.rewrite σ { heap := before.heap, live := list.live sizeofT base } segments
      limit state.heap.mem system inv.below
    rw [heapEq]
    refine rewritten fun address changed => ?_
    have inside := storesIn.changes address changed
    rw [show (list.block sizeofT).size = sizeofT * list.capacity from inv.fits.mul64_eq] at inside
    have some : 0 < list.capacity := by
      by_contra none
      rw [Nat.eq_zero_of_not_pos none, Nat.mul_zero] at inside
      omega
    have larger := (roundUp16 (show sizeofT * list.capacity ≤ 2 ^ 64 - 0x1000 from inv.fits)).1
    refine .inl ⟨list.block sizeofT, ?_, inside.1, ?_⟩
    · simp only [inv.live_eq some, List.mem_cons_self]
    · rw [show (list.block sizeofT).size = sizeofT * list.capacity from inv.fits.mul64_eq]
      omega

/-- Every stored element lies among the items that the capacity promises. -/
def StoresInside (sizeofT : Nat) (list : ListObject) (stores : List Nat) : Prop :=
  ∀ address ∈ stores,
    list.items ≤ address ∧ address + sizeofT ≤ list.items + sizeofT * list.capacity

theorem StoresIn.inside {state state' : ListMachine σ}
    (storesIn : StoresIn sizeofT (list.block sizeofT) state state') (fits : SizeFits sizeofT list.capacity)
    (before : StoresInside sizeofT list state.stores) : StoresInside sizeofT list state'.stores := by
  intro address member
  rcases storesIn.stores address member with old | inside
  · exact before address old
  · rwa [show (list.block sizeofT).size = sizeofT * list.capacity from fits.mul64_eq] at inside

theorem newItems_ok {state state' : ListMachine σ} {capacity items : Nat}
    (made : HeapList.newItems mapPage fuel sizeofT state capacity = .ok (items, state')) :
    ∃ heap', malloc mapPage fuel state.heap (mul64 sizeofT capacity) = .ok (items, heap') ∧
      state' = { state with heap := heap' } := by
  obtain ⟨⟨pointer, heap'⟩, called, result⟩ := Fault.peel made
  simp only [Except.ok.injEq, Prod.mk.injEq] at result
  obtain ⟨rfl, rfl⟩ := result
  exact ⟨heap', called, rfl⟩

theorem withCapacity_ok {state state' : ListMachine σ} {capacity : Nat}
    (call : HeapList.withCapacity mapPage fuel sizeofT state capacity = .ok (list, state')) :
    ∃ items heap', malloc mapPage fuel state.heap (mul64 sizeofT capacity) = .ok (items, heap') ∧
      list = { items := items, length := 0, capacity := capacity } ∧
      state' = { state with heap := heap' } := by
  obtain ⟨⟨items, between⟩, made, result⟩ := Fault.peel call
  obtain ⟨heap', called, rfl⟩ := newItems_ok made
  simp only [Except.ok.injEq, Prod.mk.injEq] at result
  obtain ⟨rfl, rfl⟩ := result
  exact ⟨items, heap', called, rfl, rfl⟩

theorem withCapacity_end_le {state state' : ListMachine σ} {capacity : Nat}
    (call : HeapList.withCapacity mapPage fuel sizeofT state capacity = .ok (list, state')) :
    state.heap.heapEnd ≤ state'.heap.heapEnd := by
  obtain ⟨items, heap', called, _, rfl⟩ := withCapacity_ok call
  exact malloc_end_le called

/-- What a call leaves. -/
def Kept (sizeofT limit : Nat) (base : List Block) (list : ListObject) (state : ListMachine σ) :
    Prop :=
  ListInv sizeofT limit base state.heap list ∧ StoresInside sizeofT list state.stores

theorem Kept.stored {state state' : ListMachine σ} {length : Nat}
    (kept : Kept sizeofT limit base list state)
    (storesIn : StoresIn sizeofT (list.block sizeofT) state state')
    (shorter : length ≤ list.capacity) :
    Kept sizeofT limit base { list with length := length } state' :=
  ⟨kept.1.stored storesIn shorter, storesIn.inside kept.1.fits kept.2⟩

variable (noWrap : limit < 2 ^ 64)

include noWrap

theorem ListInv.high (inv : ListInv sizeofT limit base heap list) (some : 0 < list.capacity) :
    (list.block sizeofT).ptr + (list.block sizeofT).size < 2 ^ 64 := by
  obtain ⟨_, _, owner, _, _, _, _, ends⟩ := inv.owner some
  have below := inv.below
  rw [show (list.block sizeofT).size = sizeofT * list.capacity from inv.fits.mul64_eq]
  simp only [ListObject.block]
  omega

theorem withCapacity_spec {system : HeapSystem σ} {capacity : Nat} {state : ListMachine σ}
    {segments : List Segment} (inv : SystemInv system segments) (sizePos : 0 < sizeofT)
    (fits : SizeFits sizeofT capacity)
    (call : HeapList.withCapacity mapPage fuel sizeofT ⟨system.heap, []⟩ capacity =
      .ok (list, state))
    (below : state.heap.heapEnd ≤ limit) :
    ListInv sizeofT limit system.live state.heap list ∧ state.stores = [] := by
  obtain ⟨items, heap', called, rfl, rfl⟩ := withCapacity_ok call
  refine ⟨?_, rfl⟩
  rw [fits.mul64_eq] at called
  by_cases empty : capacity = 0
  · subst empty
    cases fuel with
    | zero => cases called
    | succ fuel =>
        rw [Nat.mul_zero, malloc, if_pos (show roundUp 0 0x10 = 0 from rfl), Except.ok.injEq,
          Prod.mk.injEq] at called
        obtain ⟨rfl, rfl⟩ := called
        exact ⟨below, ⟨segments, inv⟩, Nat.le_refl 0, fits, fun _ => rfl⟩
  · have positive : 0 < sizeofT * capacity := Nat.mul_pos sizePos (Nat.pos_of_ne_zero empty)
    obtain ⟨nonzero, ⟨segments', inv'⟩, _⟩ := @SystemInv.malloc_step σ mapPage _ _ _ _ limit
      (fun _ => False) _ _ _ inv positive fits called noWrap below fun _ spared => spared.elim
    refine ⟨below, ⟨segments', ?_⟩, Nat.zero_le _, fits, fun null => absurd null nonzero⟩
    rw [ListObject.live, if_neg nonzero, ListObject.block, fits.mul64_eq]
    exact inv'

/-- A full list that moves to a block of twice the size. -/
theorem ListInv.grown {newItems : Nat} {heap1 : Heap σ}
    (inv : ListInv sizeofT limit base heap list) (sizePos : 0 < sizeofT)
    (some : 0 < list.capacity) (full : list.length = list.capacity)
    (fits : SizeFits sizeofT (list.capacity * 2))
    (called : malloc mapPage fuel heap (sizeofT * (list.capacity * 2)) = .ok (newItems, heap1))
    {moved : ListMachine σ} (copied : HeapList.copyItems sizeofT ⟨heap1, []⟩ newItems list.items
      list.length = moved)
    (below : (free moved.heap list.items).heapEnd ≤ limit) :
    ListInv sizeofT limit base (free moved.heap list.items)
        { list with items := newItems, capacity := list.capacity * 2 } ∧
      StoresInside sizeofT { list with items := newItems, capacity := list.capacity * 2 }
        moved.stores := by
  obtain ⟨segments, system⟩ := inv.system
  rw [inv.live_eq some] at system
  obtain ⟨newList, newListEq⟩ : ∃ newList : ListObject,
      newList = { list with items := newItems, capacity := list.capacity * 2 } := ⟨_, rfl⟩
  have newBlock : newList.block sizeofT =
      { ptr := newItems, size := sizeofT * (list.capacity * 2) } := by
    rw [newListEq, ListObject.block, fits.mul64_eq]
  have freedEnd := (free_bounds moved.heap list.items).heapEnd
  have movedEnd := copyItems_heapEnd sizeofT ⟨heap1, []⟩ newItems list.items list.length
  rw [copied] at movedEnd
  have end1 : heap1.heapEnd ≤ limit := by
    simp only at movedEnd
    omega
  have positive : 0 < sizeofT * (list.capacity * 2) := Nat.mul_pos sizePos (by omega)
  obtain ⟨nonzero, ⟨segments1, system1⟩, _⟩ := @SystemInv.malloc_step σ mapPage _ _ _ _ limit
    (fun _ => False) _ _ _ system positive fits called noWrap end1 fun _ spared => spared.elim
  rw [← newBlock] at system1
  have larger := (roundUp16 (show (newList.block sizeofT).size ≤ 2 ^ 64 - 0x1000 by
    rw [newBlock]; exact fits)).1
  have bounds := system1.block_bounds List.mem_cons_self
  have size : (newList.block sizeofT).size = sizeofT * (list.capacity * 2) := by rw [newBlock]
  have pointer : (newList.block sizeofT).ptr = newItems := by rw [newBlock]
  have storesIn : StoresIn sizeofT (newList.block sizeofT) ⟨heap1, []⟩ moved := by
    rw [← copied, ← pointer]
    exact copyItems_storesIn size.symm (by simp only at bounds; omega) _ _ (by omega)
  have system2 := @SystemInv.rewrite σ _ segments1 limit moved.heap.mem system1 end1
    fun address changed => .inl ⟨newList.block sizeofT, List.mem_cons_self,
      (storesIn.changes address changed).1,
      Nat.lt_of_lt_of_le (storesIn.changes address changed).2 (Nat.add_le_add_left larger _)⟩
  have heapEq : { heap1 with mem := moved.heap.mem } = moved.heap := storesIn.heap.symm
  simp only [heapEq] at system2
  obtain ⟨_, ⟨segments3, system3⟩, _⟩ := @SystemInv.free_step σ _ _ _ _ limit (fun _ => False)
    (list.block sizeofT) system2 (by simp) rfl noWrap (by omega) fun _ spared => spared.elim
  have distinct := List.nodup_cons.mp system2.distinct
  have different : newList.block sizeofT ≠ list.block sizeofT := by
    intro same
    exact distinct.1 (by simp [same])
  rw [List.erase_cons_tail (by simpa using different), List.erase_cons_head] at system3
  have live : newList.live sizeofT base = newList.block sizeofT :: base := by
    rw [ListObject.live, if_neg]
    rw [newListEq]
    exact nonzero
  rw [← newListEq]
  have capacity : newList.capacity = list.capacity * 2 := by rw [newListEq]
  refine ⟨⟨below, ⟨segments3, ?_⟩, ?_, ?_, ?_⟩, ?_⟩
  · rw [live]
    exact system3
  · rw [capacity, newListEq]
    simp only
    omega
  · exact capacity ▸ fits
  · intro null
    rw [newListEq] at null
    exact absurd null nonzero
  · exact storesIn.inside (capacity ▸ fits) fun _ member => by cases member

theorem makeRoom_spec {list' : ListObject} {state' : ListMachine σ} (sizePos : 0 < sizeofT)
    (inv : ListInv sizeofT limit base heap list)
    (grows : list.length = list.capacity → CanGrow sizeofT list)
    (call : HeapList.makeRoom mapPage fuel sizeofT list ⟨heap, []⟩ = .ok (list', state'))
    (below : state'.heap.heapEnd ≤ limit) :
    ListInv sizeofT limit base state'.heap list' ∧ list'.length < list'.capacity ∧
      StoresInside sizeofT list' state'.stores := by
  rw [HeapList.makeRoom] at call
  split at call
  · rename_i full
    obtain ⟨some, fits⟩ := grows full
    obtain ⟨⟨newItems, between⟩, made, result⟩ := Fault.peel call
    obtain ⟨heap1, called, rfl⟩ := newItems_ok made
    simp only [Except.ok.injEq, Prod.mk.injEq] at result
    have unbounded : sizeofT * (list.capacity * 2) ≤ 2 ^ 64 - 0x1000 := fits
    have wider := Nat.le_mul_of_pos_left (list.capacity * 2) sizePos
    have doubled : mul64 list.capacity 2 = list.capacity * 2 := Nat.mod_eq_of_lt (by omega)
    rw [doubled] at called result
    rw [fits.mul64_eq] at called
    obtain ⟨rfl, rfl⟩ := result
    obtain ⟨grown, inside⟩ := inv.grown noWrap sizePos some full fits called rfl below
    simp only
    exact ⟨grown, by omega, inside⟩
  · rename_i notFull
    simp only [Except.ok.injEq, Prod.mk.injEq] at call
    obtain ⟨rfl, rfl⟩ := call
    have shorter := inv.length
    exact ⟨inv, by omega, fun _ member => by cases member⟩

theorem add_kept {list' : ListObject} {state' : ListMachine σ} {item : Nat} (sizePos : 0 < sizeofT)
    (inv : ListInv sizeofT limit base heap list)
    (grows : list.length = list.capacity → CanGrow sizeofT list)
    (call : HeapList.add mapPage fuel sizeofT list ⟨heap, []⟩ item = .ok (list', state'))
    (below : state'.heap.heapEnd ≤ limit) : Kept sizeofT limit base list' state' := by
  obtain ⟨⟨roomy, between⟩, made, result⟩ := Fault.peel call
  simp only [Except.ok.injEq, Prod.mk.injEq] at result
  obtain ⟨rfl, rfl⟩ := result
  obtain ⟨inv', room, inside⟩ := makeRoom_spec noWrap sizePos inv grows made below
  have kept : Kept sizeofT limit base roomy between := ⟨inv', inside⟩
  have fits : sizeofT * roomy.capacity ≤ 2 ^ 64 - 0x1000 := inv'.fits
  have wider := Nat.le_mul_of_pos_left roomy.capacity sizePos
  have counted : add64 roomy.length 1 = roomy.length + 1 := add64_of_lt (by omega)
  rw [counted]
  exact kept.stored (setElement_storesIn inv'.fits.mul64_eq.symm
    (inv'.high noWrap (by omega)) between item room) (by omega)

theorem removeAt_kept (sizePos : 0 < sizeofT) (inv : ListInv sizeofT limit base heap list)
    (index : Nat) : Kept sizeofT limit base (HeapList.removeAt sizeofT list ⟨heap, []⟩ index).1
      (HeapList.removeAt sizeofT list ⟨heap, []⟩ index).2 := by
  have kept : Kept sizeofT limit base list ⟨heap, []⟩ := ⟨inv, fun _ member => by cases member⟩
  rw [HeapList.removeAt]
  split
  · exact kept
  · rename_i inside
    have length := inv.length
    have fits : sizeofT * list.capacity ≤ 2 ^ 64 - 0x1000 := inv.fits
    have wider := Nat.le_mul_of_pos_left list.capacity sizePos
    have shorter : sub64 list.length 1 = list.length - 1 := sub64_of_le (by omega) (by omega)
    rw [shorter]
    exact kept.stored (shiftItems_storesIn inv.fits.mul64_eq.symm (inv.high noWrap (by omega)) _
      (by omega)) (by omega)

theorem ListInv.call {list' : ListObject} {state' : ListMachine σ} {change : ListChange}
    (sizePos : 0 < sizeofT) (inv : ListInv sizeofT limit base heap list)
    (grows : ∀ item, change = .add item → list.length = list.capacity → CanGrow sizeofT list)
    (call : HeapList.call mapPage fuel sizeofT equal list ⟨heap, []⟩ change = .ok (list', state'))
    (below : state'.heap.heapEnd ≤ limit) : Kept sizeofT limit base list' state' := by
  have kept : Kept sizeofT limit base list ⟨heap, []⟩ := ⟨inv, fun _ member => by cases member⟩
  cases change with
  | add item => exact add_kept noWrap sizePos inv (grows item rfl) call below
  | removeAt index =>
      simp only [HeapList.call, Except.ok.injEq] at call
      have removed := removeAt_kept noWrap sizePos inv index
      rwa [call] at removed
  | removeItem item =>
      simp only [HeapList.call, Except.ok.injEq, HeapList.removeItem] at call
      split at call
      · rename_i index found
        have removed := removeAt_kept noWrap sizePos inv index
        rwa [call] at removed
      · simp only [Prod.mk.injEq] at call
        obtain ⟨rfl, rfl⟩ := call
        exact kept
  | set index item =>
      simp only [HeapList.call, Except.ok.injEq, Prod.mk.injEq, HeapList.set] at call
      obtain ⟨rfl, rfl⟩ := call
      split
      · exact kept
      · rename_i inside
        have length := inv.length
        exact kept.stored (setElement_storesIn inv.fits.mul64_eq.symm
          (inv.high noWrap (by omega)) _ item (by omega)) length
  | clear =>
      simp only [HeapList.call, Except.ok.injEq, Prod.mk.injEq] at call
      obtain ⟨rfl, rfl⟩ := call
      exact kept.stored (.refl _) (Nat.zero_le _)

theorem ListRun.kept {stores : List Nat} (sizePos : 0 < sizeofT)
    (run : ListRun mapPage equal sizeofT limit (SizeFits sizeofT) (CanGrow sizeofT) base heap list
      stores) : Kept sizeofT limit base list ⟨heap, stores⟩ := by
  induction run with
  | construct run _ fits call below =>
      have ends := withCapacity_end_le call
      obtain ⟨segments, inv⟩ := run.inv (by simp only at ends; omega)
      obtain ⟨inv', empty⟩ := withCapacity_spec noWrap inv sizePos fits call below
      exact ⟨inv', by simp [StoresInside, empty]⟩
  | call _ grows call below ih => exact ih.1.call noWrap sizePos grows call below
  | others _ call same below ih =>
      obtain ⟨segments, system⟩ := ih.1.system
      obtain ⟨segments', system'⟩ := (system.call call (by simp only; omega)).1
      refine ⟨⟨below, ⟨segments', system'.perm same⟩, ih.1.length, ih.1.fits, ih.1.null⟩, ?_⟩
      exact fun _ member => by cases member
  | @write base heap list stores block address byte _ member inside ih =>
      obtain ⟨segments, system⟩ := ih.1.system
      have live : block ∈ list.live sizeofT base := by
        rw [ListObject.live]
        split
        · exact member
        · exact List.mem_cons_of_mem _ member
      refine ⟨⟨ih.1.below, ⟨segments, system.write byte live inside⟩, ih.1.length, ih.1.fits,
        ih.1.null⟩, ?_⟩
      exact fun _ member => by cases member

/-- The room of a list, and what its last call has stored. -/
structure HasRoom {σ : Type} (sizeofT : Nat) (heap : Heap σ) (list : ListObject)
    (stores : List Nat) : Prop where
  length : list.length ≤ list.capacity
  block : 0 < list.capacity → ∃ segments, HeapInv heap segments ∧ ∃ owner ∈ segments,
    owner.free = false ∧ owner.addr + 29 = list.items ∧ sizeofT * list.capacity ≤ owner.length
  stores : StoresInside sizeofT list stores

/-- In every state of a run whose capacities meet the condition the list has room. -/
theorem list_hasRoom {stores : List Nat} (sizePos : 0 < sizeofT)
    (run : ListRun mapPage equal sizeofT limit (SizeFits sizeofT) (CanGrow sizeofT) base heap list
      stores) : HasRoom sizeofT heap list stores := by
  obtain ⟨inv, inside⟩ := run.kept noWrap sizePos
  refine ⟨inv.length, fun some => ?_, inside⟩
  obtain ⟨segments, chain, owner, member, used, ownerPtr, enough, _⟩ := inv.owner some
  exact ⟨segments, chain, owner, member, used, ownerPtr, enough⟩

end

/-- Three elements of four bytes are added to a list that is made for two: the end of the heap and
the list after each call. -/
def threeAdds : Except Fault (List (Nat × ListObject)) := do
  let heap ← initHeap mapAny emptyHeap 0x1000 1
  let (made, state) ← HeapList.withCapacity mapAny 8 4 ⟨heap, []⟩ 2
  let (first, state₁) ← HeapList.add mapAny 8 4 made ⟨state.heap, []⟩ 7
  let (second, state₂) ← HeapList.add mapAny 8 4 first ⟨state₁.heap, []⟩ 8
  let (third, state₃) ← HeapList.add mapAny 8 4 second ⟨state₂.heap, []⟩ 9
  .ok [(state.heap.heapEnd, made), (state₁.heap.heapEnd, first), (state₂.heap.heapEnd, second),
    (state₃.heap.heapEnd, third)]

/-- The list fills its block, and the third element moves it to a larger one. -/
theorem list_hasRoom_onePage : ∃ (heap : Heap Unit) (list : ListObject) (stores : List Nat),
    list.length = 3 ∧ list.capacity = 4 ∧ HasRoom 4 heap list stores := by
  have evaluated : threeAdds =
      .ok [(0x2000, ⟨0x101d, 0, 2⟩), (0x2000, ⟨0x101d, 1, 2⟩), (0x2000, ⟨0x101d, 2, 2⟩),
        (0x2000, ⟨0x104a, 3, 4⟩)] := by decide +kernel
  obtain ⟨heap, booted, evaluated⟩ := Fault.peel evaluated
  obtain ⟨⟨made, state⟩, construct, evaluated⟩ := Fault.peel evaluated
  obtain ⟨⟨first, state₁⟩, add₁, evaluated⟩ := Fault.peel evaluated
  obtain ⟨⟨second, state₂⟩, add₂, evaluated⟩ := Fault.peel evaluated
  obtain ⟨⟨third, state₃⟩, add₃, evaluated⟩ := Fault.peel evaluated
  simp only [Except.ok.injEq, List.cons.injEq, Prod.mk.injEq, and_true] at evaluated
  obtain ⟨⟨end₀, rfl⟩, ⟨end₁, rfl⟩, ⟨end₂, rfl⟩, end₃, rfl⟩ := evaluated
  have boot : HeapRun mapAny { heap := heap, live := [] } :=
    .init (by decide) (by decide) (by decide) (by decide) booted
  have run := @ListRun.construct Unit mapAny (fun first second => first == second) 4 0x2000
    (SizeFits 4) (CanGrow 4) _ 8 2 _ _ boot (by decide) (show 4 * 2 ≤ 2 ^ 64 - 0x1000 by decide)
    construct end₀.le
  have run₁ := @ListRun.call _ _ _ _ _ _ _ _ _ _ _ _ 8 (.add 7) _ run
    (fun _ _ full => absurd full (by decide)) add₁ end₁.le
  have run₂ := @ListRun.call _ _ _ _ _ _ _ _ _ _ _ _ 8 (.add 8) _ run₁
    (fun _ _ full => absurd full (by decide)) add₂ end₂.le
  have run₃ := @ListRun.call _ _ _ _ _ _ _ _ _ _ _ _ 8 (.add 9) _ run₂
    (fun _ _ _ => ⟨by decide, show 4 * (2 * 2) ≤ 2 ^ 64 - 0x1000 by decide⟩) add₃ end₃.le
  exact ⟨_, _, _, rfl, rfl, list_hasRoom (by decide) (by decide) run₃⟩

/-- An element that is added to a list of capacity zero is stored at address zero. -/
theorem list_noRoom : ∃ (base : List Block) (heap : Heap Unit) (list : ListObject)
    (limit address : Nat), limit < 2 ^ 64 ∧
      ListRun mapAny (fun first second => first == second) 8 limit (fun _ => True) (fun _ => True)
        base heap list [address] ∧
      ¬list.length ≤ list.capacity ∧ address = 0 := by
  obtain ⟨heap, fuel, pointer, heap', run, inv, _, _, noWrap⟩ :=
    firstBlock_run (by decide : 1 ≤ 1) (by decide)
  have high := inv.endHigh
  have empty : ListRun mapAny (fun first second => first == second) 8 heap.heapEnd (fun _ => True)
      (fun _ => True) [] heap { items := 0, length := 0, capacity := 0 } [] :=
    @ListRun.construct Unit mapAny _ 8 _ _ _ _ 1 0 _ ⟨heap, []⟩ run (by decide) trivial rfl
      (Nat.le_refl _)
  obtain ⟨stored, storedEq⟩ : ∃ stored, stored =
      ListMachine.setElement 8 (⟨free heap 0, []⟩ : ListMachine Unit) 0 0 7 := ⟨_, rfl⟩
  have added : HeapList.call mapAny 1 8 (fun first second => first == second)
      { items := 0, length := 0, capacity := 0 } ⟨heap, []⟩ (.add 7) =
        .ok ({ items := 0, length := 1, capacity := 0 }, stored) := by
    rw [storedEq]
    rfl
  have ends : stored.heap.heapEnd = heap.heapEnd := by
    rw [storedEq, setElement_heapEnd, (free_bounds heap 0).heapEnd]
  have stores : stored.stores = [0] := by
    rw [storedEq]
    simp [ListMachine.setElement, elementAt, mul64, add64]
  have final := empty.call (fun _ _ _ => trivial) added ends.le
  rw [stores] at final
  exact ⟨_, _, _, heap.heapEnd, 0, high, final, Nat.not_succ_le_zero 0, rfl⟩

end OkeOS
