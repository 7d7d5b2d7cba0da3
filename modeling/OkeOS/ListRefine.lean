import Mathlib.Algebra.Order.BigOperators.Group.List
import OkeOS.ListCore

/-!
`List` behaves like a mathematical list: the cells below `length` are its contents, every
call changes them as the operation on lists does and returns the same answer, and no call
touches a cell outside the block of `capacity` cells.
-/

namespace OkeOS

/-! One block with new cells. -/

section

variable {T : Type} {blocks : Blocks T} {pointer other index : Nat} {cells : List T} {item : T}

def Blocks.put (blocks : Blocks T) (pointer : Nat) (cells : List T) : Blocks T :=
  { blocks with cells := Function.update blocks.cells pointer cells }

@[simp] theorem Blocks.put_live : (blocks.put pointer cells).live = blocks.live := rfl

@[simp] theorem Blocks.put_cells : (blocks.put pointer cells).cells pointer = cells := by
  simp [Blocks.put]

@[simp] theorem Blocks.put_same : blocks.put pointer (blocks.cells pointer) = blocks := by
  rw [Blocks.put, Function.update_eq_self]

theorem Blocks.read_live (live : pointer ∈ blocks.live) :
    blocks.read pointer index = (blocks.cells pointer)[index]? := if_pos live

theorem Blocks.read_put (live : pointer ∈ blocks.live) :
    (blocks.put pointer cells).read pointer index = cells[index]? := by
  have putLive : pointer ∈ (blocks.put pointer cells).live := live
  rw [Blocks.read_live putLive, Blocks.put_cells]

theorem Blocks.read_put_other (different : other ≠ pointer) :
    (blocks.put pointer cells).read other index = blocks.read other index := by
  simp only [Blocks.read, Blocks.put, Function.update_of_ne different]

theorem Blocks.write_live (live : pointer ∈ blocks.live)
    (inside : index < (blocks.cells pointer).length) :
    blocks.write pointer index item =
      some (blocks.put pointer ((blocks.cells pointer).set index item)) :=
  if_pos ⟨live, inside⟩

theorem Blocks.write_put (live : pointer ∈ blocks.live) (inside : index < cells.length) :
    (blocks.put pointer cells).write pointer index item =
      some (blocks.put pointer (cells.set index item)) := by
  have putLive : pointer ∈ (blocks.put pointer cells).live := live
  rw [Blocks.write_live putLive (by rwa [Blocks.put_cells]), Blocks.put_cells]
  simp [Blocks.put]

end

namespace ListObject

/-! The loops. -/

section

variable {T : Type} {blocks : Blocks T} {items : Nat}

theorem copyItems_put {newItems : Nat} (live : items ∈ blocks.live)
    (newLive : newItems ∈ blocks.live) (different : items ≠ newItems) {count : Nat}
    (enough : count ≤ (blocks.cells items).length)
    (newEnough : count ≤ (blocks.cells newItems).length) :
    ∃ cells, copyItems blocks newItems items count = some (blocks.put newItems cells) ∧
      cells.length = (blocks.cells newItems).length ∧
      ∀ j, cells[j]? = if j < count then (blocks.cells items)[j]? else (blocks.cells newItems)[j]? := by
  induction count with
  | zero => exact ⟨_, by rw [copyItems, Blocks.put_same], rfl, by simp⟩
  | succ count ih =>
      obtain ⟨cells, run, length, copied⟩ := ih (by omega) (by omega)
      obtain ⟨item, found⟩ : ∃ item, (blocks.cells items)[count]? = some item :=
        ⟨_, List.getElem?_eq_getElem (by omega)⟩
      refine ⟨cells.set count item, ?_, by rw [List.length_set, length], ?_⟩
      · rw [copyItems, run]
        simp only [Option.bind_eq_bind, Option.bind_some]
        rw [Blocks.read_put_other different, Blocks.read_live live, found]
        exact Blocks.write_put newLive (by omega)
      · intro j
        rw [List.getElem?_set, copied]
        by_cases last : count = j
        · subst last
          rw [if_pos rfl, if_pos (by omega), if_pos (by omega), found]
        · by_cases earlier : j < count
          · rw [if_neg last, if_pos earlier, if_pos (by omega)]
          · rw [if_neg last, if_neg earlier, if_neg (by omega)]

theorem shiftItems_put (live : items ∈ blocks.live) {index count : Nat}
    (enough : index + count < (blocks.cells items).length) :
    ∃ cells, shiftItems blocks items index count = some (blocks.put items cells) ∧
      cells.length = (blocks.cells items).length ∧
      ∀ j, cells[j]? = if index ≤ j ∧ j < index + count then (blocks.cells items)[j + 1]?
        else (blocks.cells items)[j]? := by
  induction count with
  | zero => exact ⟨_, by rw [shiftItems, Blocks.put_same], rfl, fun j => by rw [if_neg (by omega)]⟩
  | succ count ih =>
      obtain ⟨cells, run, length, shifted⟩ := ih (by omega)
      obtain ⟨item, found⟩ : ∃ item, (blocks.cells items)[index + count + 1]? = some item :=
        ⟨_, List.getElem?_eq_getElem (by omega)⟩
      refine ⟨cells.set (index + count) item, ?_, by rw [List.length_set, length], ?_⟩
      · rw [shiftItems, run]
        simp only [Option.bind_eq_bind, Option.bind_some]
        rw [Blocks.read_put live, shifted, if_neg (by omega), found]
        exact Blocks.write_put live (by omega)
      · intro j
        rw [List.getElem?_set, shifted]
        by_cases last : index + count = j
        · subst last
          rw [if_pos rfl, if_pos (by omega), if_pos (by omega), found]
        · by_cases inside : index ≤ j ∧ j < index + count
          · rw [if_neg last, if_pos inside, if_pos (by omega)]
          · rw [if_neg last, if_neg inside, if_neg (by omega)]

theorem swapItems_put (live : items ∈ blocks.live) {length count : Nat}
    (enough : length ≤ (blocks.cells items).length) (half : count ≤ length / 2) :
    ∃ cells, swapItems blocks items length count = some (blocks.put items cells) ∧
      cells.length = (blocks.cells items).length ∧
      ∀ j, cells[j]? = if j < count ∨ (length - count ≤ j ∧ j < length)
        then (blocks.cells items)[length - 1 - j]? else (blocks.cells items)[j]? := by
  induction count with
  | zero => exact ⟨_, by rw [swapItems, Blocks.put_same], rfl, fun j => by rw [if_neg (by omega)]⟩
  | succ count ih =>
      obtain ⟨cells, run, sameLength, swapped⟩ := ih (by omega)
      obtain ⟨low, lowFound⟩ : ∃ item, (blocks.cells items)[count]? = some item :=
        ⟨_, List.getElem?_eq_getElem (by omega)⟩
      obtain ⟨high, highFound⟩ : ∃ item, (blocks.cells items)[length - count - 1]? = some item :=
        ⟨_, List.getElem?_eq_getElem (by omega)⟩
      refine ⟨(cells.set count high).set (length - count - 1) low, ?_,
        by rw [List.length_set, List.length_set, sameLength], ?_⟩
      · rw [swapItems, run]
        simp only [Option.bind_eq_bind, Option.bind_some]
        rw [Blocks.read_put live, Blocks.read_put live, swapped, swapped, if_neg (by omega),
          if_neg (by omega), lowFound, highFound]
        simp only [Option.bind_some]
        rw [Blocks.write_put live (by omega)]
        exact Blocks.write_put live (by rw [List.length_set]; omega)
      · intro j
        rw [List.getElem?_set, List.getElem?_set, swapped, List.length_set]
        by_cases isHigh : length - count - 1 = j
        · subst isHigh
          rw [if_pos rfl, if_pos (by omega), if_pos (by omega),
            show length - 1 - (length - count - 1) = count by omega, lowFound]
        · rw [if_neg isHigh]
          by_cases isLow : count = j
          · subst isLow
            rw [if_pos rfl, if_pos (by omega), if_pos (by omega),
              show length - 1 - count = length - count - 1 by omega, highFound]
          · rw [if_neg isLow]
            by_cases done : j < count ∨ (length - count ≤ j ∧ j < length)
            · rw [if_pos done, if_pos (by omega)]
            · rw [if_neg done, if_neg (by omega)]

theorem search_eq [DecidableEq T] {item : T} (rest : List T) (i : Nat)
    (same : ∀ k < rest.length, blocks.read items (i + k) = rest[k]?) :
    search blocks items item rest.length i = some ((rest.idxOf? item).map (· + i)) := by
  induction rest generalizing i with
  | nil => rfl
  | cons first rest ih =>
      have head := same 0 (by simp)
      have tail : ∀ k < rest.length, blocks.read items (i + 1 + k) = rest[k]? := by
        intro k less
        have shifted := same (k + 1) (by simpa using less)
        rwa [show i + (k + 1) = i + 1 + k by omega, List.getElem?_cons_succ] at shifted
      simp only [Nat.add_zero, List.getElem?_cons_zero] at head
      rw [List.length_cons, search, head]
      simp only [Option.bind_eq_bind, Option.bind_some, List.idxOf?_cons]
      by_cases found : first = item
      · simp [found]
      · rw [if_neg found, ih (i + 1) tail]
        simp only [beq_iff_eq, found, if_false, Option.map_map]
        congr 1
        congr 1
        funext k
        simp only [Function.comp_apply]
        omega

end

/-! The calls. -/

/-- The cells below `length` are `contents`. -/
structure Represents {T : Type} (sizeofT : Nat) (list : ListObject) (blocks : Blocks T)
    (contents : List T) : Prop where
  live : list.items ∈ blocks.live
  room : (blocks.cells list.items).length = list.capacity
  length : list.length = contents.length
  fits : contents.length ≤ list.capacity
  positive : 0 < list.capacity
  small : sizeofT * list.capacity < 2 ^ 64
  cells : ∀ i < contents.length, (blocks.cells list.items)[i]? = contents[i]?

section

variable {T : Type} {allocator : Allocator T} {list : ListObject} {blocks : Blocks T}
  {contents : List T}

theorem capacity_lt {sizeofT capacity : Nat} (sizePos : 0 < sizeofT)
    (small : sizeofT * capacity < 2 ^ 64) : capacity < 2 ^ 64 :=
  Nat.lt_of_le_of_lt (Nat.le_mul_of_pos_left capacity sizePos) small

theorem newItems_spec (blocks : Blocks T) {capacity : Nat} (positive : 0 < capacity)
    (small : allocator.sizeofT * capacity < 2 ^ 64) :
    ∃ pointer cells, blocks.newItems allocator capacity = (pointer, blocks.insert pointer cells) ∧
      pointer ∉ blocks.live ∧ cells.length = capacity := by
  have sizePos := allocator.sizePos
  have bytes : mul64 allocator.sizeofT capacity = allocator.sizeofT * capacity :=
    Nat.mod_eq_of_lt small
  have bytesPos : 0 < allocator.sizeofT * capacity := Nat.mul_pos sizePos positive
  refine ⟨_, _, rfl, ?_, ?_⟩
  · rw [bytes]
    exact allocator.fresh blocks _ bytesPos
  · rw [bytes, allocator.room blocks _ bytesPos, Nat.mul_div_cancel_left _ sizePos]

theorem withCapacity_represents (blocks : Blocks T) {capacity : Nat} (positive : 0 < capacity)
    (small : allocator.sizeofT * capacity < 2 ^ 64) :
    Represents allocator.sizeofT (withCapacity allocator blocks capacity).1
      (withCapacity allocator blocks capacity).2 ([] : List T) := by
  obtain ⟨pointer, cells, made, _, length⟩ := newItems_spec blocks positive small
  rw [withCapacity, made]
  exact ⟨List.mem_cons_self, by simpa [Blocks.insert] using length, rfl, Nat.zero_le _, positive,
    small, by simp⟩

section

variable (represents : Represents allocator.sizeofT list blocks contents)

include represents

theorem Represents.length_lt : contents.length < 2 ^ 64 :=
  Nat.lt_of_le_of_lt represents.fits (capacity_lt allocator.sizePos represents.small)

theorem grow_spec (full : list.length = list.capacity)
    (small : allocator.sizeofT * (2 * list.capacity) < 2 ^ 64) :
    ∃ list' blocks', list.makeRoom allocator blocks = some (list', blocks') ∧
      Represents allocator.sizeofT list' blocks' contents ∧ list'.length < list'.capacity := by
  have positive := represents.positive
  have listLength := represents.length
  have doubled : mul64 list.capacity 2 = 2 * list.capacity := by
    have bound := capacity_lt allocator.sizePos small
    rw [mul64, Nat.mod_eq_of_lt (by omega), Nat.mul_comm]
  obtain ⟨pointer, cells, made, fresh, length⟩ :=
    newItems_spec blocks (show 0 < 2 * list.capacity by omega) small
  have different : list.items ≠ pointer := fun same => fresh (same ▸ represents.live)
  have oldCells : (blocks.insert pointer cells).cells list.items = blocks.cells list.items := by
    simp [Blocks.insert, different]
  have newCells : (blocks.insert pointer cells).cells pointer = cells := by
    simp [Blocks.insert]
  have newLive : pointer ∈ (blocks.insert pointer cells).live := List.mem_cons_self
  have oldLive : list.items ∈ (blocks.insert pointer cells).live :=
    List.mem_cons_of_mem _ represents.live
  generalize blocks.insert pointer cells = inserted at *
  obtain ⟨copied, run, copiedLength, copiedCells⟩ := copyItems_put oldLive newLive different
    (show list.length ≤ _ by rw [oldCells, represents.room]; omega)
    (by rw [newCells, length]; omega)
  have grown : list.makeRoom allocator blocks =
      some ({ list with items := pointer, capacity := 2 * list.capacity },
        (inserted.put pointer copied).free list.items) := by
    rw [makeRoom, if_pos full]
    simp only [doubled, made, run, Option.bind_eq_bind, Option.bind_some]
  refine ⟨_, _, grown, ⟨?_, ?_, listLength, by simp only; omega, by simp only; omega, small, ?_⟩,
    by simp only; omega⟩
  · simp [Blocks.free, Ne.symm different, newLive]
  · simp only [Blocks.free, Blocks.put_cells]
    rw [copiedLength, newCells, length]
  · intro i less
    simp only [Blocks.free, Blocks.put_cells]
    rw [copiedCells, if_pos (by omega), oldCells]
    exact represents.cells i less

theorem makeRoom_spec
    (small : list.length = list.capacity → allocator.sizeofT * (2 * list.capacity) < 2 ^ 64) :
    ∃ list' blocks', list.makeRoom allocator blocks = some (list', blocks') ∧
      Represents allocator.sizeofT list' blocks' contents ∧ list'.length < list'.capacity := by
  by_cases full : list.length = list.capacity
  · exact grow_spec represents full (small full)
  · have fits := represents.fits
    have listLength := represents.length
    exact ⟨list, blocks, if_neg full, represents, by omega⟩

theorem add_spec (item : T)
    (small : list.length = list.capacity → allocator.sizeofT * (2 * list.capacity) < 2 ^ 64) :
    ∃ list' blocks', list.add allocator blocks item = some (list', blocks') ∧
      Represents allocator.sizeofT list' blocks' (contents ++ [item]) := by
  obtain ⟨roomy, between, grown, represents', less⟩ := makeRoom_spec represents small
  have room := represents'.room
  have listLength := represents'.length
  have word := capacity_lt allocator.sizePos represents'.small
  have next : add64 roomy.length 1 = roomy.length + 1 := add64_of_lt (by omega)
  have added : list.add allocator blocks item = some ({ roomy with length := roomy.length + 1 },
      between.put roomy.items ((between.cells roomy.items).set roomy.length item)) := by
    rw [add, grown]
    simp only [Option.bind_eq_bind, Option.bind_some, next]
    rw [Blocks.write_live represents'.live (by omega)]
    rfl
  refine ⟨_, _, added, ?_⟩
  refine ⟨represents'.live, ?_, ?_, ?_, represents'.positive, represents'.small, ?_⟩
  · simpa using room
  · simp only [List.length_append, List.length_singleton]
    omega
  · rw [List.length_append, List.length_singleton]
    simp only
    omega
  · intro i less'
    rw [List.length_append, List.length_singleton] at less'
    simp only [Blocks.put_cells]
    rw [List.getElem?_set]
    by_cases last : roomy.length = i
    · rw [if_pos last, if_pos (by omega), List.getElem?_append_right (by omega),
        show i - contents.length = 0 by omega]
      rfl
    · rw [if_neg last, List.getElem?_append_left (by omega)]
      exact represents'.cells i (by omega)

theorem removeAt_spec (index : Nat) :
    ∃ list' blocks', list.removeAt blocks index = some (list', blocks') ∧
      Represents allocator.sizeofT list' blocks' (contents.eraseIdx index) := by
  have listLength := represents.length
  have word := represents.length_lt
  have fits := represents.fits
  have room := represents.room
  rw [removeAt]
  by_cases outside : index ≥ list.length
  · rw [if_pos outside, List.eraseIdx_of_length_le (by omega)]
    exact ⟨list, blocks, rfl, represents⟩
  · have shorter : sub64 list.length 1 = contents.length - 1 := by
      rw [sub64_of_le (by omega) (by omega), listLength]
    obtain ⟨cells, run, cellsLength, shifted⟩ := shiftItems_put represents.live
      (show index + (contents.length - 1 - index) < _ by rw [room]; omega)
    have erased : (contents.eraseIdx index).length = contents.length - 1 :=
      List.length_eraseIdx_of_lt (by omega)
    rw [if_neg outside, shorter, run]
    refine ⟨_, _, rfl, represents.live, ?_, ?_, ?_, represents.positive, represents.small, ?_⟩
    · rw [Blocks.put_cells, cellsLength, room]
    · rw [erased]
    · rw [erased]
      simp only
      omega
    · intro i less
      rw [erased] at less
      rw [Blocks.put_cells, shifted, List.getElem?_eraseIdx]
      by_cases before : i < index
      · rw [if_neg (by omega), if_pos before]
        exact represents.cells i (by omega)
      · rw [if_pos (by omega), if_neg before]
        exact represents.cells (i + 1) (by omega)

theorem set_spec (index : Nat) (item : T) :
    ∃ blocks', list.set blocks index item = some blocks' ∧
      Represents allocator.sizeofT list blocks' (contents.set index item) := by
  have listLength := represents.length
  have fits := represents.fits
  have room := represents.room
  rw [set]
  by_cases outside : index ≥ list.length
  · rw [if_pos outside, List.set_eq_of_length_le (by omega)]
    exact ⟨blocks, rfl, represents⟩
  · rw [if_neg outside, Blocks.write_live represents.live (by omega)]
    refine ⟨_, rfl, represents.live, ?_, ?_, ?_, represents.positive, represents.small, ?_⟩
    · rw [Blocks.put_cells, List.length_set, room]
    · rw [List.length_set, listLength]
    · rwa [List.length_set]
    · intro i less
      rw [List.length_set] at less
      rw [Blocks.put_cells, List.getElem?_set, List.getElem?_set, represents.cells i less]
      by_cases here : index = i
      · rw [if_pos here, if_pos here, if_pos (by omega), if_pos (by omega)]
      · rw [if_neg here, if_neg here]

theorem clear_spec : Represents allocator.sizeofT list.clear blocks ([] : List T) :=
  ⟨represents.live, represents.room, rfl, Nat.zero_le _, represents.positive, represents.small,
    by simp⟩

theorem reverse_spec : ∃ blocks', list.reverse blocks = some blocks' ∧
    Represents allocator.sizeofT list blocks' contents.reverse := by
  have listLength := represents.length
  have fits := represents.fits
  have room := represents.room
  obtain ⟨cells, run, cellsLength, swapped⟩ := swapItems_put represents.live
    (show list.length ≤ _ by rw [room]; omega) (Nat.le_refl (list.length / 2))
  refine ⟨_, run, represents.live, ?_, ?_, ?_, represents.positive, represents.small, ?_⟩
  · rw [Blocks.put_cells, cellsLength, room]
  · rw [List.length_reverse, listLength]
  · rwa [List.length_reverse]
  · intro i less
    rw [List.length_reverse] at less
    rw [Blocks.put_cells, swapped, List.getElem?_reverse less]
    by_cases moved : i < list.length / 2 ∨ (list.length - list.length / 2 ≤ i ∧ i < list.length)
    · rw [if_pos moved, listLength]
      exact represents.cells _ (by omega)
    · rw [if_neg moved, represents.cells i less, show contents.length - 1 - i = i by omega]

theorem get_spec (null : T) (index : Nat) :
    list.get null blocks index = some (contents[index]?.getD null) := by
  have listLength := represents.length
  rw [get]
  by_cases outside : index ≥ list.length
  · rw [if_pos outside, List.getElem?_eq_none (by omega), Option.getD_none]
  · rw [if_neg outside, Blocks.read_live represents.live, represents.cells index (by omega),
      List.getElem?_eq_getElem (show index < contents.length by omega), Option.getD_some]

variable [DecidableEq T]

theorem search_spec (item : T) :
    search blocks list.items item list.length 0 = some (contents.idxOf? item) := by
  rw [represents.length, search_eq contents 0]
  · simp
  · intro k less
    rw [Nat.zero_add, Blocks.read_live represents.live, represents.cells k less]

theorem removeItem_spec (item : T) :
    ∃ list' blocks', list.removeItem blocks item = some (list', blocks') ∧
      Represents allocator.sizeofT list' blocks' (contents.erase item) := by
  rw [removeItem, search_spec represents, List.erase_eq_eraseIdx]
  cases contents.idxOf? item with
  | none => exact ⟨list, blocks, rfl, represents⟩
  | some i => exact removeAt_spec represents i

theorem contains_spec (item : T) :
    list.contains blocks item = some (decide (item ∈ contents)) := by
  rw [contains, search_spec represents]
  cases found : contents.idxOf? item with
  | none =>
      have absent := List.idxOf?_eq_none_iff.mp found
      simp [absent]
  | some i =>
      have present : item ∈ contents := by
        rw [← List.isSome_idxOf?, found]
        rfl
      simp [present]

theorem indexOf_spec (item : T) :
    list.indexOf blocks item = some ((contents.idxOf? item).getD (2 ^ 64 - 1)) := by
  rw [indexOf, search_spec represents]
  cases contents.idxOf? item with
  | none => rfl
  | some i => rfl

end

end

end ListObject

/-! Any sequence of calls. -/

section

variable {T : Type} [DecidableEq T] {allocator : Allocator T} (null : T)

/-- What the call does to a mathematical list, and the answer it gives. -/
def ListOp.meaning (contents : List T) : ListOp T → Answer T × List T
  | .add item => (.nothing, contents ++ [item])
  | .removeAt index => (.nothing, contents.eraseIdx index)
  | .removeItem item => (.nothing, contents.erase item)
  | .set index item => (.nothing, contents.set index item)
  | .clear => (.nothing, [])
  | .reverse => (.nothing, contents.reverse)
  | .get index => (.item (contents[index]?.getD null), contents)
  | .contains item => (.bool (decide (item ∈ contents)), contents)
  | .indexOf item => (.index ((contents.idxOf? item).getD (2 ^ 64 - 1)), contents)

def ListOp.meanings (contents : List T) : List (ListOp T) → List (Answer T) × List T
  | [] => ([], contents)
  | op :: rest =>
      let (answer, contents) := op.meaning null contents
      let (answers, contents) := meanings contents rest
      (answer :: answers, contents)

/-- The call asks `malloc` for no more bytes than 64 bits can say. -/
def ListOp.fits (sizeofT : Nat) (list : ListObject) : ListOp T → Bool
  | .add _ => list.length ≠ list.capacity ∨ sizeofT * (2 * list.capacity) < 2 ^ 64
  | _ => true

/-- No call of the sequence overflows a byte size. -/
def callsFit (allocator : Allocator T) (list : ListObject) (blocks : Blocks T) :
    List (ListOp T) → Bool
  | [] => true
  | op :: rest => op.fits allocator.sizeofT list &&
      match list.call allocator null blocks op with
      | some (_, list, blocks) => callsFit allocator list blocks rest
      | none => true

open ListObject

theorem ListObject.call_refines {list : ListObject} {blocks : Blocks T} {contents : List T}
    (represents : Represents allocator.sizeofT list blocks contents) {op : ListOp T}
    (fits : op.fits allocator.sizeofT list = true) :
    ∃ list' blocks', list.call allocator null blocks op =
        some ((op.meaning null contents).1, list', blocks') ∧
      Represents allocator.sizeofT list' blocks' (op.meaning null contents).2 := by
  cases op with
  | add item =>
      rw [ListOp.fits, decide_eq_true_eq] at fits
      obtain ⟨list', blocks', run, represents'⟩ := add_spec represents item fun full =>
        fits.resolve_left fun differs => differs full
      exact ⟨list', blocks', by rw [call, run]; rfl, represents'⟩
  | removeAt index =>
      obtain ⟨list', blocks', run, represents'⟩ := removeAt_spec represents index
      exact ⟨list', blocks', by rw [call, run]; rfl, represents'⟩
  | removeItem item =>
      obtain ⟨list', blocks', run, represents'⟩ := removeItem_spec represents item
      exact ⟨list', blocks', by rw [call, run]; rfl, represents'⟩
  | set index item =>
      obtain ⟨blocks', run, represents'⟩ := set_spec represents index item
      exact ⟨list, blocks', by rw [call, run]; rfl, represents'⟩
  | clear => exact ⟨list.clear, blocks, rfl, clear_spec represents⟩
  | reverse =>
      obtain ⟨blocks', run, represents'⟩ := reverse_spec represents
      exact ⟨list, blocks', by rw [call, run]; rfl, represents'⟩
  | get index => exact ⟨list, blocks, by rw [call, get_spec represents]; rfl, represents⟩
  | contains item => exact ⟨list, blocks, by rw [call, contains_spec represents]; rfl, represents⟩
  | indexOf item => exact ⟨list, blocks, by rw [call, indexOf_spec represents]; rfl, represents⟩

theorem ListObject.calls_refine {list : ListObject} {blocks : Blocks T} {contents : List T}
    (represents : Represents allocator.sizeofT list blocks contents) {ops : List (ListOp T)}
    (fits : callsFit null allocator list blocks ops = true) :
    ∃ list' blocks', list.calls allocator null blocks ops =
        some ((ListOp.meanings null contents ops).1, list', blocks') ∧
      Represents allocator.sizeofT list' blocks' (ListOp.meanings null contents ops).2 := by
  induction ops generalizing list blocks contents with
  | nil => exact ⟨list, blocks, rfl, represents⟩
  | cons op rest ih =>
      rw [callsFit, Bool.and_eq_true] at fits
      obtain ⟨between, blocks1, first, represents1⟩ := call_refines null represents fits.1
      rw [first] at fits
      obtain ⟨list', blocks', later, represents'⟩ := ih represents1 fits.2
      refine ⟨list', blocks', ?_, represents'⟩
      rw [calls, first]
      simp only [Option.bind_eq_bind, Option.bind_some, later]
      rfl

/-- Every sequence of calls on a new `List` returns, gives the answers of the mathematical
list and leaves its contents in the first cells. -/
theorem list_refines {start blocks : Blocks T} {list : ListObject} {ops : List (ListOp T)}
    (created : (list, blocks) = ListObject.empty allocator start ∨
      ∃ capacity, 1 ≤ capacity ∧ (list, blocks) = ListObject.withCapacity allocator start capacity)
    (small : allocator.sizeofT * list.capacity < 2 ^ 64)
    (fits : callsFit null allocator list blocks ops = true) :
    ∃ list' blocks', list.calls allocator null blocks ops =
        some ((ListOp.meanings null [] ops).1, list', blocks') ∧
      Represents allocator.sizeofT list' blocks' (ListOp.meanings null [] ops).2 := by
  obtain ⟨capacity, positive, made⟩ : ∃ capacity, 1 ≤ capacity ∧
      (list, blocks) = ListObject.withCapacity allocator start capacity := by
    rcases created with isEmpty | sized
    · exact ⟨4, by decide, isEmpty⟩
    · exact sized
  have capacityEq : list.capacity = capacity := congrArg (·.1.capacity) made
  have represents := withCapacity_represents start positive (capacityEq ▸ small)
  rw [← made] at represents
  exact calls_refine null represents fits

end

/-! A closed instance: the calls of `DBG_TESTLISTS`. -/

/-- The next pointer that was never live, for a `List<u16>`. -/
def nextPointer : Allocator UInt16 where
  sizeofT := 2
  sizePos := by decide
  malloc blocks bytes := (blocks.live.sum + 1, List.replicate (bytes / 2) 0)
  fresh := by
    intro blocks bytes _ member
    have below := List.single_le_sum (fun _ _ => Nat.zero_le _) _ member
    omega
  room := by
    intro blocks bytes _
    exact List.length_replicate

def testLists : List (ListOp UInt16) :=
  [.add 30, .add 60, .add 90, .get 1, .removeAt 1, .get 1, .get 2, .add 34, .add 12, .add 56,
    .reverse, .indexOf 34, .removeItem 12, .contains 12]

theorem list_refines_testLists : ∃ list blocks list' blocks',
    (list, blocks) = ListObject.empty nextPointer { live := [], cells := fun _ => [] } ∧
      list.calls nextPointer 0 blocks testLists =
        some ([.nothing, .nothing, .nothing, .item 60, .nothing, .item 90, .item 0, .nothing,
          .nothing, .nothing, .nothing, .index 2, .nothing, .bool false], list', blocks') ∧
      ListObject.Represents 2 list' blocks' ([56, 34, 90, 30] : List UInt16) := by
  obtain ⟨list', blocks', run, represents⟩ := list_refines 0 (Or.inl rfl)
    (show nextPointer.sizeofT * (ListObject.empty nextPointer
      { live := [], cells := fun _ => [] }).1.capacity < 2 ^ 64 by decide)
    (show callsFit 0 nextPointer _ _ testLists = true by decide)
  exact ⟨_, _, list', blocks', rfl, run, represents⟩

end OkeOS
