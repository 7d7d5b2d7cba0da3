import OkeOS.HeapLists
import OkeOS.Session

/-!
Sessions of a list in memory.  Between its calls everybody else calls the heap and writes into their
own blocks; the list answers as the mathematical list does.
-/

namespace OkeOS

open ByteMemory Tiling

/-! The calls of a client. -/

inductive ListRequest where
  | call (op : ListOp Nat)
  | sort

/-- The argument is a `T`. -/
def ListRequest.Typed (sizeofT : Nat) : ListRequest → Prop
  | .call (.add item) => item < 256 ^ sizeofT
  | .call (.removeItem item) => item < 256 ^ sizeofT
  | .call (.set _ item) => item < 256 ^ sizeofT
  | .call (.contains item) => item < 256 ^ sizeofT
  | .call (.indexOf item) => item < 256 ^ sizeofT
  | _ => True

/-- What the call does to a mathematical list, and the answer it gives. -/
def ListRequest.meaning (contents : List Nat) : ListRequest → Answer Nat × List Nat
  | .call op => op.meaning 0 contents
  | .sort => (.nothing, contents.mergeSort)

def HeapList.perform {σ : Type} (mapPage : σ → Nat → Except Fault σ) (fuel sizeofT : Nat)
    (list : ListObject) (state : ListMachine σ) :
    ListRequest → Except Fault (Answer Nat × ListObject × ListMachine σ)
  | .call (.add item) => do
      let result ← add mapPage fuel sizeofT list state item
      .ok (.nothing, result)
  | .call (.removeAt index) => .ok (.nothing, removeAt sizeofT list state index)
  | .call (.removeItem item) =>
      .ok (.nothing, removeItem sizeofT (fun first second => decide (first = second)) list state item)
  | .call (.set index item) => .ok (.nothing, list, set sizeofT list state index item)
  | .call .clear => .ok (.nothing, list.clear, state)
  | .call .reverse => .ok (.nothing, list, reverse sizeofT list state)
  | .call (.get index) => .ok (.item (get sizeofT list state index), list, state)
  | .call (.contains item) => .ok (.bool (contains sizeofT list state item), list, state)
  | .call (.indexOf item) => .ok (.index (indexOf sizeofT list state item), list, state)
  | .sort => .ok (.nothing, list, sort sizeofT list state)

/-- With enough rounds the call comes to an end, and it fails only if a page is refused. -/
def HeapList.Ends {σ : Type} (mapPage : σ → Nat → Except Fault σ) (sizeofT : Nat)
    (list : ListObject) (state : ListMachine σ) (request : ListRequest) : Prop :=
  ∃ outcome least,
    (∀ fuel, least ≤ fuel → HeapList.perform mapPage fuel sizeofT list state request = outcome) ∧
    ∀ fault, outcome = .error fault → ∃ pages pos, mapPage pages pos = .error fault

theorem HeapList.Ends.returns {σ : Type} {mapPage : σ → Nat → Except Fault σ} {sizeofT : Nat}
    {list : ListObject} {state : ListMachine σ} {request : ListRequest}
    {result : Answer Nat × ListObject × ListMachine σ} (least : Nat)
    (same : ∀ fuel, least ≤ fuel →
      HeapList.perform mapPage fuel sizeofT list state request = .ok result) :
    HeapList.Ends mapPage sizeofT list state request :=
  ⟨.ok result, least, same, fun _ failed => by cases failed⟩

section

variable {σ : Type} {sizeofT limit : Nat} {base : List Block} {heap : Heap σ} {list : ListObject}
  {contents : List Nat}

/-- The cells of a list do not depend on who allocates them. -/
theorem exists_allocator (sizePos : 0 < sizeofT) :
    ∃ allocator : Allocator Nat, sizeofT = allocator.sizeofT := by
  refine ⟨⟨sizeofT, sizePos, fun blocks bytes =>
    (blocks.live.sum + 1, List.replicate (bytes / sizeofT) 0), ?_, ?_⟩, rfl⟩
  · intro blocks bytes _ member
    have below := List.single_le_sum (fun _ _ => Nat.zero_le _) _ member
    simp only at below
    omega
  · intro blocks bytes _
    exact List.length_replicate

/-- There is one way to order numbers. -/
theorem eq_mergeSort {sorted : List Nat} (perm : sorted.Perm contents)
    (inOrder : sorted.Pairwise fun first second => ¬first > second) : sorted = contents.mergeSort := by
  have ordered : contents.mergeSort.Pairwise fun first second => first ≤ second := by
    refine (List.pairwise_mergeSort ?_ ?_ contents).imp of_decide_eq_true
    · intro first second third left right
      simp only [decide_eq_true_eq] at left right ⊢
      omega
    · intro first second
      simp only [Bool.or_eq_true, decide_eq_true_eq]
      omega
  refine List.Perm.eq_of_pairwise ?_ (inOrder.imp fun le => Nat.le_of_not_lt le) ordered
    (perm.trans (List.mergeSort_perm contents _).symm)
  intro first second _ _
  exact Nat.le_antisymm

/-- The cells behind the contents are left over from earlier. -/
theorem ListObject.Represents.cells_eq {T : Type} {blocks : Blocks T} {contents : List T}
    (represents : ListObject.Represents sizeofT list blocks contents) :
    ∃ extra, blocks.cells list.items = contents ++ extra := by
  refine ⟨(blocks.cells list.items).drop contents.length, List.ext_getElem? fun i => ?_⟩
  by_cases inside : i < contents.length
  · rw [List.getElem?_append_left inside, represents.cells i inside]
  · rw [List.getElem?_append_right (by omega), List.getElem?_drop,
      show contents.length + (i - contents.length) = i by omega]

/-- The list keeps its order with new contents, and the others keep their bytes. -/
def Leaves (sizeofT limit : Nat) (base : List Block) (heap : Heap σ) (contents : List Nat)
    (result : ListObject × ListMachine σ) : Prop :=
  Stored sizeofT limit base result.2.heap result.1 contents ∧ KeepsBytes base heap result.2.heap

theorem Stored.unchanged (stored : Stored sizeofT limit base heap list contents) :
    Leaves sizeofT limit base heap contents (list, ⟨heap, []⟩) :=
  ⟨stored, fun _ _ _ _ => rfl⟩

theorem Stored.room (stored : Stored sizeofT limit base heap list contents) :
    sizeofT * list.capacity = (list.block sizeofT).size :=
  stored.fits.mul64_eq.symm

theorem Stored.element (stored : Stored sizeofT limit base heap list contents) {index : Nat}
    (inside : index < contents.length) :
    contents[index]? = some ((⟨heap, []⟩ : ListMachine σ).element sizeofT list.items index) := by
  have fits := stored.represents.fits
  rw [← stored.represents.cells index inside, ListObject.view,
    viewOf_cells (List.mem_singleton_self _), cellsOf_get (by omega)]
  rfl

theorem Stored.get (stored : Stored sizeofT limit base heap list contents) (index : Nat) :
    HeapList.get sizeofT list ⟨heap, []⟩ index = contents[index]?.getD 0 := by
  have length := stored.represents.length
  rw [HeapList.get]
  by_cases outside : index ≥ list.length
  · rw [if_pos outside, List.getElem?_eq_none (by omega), Option.getD_none]
  · rw [if_neg outside, stored.element (by omega), Option.getD_some]

theorem Stored.search (stored : Stored sizeofT limit base heap list contents) (item : Nat)
    (sizePos : 0 < sizeofT) :
    HeapList.search sizeofT (fun first second => decide (first = second)) ⟨heap, []⟩ list.items item
      list.length 0 = contents.idxOf? item := by
  obtain ⟨allocator, rfl⟩ := exists_allocator sizePos
  have fits := stored.represents.fits
  have length := stored.represents.length
  have found := ListObject.search_spec stored.represents item
  rw [ListObject.view, search_view ⟨heap, []⟩ (List.mem_singleton_self _) item (by omega)] at found
  exact Option.some.inj found

theorem Stored.contains (stored : Stored sizeofT limit base heap list contents) (item : Nat)
    (sizePos : 0 < sizeofT) :
    HeapList.contains sizeofT list ⟨heap, []⟩ item = decide (item ∈ contents) := by
  rw [HeapList.contains, HeapList.find, stored.search item sizePos]
  cases found : contents.idxOf? item with
  | none =>
      have absent := List.idxOf?_eq_none_iff.mp found
      simp [absent]
  | some i =>
      have present : item ∈ contents := by
        rw [← List.isSome_idxOf?, found]
        rfl
      simp [present]

theorem Stored.indexOf (stored : Stored sizeofT limit base heap list contents) (item : Nat)
    (sizePos : 0 < sizeofT) :
    HeapList.indexOf sizeofT list ⟨heap, []⟩ item = (contents.idxOf? item).getD (2 ^ 64 - 1) := by
  rw [HeapList.indexOf, HeapList.find, stored.search item sizePos]
  cases contents.idxOf? item with
  | none => rfl
  | some i => rfl

theorem Stored.clear (stored : Stored sizeofT limit base heap list contents) (sizePos : 0 < sizeofT) :
    Leaves sizeofT limit base heap [] (list.clear, ⟨heap, []⟩) := by
  obtain ⟨allocator, rfl⟩ := exists_allocator sizePos
  exact stored.rewritten (.refl _) (ListObject.clear_spec stored.represents)

section

variable (stored : Stored sizeofT limit base heap list contents) (noWrap : limit < 2 ^ 64)

include stored noWrap

theorem Stored.shiftIn (sizePos : 0 < sizeofT) (index : Nat) :
    Leaves sizeofT limit base heap (contents.eraseIdx index)
      (HeapList.removeAt sizeofT list ⟨heap, []⟩ index) := by
  obtain ⟨allocator, rfl⟩ := exists_allocator sizePos
  have fits := stored.represents.fits
  have length := stored.represents.length
  have word := stored.represents.length_lt
  obtain ⟨list', blocks', run, represents⟩ := ListObject.removeAt_spec stored.represents index
  rw [ListObject.removeAt] at run
  rw [HeapList.removeAt]
  by_cases outside : index ≥ list.length
  · rw [if_pos outside, Option.some.injEq, Prod.mk.injEq] at run
    obtain ⟨rfl, rfl⟩ := run
    rw [if_pos outside]
    exact ⟨⟨stored.toListInv, represents⟩, fun _ _ _ _ => rfl⟩
  · have shorter : sub64 list.length 1 = list.length - 1 := sub64_of_le (by omega) (by omega)
    rw [if_neg outside, shorter, ListObject.view, shiftItems_view (stored.laid noWrap) ⟨heap, []⟩
      (List.mem_singleton_self _) (by omega)] at run
    simp only [Option.bind_eq_bind, Option.bind_some, Option.some.injEq, Prod.mk.injEq] at run
    obtain ⟨rfl, rfl⟩ := run
    rw [if_neg outside, shorter]
    exact stored.rewritten (shiftItems_storesIn stored.room
      (stored.high noWrap stored.represents.positive) _ (by omega)) represents

theorem Stored.removeItem (sizePos : 0 < sizeofT) (item : Nat) :
    Leaves sizeofT limit base heap (contents.erase item) (HeapList.removeItem sizeofT
      (fun first second => decide (first = second)) list ⟨heap, []⟩ item) := by
  rw [HeapList.removeItem, stored.search item sizePos, List.erase_eq_eraseIdx]
  cases contents.idxOf? item with
  | none => exact stored.unchanged
  | some i => exact stored.shiftIn noWrap sizePos i

theorem Stored.set (sizePos : 0 < sizeofT) (index : Nat) {item : Nat} (small : item < 256 ^ sizeofT) :
    Leaves sizeofT limit base heap (contents.set index item)
      (list, HeapList.set sizeofT list ⟨heap, []⟩ index item) := by
  obtain ⟨allocator, rfl⟩ := exists_allocator sizePos
  have fits := stored.represents.fits
  have length := stored.represents.length
  obtain ⟨blocks', run, represents⟩ := ListObject.set_spec stored.represents index item
  rw [ListObject.set] at run
  rw [HeapList.set]
  by_cases outside : index ≥ list.length
  · rw [if_pos outside, Option.some.injEq] at run
    rw [if_pos outside]
    exact ⟨⟨stored.toListInv, run ▸ represents⟩, fun _ _ _ _ => rfl⟩
  · rw [if_neg outside, ListObject.view, setElement_view (stored.laid noWrap) ⟨heap, []⟩
      (List.mem_singleton_self _) (by omega) small, Option.some.injEq] at run
    subst run
    rw [if_neg outside]
    exact stored.rewritten (setElement_storesIn stored.room
      (stored.high noWrap stored.represents.positive) _ item (by omega)) represents

theorem Stored.reverse (sizePos : 0 < sizeofT) :
    Leaves sizeofT limit base heap contents.reverse
      (list, HeapList.reverse sizeofT list ⟨heap, []⟩) := by
  obtain ⟨allocator, rfl⟩ := exists_allocator sizePos
  have fits := stored.represents.fits
  have length := stored.represents.length
  obtain ⟨blocks', run, represents⟩ := ListObject.reverse_spec stored.represents
  rw [ListObject.reverse, ListObject.view, swapItems_view (stored.laid noWrap) ⟨heap, []⟩
    (List.mem_singleton_self _) (Nat.le_refl _) (by omega), Option.some.injEq] at run
  subst run
  exact stored.rewritten (swapItems_storesIn stored.room
    (stored.high noWrap stored.represents.positive) _ (Nat.le_refl _) (by omega)) represents

theorem Stored.sort (sizePos : 0 < sizeofT) :
    Leaves sizeofT limit base heap contents.mergeSort
      (list, HeapList.sort sizeofT list ⟨heap, []⟩) := by
  have fits := stored.represents.fits
  have length := stored.represents.length
  have word : list.length < 2 ^ 64 := by
    have below := ListObject.capacity_lt sizePos stored.represents.small
    omega
  obtain ⟨extra, cells⟩ := stored.represents.cells_eq
  have room := stored.represents.room
  have order : IsStrictWeakOrder Nat fun first second => first > second := by
    refine { irrefl := ?_, trans := ?_, incomp_trans := ?_ }
    all_goals omega
  obtain ⟨sorted, indices, run, _, perm, inOrder, _⟩ := @ListObject.sort_sorts Nat
    (fun first second => first > second) _ order list _ contents extra stored.represents.live cells length
    word
  obtain ⟨more, ran⟩ := sortOuter_view (stored.laid noWrap) ⟨heap, []⟩ (List.mem_singleton_self _)
    word (by omega) (Nat.le_refl list.length) []
  rw [ListObject.sort, ListObject.view, ran, Option.some.injEq, Accessed.mk.injEq] at run
  refine stored.rewritten (sortOuter_storesIn stored.room
    (stored.high noWrap stored.represents.positive) _ word (by omega) (Nat.le_refl _)) ?_
  rw [← eq_mergeSort perm inOrder]
  have sameLength := perm.length_eq
  rw [HeapList.sort, ListObject.view, run.1]
  refine ⟨stored.represents.live, ?_, by simp only; omega, by simp only; omega,
    stored.represents.positive, stored.represents.small, ?_⟩
  · rw [cells] at room
    rw [Blocks.put_cells]
    simp only [List.length_append] at room ⊢
    omega
  · intro i inside
    rw [Blocks.put_cells, List.getElem?_append_left inside]

/-- After the first `if` of `add` there is room. -/
theorem Stored.makeRoom {mapPage : σ → Nat → Except Fault σ} {fuel : Nat} {roomy : ListObject}
    {between : ListMachine σ} (sizePos : 0 < sizeofT)
    (grows : list.length = list.capacity → CanGrow sizeofT list)
    (made : HeapList.makeRoom mapPage fuel sizeofT list ⟨heap, []⟩ = .ok (roomy, between))
    (below : between.heap.heapEnd ≤ limit) :
    Leaves sizeofT limit base heap contents (roomy, between) ∧ roomy.length < roomy.capacity := by
  have positive := stored.represents.positive
  have shorter := stored.length
  rw [HeapList.makeRoom] at made
  split at made
  · rename_i full
    obtain ⟨_, fits⟩ := grows full
    obtain ⟨⟨newItems, allocated⟩, new, result⟩ := Fault.peel made
    obtain ⟨heap1, called, rfl⟩ := newItems_ok new
    simp only [Except.ok.injEq, Prod.mk.injEq] at result
    have unbounded : sizeofT * (list.capacity * 2) ≤ 2 ^ 64 - 0x1000 := fits
    have wider := Nat.le_mul_of_pos_left (list.capacity * 2) sizePos
    have doubled : mul64 list.capacity 2 = list.capacity * 2 := Nat.mod_eq_of_lt (by omega)
    rw [doubled] at called result
    rw [fits.mul64_eq] at called
    obtain ⟨rfl, rfl⟩ := result
    have grown := stored.grown noWrap sizePos full fits called rfl below
    refine ⟨?_, by simp only; omega⟩
    simp only [Leaves]
    exact grown
  · rename_i notFull
    simp only [Except.ok.injEq, Prod.mk.injEq] at made
    obtain ⟨rfl, rfl⟩ := made
    exact ⟨stored.unchanged, by omega⟩

theorem Stored.add {mapPage : σ → Nat → Except Fault σ} {fuel item : Nat}
    {result : ListObject × ListMachine σ} (sizePos : 0 < sizeofT) (small : item < 256 ^ sizeofT)
    (grows : list.length = list.capacity → CanGrow sizeofT list)
    (run : HeapList.add mapPage fuel sizeofT list ⟨heap, []⟩ item = .ok result)
    (below : result.2.heap.heapEnd ≤ limit) :
    Leaves sizeofT limit base heap (contents ++ [item]) result := by
  obtain ⟨⟨roomy, between⟩, made, added⟩ := Fault.peel run
  simp only [Except.ok.injEq] at added
  subst added
  obtain ⟨⟨stored', kept⟩, room⟩ := stored.makeRoom noWrap sizePos grows made below
  obtain ⟨allocator, rfl⟩ := exists_allocator sizePos
  obtain ⟨list', blocks', ran, represents⟩ := ListObject.add_spec stored'.represents item
    fun full => absurd full (by simp only; omega)
  rw [ListObject.add, ListObject.makeRoom, if_neg (by simp only; omega)] at ran
  simp only [Option.bind_eq_bind, Option.bind_some] at ran
  rw [ListObject.view, setElement_view (stored'.laid noWrap) between (List.mem_singleton_self _) room
    small, Option.bind_some, Option.some.injEq, Prod.mk.injEq] at ran
  obtain ⟨rfl, rfl⟩ := ran
  obtain ⟨stored'', kept'⟩ := @Stored.rewritten σ allocator.sizeofT limit base between.heap roomy
    contents ((⟨between.heap, []⟩ : ListMachine σ).setElement allocator.sizeofT roomy.items
      roomy.length item) (add64 roomy.length 1) (contents ++ [item]) stored'
    (setElement_storesIn stored'.room (stored'.high noWrap stored'.represents.positive) _ item room)
    represents
  refine ⟨stored'', fun block member address inside => ?_⟩
  exact (kept' block member address inside).trans (kept block member address inside)

theorem Stored.perform {mapPage : σ → Nat → Except Fault σ} {fuel : Nat} {request : ListRequest}
    {answer : Answer Nat} {result : ListObject × ListMachine σ} (sizePos : 0 < sizeofT)
    (typed : request.Typed sizeofT) (grows : list.length = list.capacity → CanGrow sizeofT list)
    (run : HeapList.perform mapPage fuel sizeofT list ⟨heap, []⟩ request = .ok (answer, result))
    (below : result.2.heap.heapEnd ≤ limit) :
    answer = (request.meaning contents).1 ∧
      Leaves sizeofT limit base heap (request.meaning contents).2 result := by
  cases request with
  | sort =>
      simp only [HeapList.perform, Except.ok.injEq, Prod.mk.injEq] at run
      obtain ⟨rfl, rfl⟩ := run
      exact ⟨rfl, stored.sort noWrap sizePos⟩
  | call op =>
      cases op with
      | add item =>
          obtain ⟨added, ran, returned⟩ := Fault.peel run
          simp only [Except.ok.injEq, Prod.mk.injEq] at returned
          obtain ⟨rfl, rfl⟩ := returned
          exact ⟨rfl, stored.add noWrap sizePos typed grows ran below⟩
      | removeAt index =>
          simp only [HeapList.perform, Except.ok.injEq, Prod.mk.injEq] at run
          obtain ⟨rfl, rfl⟩ := run
          exact ⟨rfl, stored.shiftIn noWrap sizePos index⟩
      | removeItem item =>
          simp only [HeapList.perform, Except.ok.injEq, Prod.mk.injEq] at run
          obtain ⟨rfl, rfl⟩ := run
          exact ⟨rfl, stored.removeItem noWrap sizePos item⟩
      | set index item =>
          simp only [HeapList.perform, Except.ok.injEq, Prod.mk.injEq] at run
          obtain ⟨rfl, rfl⟩ := run
          exact ⟨rfl, stored.set noWrap sizePos index typed⟩
      | clear =>
          simp only [HeapList.perform, Except.ok.injEq, Prod.mk.injEq] at run
          obtain ⟨rfl, rfl⟩ := run
          exact ⟨rfl, stored.clear sizePos⟩
      | reverse =>
          simp only [HeapList.perform, Except.ok.injEq, Prod.mk.injEq] at run
          obtain ⟨rfl, rfl⟩ := run
          exact ⟨rfl, stored.reverse noWrap sizePos⟩
      | get index =>
          simp only [HeapList.perform, Except.ok.injEq, Prod.mk.injEq, stored.get index] at run
          obtain ⟨rfl, rfl⟩ := run
          exact ⟨rfl, stored.unchanged⟩
      | contains item =>
          simp only [HeapList.perform, Except.ok.injEq, Prod.mk.injEq,
            stored.contains item sizePos] at run
          obtain ⟨rfl, rfl⟩ := run
          exact ⟨rfl, stored.unchanged⟩
      | indexOf item =>
          simp only [HeapList.perform, Except.ok.injEq, Prod.mk.injEq,
            stored.indexOf item sizePos] at run
          obtain ⟨rfl, rfl⟩ := run
          exact ⟨rfl, stored.unchanged⟩

omit noWrap in
/-- Only a full list asks the heap for memory. -/
theorem Stored.ends {mapPage : σ → Nat → Except Fault σ} (sizePos : 0 < sizeofT)
    (grows : list.length = list.capacity → CanGrow sizeofT list)
    (room : ∀ count ≤ 2, ∀ heap', Grows mapPage (roundUp (sizeofT * (list.capacity * 2)) 0x10) heap
      count heap' → heap'.heapEnd < 2 ^ 64) (request : ListRequest) :
    HeapList.Ends mapPage sizeofT list ⟨heap, []⟩ request := by
  cases request with
  | sort => exact .returns 0 fun _ _ => rfl
  | call op =>
      cases op with
      | add item =>
          by_cases full : list.length = list.capacity
          · obtain ⟨positive, fits⟩ := grows full
            obtain ⟨segments, system⟩ := stored.system
            have unbounded : sizeofT * (list.capacity * 2) ≤ 2 ^ 64 - 0x1000 := fits
            have wider := Nat.le_mul_of_pos_left (list.capacity * 2) sizePos
            have doubled : mul64 list.capacity 2 = list.capacity * 2 := Nat.mod_eq_of_lt (by omega)
            obtain ⟨larger, _, multiple, bound⟩ := roundUp16 fits
            obtain ⟨outcome, ⟨least, later⟩, returns⟩ := malloc_settles rfl
              (roundUp_rounded multiple) (by omega) bound system.inv room
            have unfolded (fuel : Nat) (enough : least ≤ fuel) :
                HeapList.newItems mapPage fuel sizeofT ⟨heap, []⟩ (mul64 list.capacity 2) =
                  outcome.map fun made => (made.1, ⟨made.2, []⟩) := by
              rw [HeapList.newItems, doubled, fits.mul64_eq, later fuel enough]
              cases outcome <;> rfl
            cases outcome with
            | error fault =>
                refine ⟨.error fault, least, fun fuel enough => ?_, fun other failed => ?_⟩
                · rw [HeapList.perform, HeapList.add, HeapList.makeRoom, if_pos full]
                  simp only [unfolded fuel enough]
                  rfl
                · cases failed
                  exact returns
            | ok made =>
                apply HeapList.Ends.returns least
                intro fuel enough
                rw [HeapList.perform, HeapList.add, HeapList.makeRoom, if_pos full]
                simp only [unfolded fuel enough]
                rfl
          · apply HeapList.Ends.returns 0
            intro fuel _
            rw [HeapList.perform, HeapList.add, HeapList.makeRoom, if_neg full]
            rfl
      | removeAt index => exact .returns 0 fun _ _ => rfl
      | removeItem item => exact .returns 0 fun _ _ => rfl
      | set index item => exact .returns 0 fun _ _ => rfl
      | clear => exact .returns 0 fun _ _ => rfl
      | reverse => exact .returns 0 fun _ _ => rfl
      | get index => exact .returns 0 fun _ _ => rfl
      | contains item => exact .returns 0 fun _ _ => rfl
      | indexOf item => exact .returns 0 fun _ _ => rfl

/-- The contents lie in the bytes of the own block. -/
theorem Stored.view_congr {heap' : Heap σ} (kept : ∀ address,
      (list.block sizeofT).Contains address → heap'.mem address = heap.mem address) :
    list.view sizeofT heap'.mem = list.view sizeofT heap.mem := by
  have size : (list.block sizeofT).size = sizeofT * list.capacity := stored.fits.mul64_eq
  have larger := (roundUp16 (show (list.block sizeofT).size ≤ 2 ^ 64 - 0x1000 by
    rw [size]; exact stored.fits)).1
  have cells : cellsOf sizeofT heap'.mem list.items list.capacity =
      cellsOf sizeofT heap.mem list.items list.capacity := by
    refine cellsOf_congr ((stored.laid noWrap).high _ (List.mem_singleton_self _))
      fun address lower upper => kept address ⟨lower, ?_⟩
    rw [show (list.block sizeofT).ptr = list.items from rfl]
    omega
  simp only [ListObject.view, viewOf, Blocks.mk.injEq, true_and]
  funext pointer
  by_cases own : pointer ∈ [list.items]
  · rw [if_pos own, if_pos own, List.mem_singleton.mp own, cells]
  · rw [if_neg own, if_neg own]

theorem Stored.others {mapPage : σ → Nat → Except Fault σ} {base' live : List Block}
    {heap' : Heap σ} (call : HeapCall mapPage { heap := heap, live := list.live sizeofT base }
      { heap := heap', live := live })
    (same : live.Perm (list.live sizeofT base')) (below : heap'.heapEnd ≤ limit) :
    Stored sizeofT limit base' heap' list contents := by
  have own (blocks : List Block) : list.block sizeofT ∈ list.live sizeofT blocks := by
    rw [ListObject.live, if_neg]
    · exact List.mem_cons_self
    · intro null
      have none := stored.null null
      have some := stored.represents.positive
      omega
  obtain ⟨segments, system⟩ := stored.system
  obtain ⟨⟨segments', system'⟩, isolated⟩ := system.call call (by simp only; omega)
  refine ⟨⟨below, ⟨segments', system'.perm same⟩, stored.length, stored.fits, stored.null⟩, ?_⟩
  rw [stored.view_congr noWrap fun address inside =>
    isolated _ (own base) (same.mem_iff.mpr (own base')) address inside]
  exact stored.represents

theorem Stored.write {block : Block} {address : Nat} (byte : UInt8) (member : block ∈ base)
    (inside : block.Contains address) :
    Stored sizeofT limit base { heap with mem := writeByte heap.mem address byte } list contents := by
  obtain ⟨segments, system⟩ := stored.owned
  have written := system.write byte (List.mem_cons_of_mem _ member) inside
  refine ⟨⟨stored.below, ⟨segments, ?_⟩, stored.length, stored.fits, stored.null⟩, ?_⟩
  · rw [stored.live_eq stored.represents.positive]
    exact written
  · have kept : ∀ other, (list.block sizeofT).Contains other →
        writeByte heap.mem address byte other = heap.mem other := by
      intro other contains
      refine Function.update_of_ne ?_ _ _
      rintro rfl
      exact system.blocks_apart List.mem_cons_self (List.mem_cons_of_mem _ member)
        (system.head_ne member) other ⟨contains, inside⟩
    rw [stored.view_congr noWrap kept]
    exact stored.represents

end

/-- A list fills at most the heap, so below half of the address space it can always double. -/
theorem ListInv.canGrow (inv : ListInv sizeofT limit base heap list) (positive : 0 < list.capacity)
    (half : limit ≤ 2 ^ 63 - 0x800) : CanGrow sizeofT list := by
  obtain ⟨_, _, _, _, _, _, _, ends⟩ := inv.owner positive
  have below := inv.below
  refine ⟨positive, ?_⟩
  rw [SizeFits, ← Nat.mul_assoc]
  omega

/-- A new list is empty. -/
theorem withCapacity_stored {mapPage : σ → Nat → Except Fault σ} {fuel capacity : Nat}
    {system : HeapSystem σ} {state : ListMachine σ} (run : HeapRun mapPage system)
    (sizePos : 0 < sizeofT) (positive : 1 ≤ capacity) (fits : SizeFits sizeofT capacity)
    (made : HeapList.withCapacity mapPage fuel sizeofT ⟨system.heap, []⟩ capacity = .ok (list, state))
    (below : state.heap.heapEnd ≤ limit) (noWrap : limit < 2 ^ 64) :
    Stored sizeofT limit system.live state.heap list [] := by
  have ends := withCapacity_end_le made
  obtain ⟨segments, inv⟩ := run.inv (by simp only at ends; omega)
  obtain ⟨listInv, _⟩ := withCapacity_spec noWrap inv sizePos fits made below
  obtain ⟨items, heap', _, rfl, rfl⟩ := withCapacity_ok made
  have unbounded : sizeofT * capacity ≤ 2 ^ 64 - 0x1000 := fits
  refine ⟨listInv, List.mem_singleton_self _, ?_, rfl, Nat.zero_le _, positive,
    by simp only; omega, by simp⟩
  rw [ListObject.view, viewOf_cells (List.mem_singleton_self _), cellsOf_length]

end

/-! Sessions. -/

/-- A list, its heap, and the blocks of everybody else. -/
structure ListState (σ : Type) where
  base : List Block
  heap : Heap σ
  list : ListObject

/-- A call that returns, after any number of calls and writes of others. -/
inductive ListServes {σ : Type} (mapPage : σ → Nat → Except Fault σ) (sizeofT limit : Nat) :
    ListState σ → ListRequest → Answer Nat → ListState σ → Prop
  | others {base base' live : List Block} {heap heap' : Heap σ} {list : ListObject}
      {request : ListRequest} {answer : Answer Nat} {next : ListState σ}
      (call : HeapCall mapPage { heap := heap, live := list.live sizeofT base }
        { heap := heap', live := live })
      (same : live.Perm (list.live sizeofT base')) (below : heap'.heapEnd ≤ limit) :
      ListServes mapPage sizeofT limit ⟨base', heap', list⟩ request answer next →
      ListServes mapPage sizeofT limit ⟨base, heap, list⟩ request answer next
  | write {base : List Block} {heap : Heap σ} {list : ListObject} {request : ListRequest}
      {answer : Answer Nat} {next : ListState σ} {block : Block} {address : Nat} (byte : UInt8)
      (member : block ∈ base) (inside : block.Contains address) :
      ListServes mapPage sizeofT limit
        ⟨base, { heap with mem := writeByte heap.mem address byte }, list⟩ request answer next →
      ListServes mapPage sizeofT limit ⟨base, heap, list⟩ request answer next
  | call {base : List Block} {heap : Heap σ} {list list' : ListObject} {fuel : Nat}
      {request : ListRequest} {answer : Answer Nat} {state : ListMachine σ}
      (typed : request.Typed sizeofT)
      (run : HeapList.perform mapPage fuel sizeofT list ⟨heap, []⟩ request =
        .ok (answer, list', state)) (below : state.heap.heapEnd ≤ limit) :
      ListServes mapPage sizeofT limit ⟨base, heap, list⟩ request answer ⟨base, state.heap, list'⟩

def ListModels {σ : Type} (sizeofT limit : Nat) (state : ListState σ) (contents : List Nat) : Prop :=
  Stored sizeofT limit state.base state.heap state.list contents

section

variable {σ : Type} {mapPage : σ → Nat → Except Fault σ} {sizeofT limit fuel capacity : Nat}

theorem ListServes.meaning (half : limit ≤ 2 ^ 63 - 0x800) (sizePos : 0 < sizeofT)
    {state next : ListState σ} {contents : List Nat} {request : ListRequest} {answer : Answer Nat}
    (stored : ListModels sizeofT limit state contents)
    (serves : ListServes mapPage sizeofT limit state request answer next) :
    ∃ contents', some (request.meaning contents) = some (answer, contents') ∧
      ListModels sizeofT limit next contents' := by
  have noWrap : limit < 2 ^ 64 := by omega
  induction serves with
  | others call same below _ ih => exact ih (Stored.others stored noWrap call same below)
  | write byte member inside _ ih => exact ih (Stored.write stored noWrap byte member inside)
  | call typed run below =>
      obtain ⟨rfl, stored', _⟩ := Stored.perform stored noWrap sizePos typed
        (fun _ => stored.canGrow stored.represents.positive half) run below
      exact ⟨_, rfl, stored'⟩

/-- A list in memory answers as the mathematical list does and holds its items, whatever others
do between the calls.  The next call comes to an end, unless a page is refused, and changes no byte
of theirs. -/
theorem list_session {system : HeapSystem σ} {list : ListObject} {state : ListMachine σ}
    (sizePos : 0 < sizeofT) (half : limit ≤ 2 ^ 63 - 0x800) (run : HeapRun mapPage system)
    (positive : 1 ≤ capacity) (fits : SizeFits sizeofT capacity)
    (made : HeapList.withCapacity mapPage fuel sizeofT ⟨system.heap, []⟩ capacity = .ok (list, state))
    (below : state.heap.heapEnd ≤ limit) {requests : List ListRequest} {answers : List (Answer Nat)}
    {last : ListState σ} (session : Session.Run (ListServes mapPage sizeofT limit)
      ⟨system.live, state.heap, list⟩ requests answers last) :
    ∃ contents, Session.replay (fun contents request => some (ListRequest.meaning contents request))
        [] requests = some (answers, contents) ∧
      last.list.length = contents.length ∧
      (∀ index < contents.length, contents[index]? =
        some ((⟨last.heap, []⟩ : ListMachine σ).element sizeofT last.list.items index)) ∧
      ((∀ count ≤ 2, ∀ heap', Grows mapPage (roundUp (sizeofT * (last.list.capacity * 2)) 0x10)
          last.heap count heap' → heap'.heapEnd < 2 ^ 64) →
        ∀ request, HeapList.Ends mapPage sizeofT last.list ⟨last.heap, []⟩ request) ∧
      ∀ fuel request answer list' state', ListRequest.Typed sizeofT request →
        HeapList.perform mapPage fuel sizeofT last.list ⟨last.heap, []⟩ request =
          .ok (answer, list', state') →
        state'.heap.heapEnd ≤ limit → KeepsBytes last.base last.heap state'.heap := by
  have noWrap : limit < 2 ^ 64 := by omega
  have empty : ListModels sizeofT limit ⟨system.live, state.heap, list⟩ [] :=
    withCapacity_stored run sizePos positive fits made below noWrap
  obtain ⟨contents, replayed, stored⟩ := session.forth (fun stored serves =>
    ListServes.meaning half sizePos stored serves) empty
  have canGrow : last.list.length = last.list.capacity → CanGrow sizeofT last.list :=
    fun _ => stored.canGrow stored.represents.positive half
  refine ⟨contents, replayed, stored.represents.length, fun index inside => stored.element inside,
    Stored.ends stored sizePos canGrow, ?_⟩
  intro fuel request answer list' state' typed ran within
  exact (Stored.perform stored noWrap sizePos typed canGrow ran within).2.2

end

/-- Two numbers, turned round. -/
theorem list_session_onePage : ∃ (system : HeapSystem Unit) (fuel : Nat) (list : ListObject)
    (state : ListMachine Unit) (last : ListState Unit), HeapRun mapAny system ∧
      HeapList.withCapacity mapAny fuel 4 ⟨system.heap, []⟩ 4 = .ok (list, state) ∧
      Session.Run (ListServes mapAny 4 (2 ^ 63 - 0x800)) ⟨system.live, state.heap, list⟩
        [.call (.add 7), .call (.add 5), .call .reverse, .call (.get 0)]
        [.nothing, .nothing, .nothing, .item 5] last := by
  obtain ⟨heap, _, _, _, run, inv, _⟩ := firstBlock_run (by decide : 1 ≤ 1) (by decide)
  have fit : FirstFit 16 [{ addr := 0x1000, length := 1 * 0x1000 - 29, free := true }] []
      { addr := 0x1000, length := 1 * 0x1000 - 29, free := true } [] :=
    ⟨rfl, by simp, rfl, by decide⟩
  obtain ⟨heap', sameEnd, fuel, settled⟩ :
      ∃ heap', heap'.heapEnd = heap.heapEnd ∧ SettlesAfter mapAny heap 16 0
        (.ok (0x1000 + 29, heap')) :=
    settlesAfter_found (show roundUp 16 0x10 = 16 from rfl) (by decide) inv.toHeapChain fit
  have call := (settled fuel (Nat.le_refl _)).1
  have low : heap'.heapEnd ≤ 2 ^ 63 - 0x800 := by
    have tiles := inv.tiles
    simp only [Tiles] at tiles
    omega
  have made : HeapList.withCapacity mapAny fuel 4 ⟨heap, []⟩ 4 =
      .ok ({ items := 0x1000 + 29, length := 0, capacity := 4 }, ⟨heap', []⟩) := by
    rw [HeapList.withCapacity, HeapList.newItems, show mul64 4 4 = 16 from rfl, call]
    rfl
  have added (list : ListObject) (heap : Heap Unit) (item : Nat) (room : list.length ≠ list.capacity) :
      HeapList.perform mapAny 0 4 list ⟨heap, []⟩ (.call (.add item)) =
        .ok (.nothing, { list with length := add64 list.length 1 },
          ListMachine.setElement 4 ⟨heap, []⟩ list.items list.length item) := by
    rw [HeapList.perform, HeapList.add, HeapList.makeRoom, if_neg room]
    rfl
  have reversed (list : ListObject) (heap : Heap Unit) :
      HeapList.perform mapAny 0 4 list ⟨heap, []⟩ (.call .reverse) =
        .ok (.nothing, list, HeapList.reverse 4 list ⟨heap, []⟩) := rfl
  have got (list : ListObject) (heap : Heap Unit) :
      HeapList.perform mapAny 0 4 list ⟨heap, []⟩ (.call (.get 0)) =
        .ok (.item (HeapList.get 4 list ⟨heap, []⟩ 0), list, ⟨heap, []⟩) := rfl
  obtain ⟨last, item, session⟩ : ∃ last item,
      Session.Run (ListServes mapAny 4 (2 ^ 63 - 0x800))
        ⟨[], heap', { items := 0x1000 + 29, length := 0, capacity := 4 }⟩
        [.call (.add 7), .call (.add 5), .call .reverse, .call (.get 0)]
        [.nothing, .nothing, .nothing, .item item] last := by
    refine ⟨_, _, .cons (.call (by decide : 7 < 256 ^ 4) (added _ _ 7 (by decide)) low) (.cons
      (.call (by decide : 5 < 256 ^ 4) (added _ _ 5 (by decide)) low) (.cons
      (.call trivial (reversed _ _) low) (.cons (.call trivial (got _ _) low) (.nil _))))⟩
  obtain ⟨contents, replayed, _⟩ := list_session (by decide) (Nat.le_refl _) run (by decide)
    (show 4 * 4 ≤ 2 ^ 64 - 0x1000 by decide) made low session
  have meant : Session.replay (fun contents request => some (ListRequest.meaning contents request)) []
      [.call (.add 7), .call (.add 5), .call .reverse, .call (.get 0)] =
        some ([.nothing, .nothing, .nothing, .item 5], [5, 7]) := rfl
  rw [meant] at replayed
  have five : item = 5 := by
    simp only [Option.some.injEq, Prod.mk.injEq, List.cons.injEq, Answer.item.injEq] at replayed
    omega
  exact ⟨_, fuel, _, _, last, run, made, five ▸ session⟩

end OkeOS
