import OkeOS.BubbleSort
import OkeOS.ListRefine

/-!
`List::sort`.  The two loops are the passes of bubble sort over the first `length` cells, and
no other cell is accessed.
-/

namespace OkeOS

open BubbleSort

/-- The blocks, and the indices of `items` accessed so far. -/
structure Accessed (T : Type) where
  blocks : Blocks T
  indices : List Nat

section

variable {T : Type}

def Accessed.read (state : Accessed T) (pointer index : Nat) : Option (T × Accessed T) := do
  let item ← state.blocks.read pointer index
  some (item, { state with indices := state.indices ++ [index] })

def Accessed.write (state : Accessed T) (pointer index : Nat) (item : T) : Option (Accessed T) := do
  let blocks ← state.blocks.write pointer index item
  some { blocks := blocks, indices := state.indices ++ [index] }

namespace ListObject

variable (gt : T → T → Prop) [DecidableRel gt]

/-- The body of the inner loop of `sort`. -/
def compareSwap (state : Accessed T) (items j : Nat) : Option (Accessed T) := do
  let (left, state) ← state.read items j
  let (right, state) ← state.read items (j + 1)
  if gt left right then do
    let (temp, state) ← state.read items j
    let (next, state) ← state.read items (j + 1)
    let state ← state.write items j next
    state.write items (j + 1) temp
  else some state

/-- The first rounds of the inner loop. -/
def sortInner (state : Accessed T) (items : Nat) : Nat → Option (Accessed T)
  | 0 => some state
  | j + 1 => do
      let state ← sortInner state items j
      compareSwap gt state items j

/-- The first rounds of the outer loop. -/
def sortOuter (state : Accessed T) (items length : Nat) : Nat → Option (Accessed T)
  | 0 => some state
  | i + 1 => do
      let state ← sortOuter state items length i
      sortInner gt state items (sub64 (sub64 length i) 1)

def sort (list : ListObject) (blocks : Blocks T) : Option (Accessed T) :=
  sortOuter gt { blocks := blocks, indices := [] } list.items list.length list.length

end ListObject

end

namespace ListObject

/-- The rounds of the inner loop in a round of the outer one. -/
theorem innerRounds {length i : Nat} (word : length < 2 ^ 64) (round : i < length) :
    sub64 (sub64 length i) 1 = length - (i + 1) := by
  have shorter := sub64_of_le (Nat.le_of_lt round) word
  rw [shorter, sub64_of_le (by omega) (by omega), Nat.sub_add_eq]

section

variable {T : Type} {gt : T → T → Prop} [DecidableRel gt] {blocks : Blocks T} {items : Nat}
  (live : items ∈ blocks.live)

include live

theorem read_middle (front back : List T) (item : T) (indices : List Nat) {j : Nat}
    (position : front.length = j) :
    (⟨blocks.put items (front ++ item :: back), indices⟩ : Accessed T).read items j =
      some (item, ⟨blocks.put items (front ++ item :: back), indices ++ [j]⟩) := by
  have found : (front ++ item :: back)[j]? = some item := by
    rw [List.getElem?_append_right (by omega), show j - front.length = 0 by omega,
      List.getElem?_cons_zero]
  rw [Accessed.read, Blocks.read_put live, found]
  rfl

theorem write_middle (front back : List T) (item other : T) (indices : List Nat) {j : Nat}
    (position : front.length = j) :
    (⟨blocks.put items (front ++ item :: back), indices⟩ : Accessed T).write items j other =
      some ⟨blocks.put items (front ++ other :: back), indices ++ [j]⟩ := by
  have stored : (front ++ item :: back).set j other = front ++ other :: back := by
    rw [List.set_append_right _ _ (by omega), show j - front.length = 0 by omega, List.set_cons_zero]
  rw [Accessed.write, Blocks.write_put live (by simp; omega), stored]
  rfl

/-- The larger of two neighbours ends up on the right. -/
theorem compareSwap_put (front back : List T) (left right : T) (indices : List Nat) {j : Nat}
    (position : front.length = j) :
    ∃ more, compareSwap gt ⟨blocks.put items (front ++ left :: right :: back), indices⟩ items j =
        some ⟨blocks.put items (if gt left right then front ++ right :: left :: back
          else front ++ left :: right :: back), indices ++ more⟩ ∧
      ∀ index ∈ more, index ≤ j + 1 := by
  have shape (first second : T) : front ++ first :: second :: back =
      front ++ [first] ++ second :: back := by simp
  have next (first : T) : (front ++ [first]).length = j + 1 := by simp [position]
  rw [compareSwap, read_middle live _ _ _ _ position]
  simp only [Option.bind_eq_bind, Option.bind_some]
  rw [shape, read_middle live _ _ _ _ (next left)]
  simp only [Option.bind_some]
  by_cases greater : gt left right
  · rw [if_pos greater, if_pos greater, ← shape, read_middle live _ _ _ _ position]
    simp only [Option.bind_some]
    rw [shape, read_middle live _ _ _ _ (next left)]
    simp only [Option.bind_some]
    rw [← shape, write_middle live _ _ _ _ _ position]
    simp only [Option.bind_some]
    rw [shape, write_middle live _ _ _ _ _ (next right), ← shape]
    refine ⟨[j, j + 1, j, j + 1, j, j + 1], by simp, ?_⟩
    intro index member
    simp only [List.mem_cons, List.not_mem_nil, or_false] at member
    omega
  · rw [if_neg greater, if_neg greater]
    refine ⟨[j, j + 1], by simp, ?_⟩
    intro index member
    simp only [List.mem_cons, List.not_mem_nil, or_false] at member
    omega

/-- The inner loop carries the first cell through the next `count` cells. -/
theorem sortInner_put (item : T) (rest : List T) (indices : List Nat) {count : Nat}
    (enough : count ≤ rest.length) :
    ∃ more, sortInner gt ⟨blocks.put items (item :: rest), indices⟩ items count =
        some ⟨blocks.put items ((carry gt item (rest.take count)).1 ++
          (carry gt item (rest.take count)).2 :: rest.drop count), indices ++ more⟩ ∧
      ∀ index ∈ more, index ≤ count := by
  induction count with
  | zero => exact ⟨[], by simp [sortInner, carry], by simp⟩
  | succ count ih =>
      obtain ⟨earlier, run, below⟩ := ih (by omega)
      have length := @carry_length T gt _ item (rest.take count)
      rw [List.length_take, Nat.min_eq_left (by omega)] at length
      have behind : rest.drop count = rest[count] :: rest.drop (count + 1) :=
        List.drop_eq_getElem_cons (by omega)
      have front : rest.take (count + 1) = rest.take count ++ [rest[count]] :=
        List.take_succ_eq_append_getElem (by omega)
      rw [sortInner, run, behind, front, carry_concat]
      generalize carry gt item (rest.take count) = carried at length
      obtain ⟨left, last⟩ := carried
      obtain ⟨more, swapped, inside⟩ := @compareSwap_put T gt _ blocks items live left
        (rest.drop (count + 1)) last rest[count] (indices ++ earlier) count length
      refine ⟨earlier ++ more, ?_, ?_⟩
      · simp only [Option.bind_eq_bind, Option.bind_some]
        rw [swapped, List.append_assoc]
        by_cases greater : gt last rest[count]
        · simp [greater]
        · simp [greater]
      · intro index member
        rcases List.mem_append.mp member with first | second
        · exact (below index first).trans (Nat.le_succ _)
        · exact inside index second

/-- What is left to do after some rounds is `passes` over the cells that are not in place. -/
theorem sortOuter_put (contents extra : List T) (word : contents.length < 2 ^ 64) {count : Nat}
    (enough : count ≤ contents.length) :
    ∃ cells indices, sortOuter gt ⟨blocks.put items (contents ++ extra), []⟩ items contents.length
        count = some ⟨blocks.put items (cells ++ extra), indices⟩ ∧
      cells.length = contents.length ∧ (∀ index ∈ indices, index < contents.length) ∧
      passes gt contents.length contents = passes gt (contents.length - count) cells := by
  induction count with
  | zero => exact ⟨contents, [], rfl, rfl, by simp, rfl⟩
  | succ count ih =>
      obtain ⟨cells, indices, run, length, inside, left⟩ := ih (by omega)
      obtain ⟨item, rest, rfl⟩ : ∃ item rest, cells = item :: rest :=
        List.exists_cons_of_length_pos (by omega)
      rw [List.length_cons] at length
      have bound := innerRounds word (Nat.lt_of_succ_le enough)
      obtain ⟨more, inner, below⟩ := @sortInner_put T gt _ blocks items live item (rest ++ extra)
        indices (contents.length - (count + 1)) (by rw [List.length_append]; omega)
      have fewer : contents.length - count = contents.length - (count + 1) + 1 := by omega
      rw [List.take_append_of_le_length (by omega), List.drop_append_of_le_length (by omega)] at inner
      rw [fewer, passes_cons] at left
      refine ⟨_, indices ++ more, ?_, ?_, ?_, left⟩
      · rw [sortOuter, run, bound]
        simp only [Option.bind_eq_bind, Option.bind_some]
        rw [List.cons_append, inner, List.append_assoc, List.cons_append]
      · rw [(pass_perm _ item rest).length_eq, List.length_cons, length]
      · intro index member
        rcases List.mem_append.mp member with earlier | later
        · exact inside index earlier
        · have limit := below index later
          omega

end

/-- `sort` accesses the first `length` cells only and leaves them sorted, with equivalent items
in their order. -/
theorem sort_sorts {T : Type} {gt : T → T → Prop} [DecidableRel gt] [IsStrictWeakOrder T gt]
    {list : ListObject} {blocks : Blocks T} {contents extra : List T}
    (live : list.items ∈ blocks.live) (cells : blocks.cells list.items = contents ++ extra)
    (length : list.length = contents.length) (word : list.length < 2 ^ 64) :
    ∃ sorted indices, list.sort gt blocks =
        some { blocks := blocks.put list.items (sorted ++ extra), indices := indices } ∧
      (∀ index ∈ indices, index < list.length) ∧ sorted.Perm contents ∧
      sorted.Pairwise (fun first second => ¬gt first second) ∧
      ∀ item, sorted.filter (Equivalent gt item) = contents.filter (Equivalent gt item) := by
  have same : blocks.put list.items (contents ++ extra) = blocks := by rw [← cells, Blocks.put_same]
  obtain ⟨sorted, indices, run, _, inside, done⟩ := @sortOuter_put T gt _ blocks list.items live
    contents extra (length ▸ word) contents.length (Nat.le_refl _)
  rw [Nat.sub_self, passes] at done
  rw [same, ← length] at run
  rw [← length] at inside
  refine ⟨sorted, indices, run, inside, ?_, ?_, ?_⟩
  · rw [← done]
    exact passes_perm _ contents
  · rw [← done]
    exact passes_sorted _ contents (Nat.le_refl _) (by simp) (by simp)
  · intro item
    rw [← done]
    exact passes_stable item _ contents

/-- The numbers that `DBG_TESTLISTS` sorts, in a block for eight of them. -/
def unsorted : List UInt16 := [34, 12, 56, 90, 78]

def unsortedBlocks : Blocks UInt16 := { live := [1], cells := fun _ => unsorted ++ [7, 7, 7] }

theorem sort_sorts_unsorted : ∃ sorted indices,
    ListObject.sort (fun first second : UInt16 => first > second)
        { items := 1, length := 5, capacity := 8 } unsortedBlocks = some
      { blocks := unsortedBlocks.put 1 (sorted ++ [7, 7, 7]), indices := indices } ∧
      sorted.Perm unsorted ∧ sorted.Pairwise fun first second => ¬first > second := by
  have order : IsStrictWeakOrder UInt16 fun first second => first > second := by
    refine { irrefl := ?_, trans := ?_, incomp_trans := ?_ }
    all_goals simp only [gt_iff_lt, UInt16.lt_iff_toNat_lt]
    all_goals omega
  obtain ⟨sorted, indices, run, _, perm, inOrder, _⟩ := @sort_sorts UInt16 (fun first second =>
    first > second) _ order { items := 1, length := 5, capacity := 8 } unsortedBlocks unsorted
    [7, 7, 7] (by decide) rfl rfl (by decide)
  exact ⟨sorted, indices, run, perm, inOrder⟩

end ListObject

end OkeOS
