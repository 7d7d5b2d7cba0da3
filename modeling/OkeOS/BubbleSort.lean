import Mathlib.Order.Defs.Unbundled
import Mathlib.Data.List.Perm.Basic

/-!
Bubble sort on lists.  A pass carries a greatest element to the end; passes over shorter and
shorter fronts sort the list, and equivalent elements never change their order.
-/

namespace BubbleSort

section Order

variable {α : Type} (gt : α → α → Prop)

/-- Neither element is greater. -/
def Equivalent (first second : α) : Prop := ¬gt first second ∧ ¬gt second first

instance [DecidableRel gt] (first : α) : DecidablePred (Equivalent gt first) := fun _ =>
  inferInstanceAs (Decidable (_ ∧ _))

variable {gt} [IsStrictWeakOrder α gt]

theorem not_gt_of_gt {first second : α} (greater : gt first second) : ¬gt second first :=
  fun less => irrefl_of gt first (trans_of gt greater less)

theorem not_gt_trans {first second third : α} (left : ¬gt first second) (right : ¬gt second third) :
    ¬gt first third := by
  intro greater
  by_cases below : gt second first
  · exact right (trans_of gt below greater)
  · by_cases above : gt third second
    · exact left (trans_of gt greater above)
    · exact (IsStrictWeakOrder.incomp_trans first second third ⟨left, below⟩ ⟨right, above⟩).1 greater

/-- A greater element is equivalent to nothing that a smaller one is equivalent to. -/
theorem not_equivalent_both {first second item : α} (greater : gt first second)
    (same : Equivalent gt item first) : ¬Equivalent gt item second := by
  intro other
  exact (IsStrictWeakOrder.incomp_trans first item second ⟨same.2, same.1⟩ ⟨other.1, other.2⟩).1
    greater

end Order

section

variable {α : Type} (gt : α → α → Prop) [DecidableRel gt]

/-- Carry `item` through `list`: what is left behind, and what arrives at the end. -/
def carry : α → List α → List α × α
  | item, [] => ([], item)
  | item, next :: rest =>
      if gt item next then
        let (left, last) := carry item rest
        (next :: left, last)
      else
        let (left, last) := carry next rest
        (item :: left, last)

/-- Passes over the first `count` elements, the first `count - 1`, and so on. -/
def passes : Nat → List α → List α
  | 0, list => list
  | _ + 1, [] => []
  | count + 1, item :: rest =>
      let (left, last) := carry gt item (rest.take count)
      passes count (left ++ last :: rest.drop count)

variable {gt}

theorem carry_cons (item next : α) (rest : List α) :
    carry gt item (next :: rest) =
      if gt item next then (next :: (carry gt item rest).1, (carry gt item rest).2)
      else (item :: (carry gt next rest).1, (carry gt next rest).2) := rfl

theorem carry_concat (item : α) (list : List α) (next : α) :
    carry gt item (list ++ [next]) =
      if gt (carry gt item list).2 next then
        ((carry gt item list).1 ++ [next], (carry gt item list).2)
      else ((carry gt item list).1 ++ [(carry gt item list).2], next) := by
  induction list generalizing item with
  | nil => rfl
  | cons first rest ih =>
      rw [List.cons_append, carry_cons, carry_cons]
      by_cases more : gt item first
      · rw [if_pos more, if_pos more, ih item]
        split <;> rfl
      · rw [if_neg more, if_neg more, ih first]
        split <;> rfl

theorem carry_length (item : α) (list : List α) : (carry gt item list).1.length = list.length := by
  induction list generalizing item with
  | nil => rfl
  | cons next rest ih =>
      rw [carry_cons]
      split
      · rw [List.length_cons, ih, List.length_cons]
      · rw [List.length_cons, ih, List.length_cons]

theorem carry_perm (item : α) (list : List α) :
    ((carry gt item list).1 ++ [(carry gt item list).2]).Perm (item :: list) := by
  induction list generalizing item with
  | nil => exact .refl _
  | cons next rest ih =>
      rw [carry_cons]
      split
      · exact ((ih item).cons next).trans (.swap item next rest)
      · exact (ih next).cons item

theorem passes_cons (count : Nat) (item : α) (rest : List α) :
    passes gt (count + 1) (item :: rest) =
      passes gt count ((carry gt item (rest.take count)).1 ++
        (carry gt item (rest.take count)).2 :: rest.drop count) := rfl

theorem pass_perm (count : Nat) (item : α) (rest : List α) :
    ((carry gt item (rest.take count)).1 ++
      (carry gt item (rest.take count)).2 :: rest.drop count).Perm (item :: rest) := by
  have front := (@carry_perm α gt _ item (rest.take count)).append_right (rest.drop count)
  rwa [List.append_assoc, List.singleton_append, List.cons_append, List.take_append_drop] at front

theorem passes_perm (count : Nat) (list : List α) : (passes gt count list).Perm list := by
  induction count generalizing list with
  | zero => exact .refl _
  | succ count ih =>
      cases list with
      | nil => exact .refl _
      | cons item rest =>
          rw [passes_cons]
          exact (ih _).trans (pass_perm count item rest)

variable [order : IsStrictWeakOrder α gt]

theorem carry_greatest (item : α) (list : List α) :
    ∀ other ∈ item :: list, ¬gt other (carry gt item list).2 := by
  induction list generalizing item with
  | nil =>
      intro other member
      rw [List.mem_singleton.mp member]
      exact irrefl_of gt item
  | cons next rest ih =>
      rw [carry_cons]
      split
      · rename_i more
        have below := ih item item List.mem_cons_self
        intro other member
        rcases List.mem_cons.mp member with rfl | later
        · exact below
        · rcases List.mem_cons.mp later with rfl | inRest
          · exact not_gt_trans (not_gt_of_gt more) below
          · exact ih item other (List.mem_cons_of_mem _ inRest)
      · rename_i notMore
        intro other member
        rcases List.mem_cons.mp member with rfl | later
        · exact not_gt_trans notMore (ih next next List.mem_cons_self)
        · exact ih next other later

theorem carry_stable (item other : α) (list : List α) :
    ((carry gt item list).1 ++ [(carry gt item list).2]).filter (Equivalent gt other) =
      (item :: list).filter (Equivalent gt other) := by
  induction list generalizing item with
  | nil => rfl
  | cons next rest ih =>
      rw [carry_cons]
      split
      · rename_i more
        rw [List.cons_append, List.filter_cons, ih item, List.filter_cons, List.filter_cons,
          List.filter_cons]
        by_cases sameItem : Equivalent gt other item
        · have notNext := not_equivalent_both more sameItem
          simp [sameItem, notNext]
        · simp [sameItem]
      · rw [List.cons_append, List.filter_cons, ih next]
        conv_rhs => rw [List.filter_cons]

theorem passes_stable (other : α) (count : Nat) (list : List α) :
    (passes gt count list).filter (Equivalent gt other) = list.filter (Equivalent gt other) := by
  induction count generalizing list with
  | zero => rfl
  | succ count ih =>
      cases list with
      | nil => rfl
      | cons item rest =>
          have front := @carry_stable α gt _ _ item other (rest.take count)
          rw [passes_cons, ih, ← List.singleton_append, ← List.append_assoc, List.filter_append, front,
            ← List.filter_append, List.cons_append, List.take_append_drop]

/-- The elements behind `count` are in place, and the passes put the others in place. -/
theorem passes_sorted (count : Nat) (list : List α) (enough : count ≤ list.length)
    (sorted : (list.drop count).Pairwise fun first second => ¬gt first second)
    (above : ∀ first ∈ list.take count, ∀ second ∈ list.drop count, ¬gt first second) :
    (passes gt count list).Pairwise fun first second => ¬gt first second := by
  induction count generalizing list with
  | zero => exact sorted
  | succ count ih =>
      cases list with
      | nil => exact .nil
      | cons item rest =>
          rw [List.length_cons] at enough
          rw [List.drop_succ_cons] at sorted above
          rw [List.take_succ_cons] at above
          have perm := @carry_perm α gt _ item (rest.take count)
          have greatest := @carry_greatest α gt _ _ item (rest.take count)
          have length := @carry_length α gt _ item (rest.take count)
          rw [List.length_take, Nat.min_eq_left (by omega)] at length
          rw [passes_cons]
          generalize carry gt item (rest.take count) = carried at perm greatest length
          obtain ⟨left, last⟩ := carried
          simp only at perm greatest length ⊢
          have inFront {other : α} (member : other ∈ left ++ [last]) : other ∈ item :: rest.take count :=
            perm.mem_iff.mp member
          apply ih
          · rw [List.length_append, length]
            omega
          · rw [List.drop_append_of_le_length (by omega), ← length, List.drop_length, List.nil_append,
              length]
            exact List.pairwise_cons.mpr ⟨above last (inFront (by simp)), sorted⟩
          · intro first firstIn second secondIn
            rw [List.take_append_of_le_length (by omega), ← length, List.take_length] at firstIn
            rw [List.drop_append_of_le_length (by omega), ← length, List.drop_length, List.nil_append,
              length] at secondIn
            have member := inFront (List.mem_append_left [last] firstIn)
            rcases List.mem_cons.mp secondIn with rfl | behind
            · exact greatest first member
            · exact above first member second behind

end

end BubbleSort
