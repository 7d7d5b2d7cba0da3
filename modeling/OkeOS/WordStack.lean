import Mathlib.Algebra.Ring.Nat
import Mathlib.Data.List.Basic
import Mathlib.Logic.Function.Basic

/-!
A stack of 64-bit words that grows down.  Memory is read and written only a whole number
of words away from the stack pointer, so it is a function from addresses to words.
-/

namespace WordStack

abbrev Word := BitVec 64

abbrev WordMemory := Word → Word

/-- The address `i` words above `base`. -/
def slot (base : Word) (i : Nat) : Word := base + BitVec.ofNat 64 (8 * i)

@[simp] theorem slot_zero (base : Word) : slot base 0 = base := by simp [slot]

theorem slot_slot (base : Word) (i j : Nat) : slot (slot base i) j = slot base (i + j) := by
  unfold slot
  bv_omega

theorem slot_below (base : Word) (i : Nat) : slot (base - 8) (i + 1) = slot base i := by
  unfold slot
  bv_omega

theorem slot_left_injective {first second : Word} {i : Nat} (same : slot first i = slot second i) :
    first = second := by
  unfold slot at same
  bv_omega

/-- The word right below `base` is none of the first words above it. -/
theorem slot_ne_below (base : Word) {i : Nat} (small : i < 2 ^ 60) : slot base i ≠ base - 8 := by
  unfold slot
  bv_omega

/-- The first `count` words from `base` on. -/
def readWords (mem : WordMemory) (base : Word) (count : Nat) : List Word :=
  (List.range count).map fun i => mem (slot base i)

theorem readWords_succ (mem : WordMemory) (base : Word) (count : Nat) :
    readWords mem base (count + 1) = mem base :: readWords mem (slot base 1) count := by
  simp only [readWords, List.range_succ_eq_map, List.map_cons, slot_zero, List.map_map,
    List.cons.injEq, true_and]
  apply List.map_congr_left
  intro i _
  rw [Function.comp_apply, slot_slot, Nat.add_comm 1 i]

theorem readWords_take (mem : WordMemory) (base : Word) {count total : Nat}
    (le : count ≤ total) : (readWords mem base total).take count = readWords mem base count := by
  rw [readWords, readWords, ← List.map_take, List.take_range, Nat.min_eq_left le]

theorem readWords_congr {first second : WordMemory} {base : Word} {count : Nat}
    (same : ∀ i < count, first (slot base i) = second (slot base i)) :
    readWords first base count = readWords second base count :=
  List.map_congr_left fun i member => same i (List.mem_range.mp member)

structure Stack where
  mem : WordMemory
  sp : Word

def push (stack : Stack) (word : Word) : Stack :=
  { mem := Function.update stack.mem (stack.sp - 8) word, sp := stack.sp - 8 }

def pushAll (stack : Stack) (words : List Word) : Stack := words.foldl push stack

theorem pushAll_append (stack : Stack) (first second : List Word) :
    pushAll (pushAll stack first) second = pushAll stack (first ++ second) :=
  List.foldl_append.symm

theorem readWords_push (stack : Stack) (word : Word) {count : Nat} (small : count ≤ 2 ^ 60) :
    readWords (push stack word).mem (push stack word).sp (count + 1) =
      word :: readWords stack.mem stack.sp count := by
  have next : slot (stack.sp - 8) 1 = stack.sp := by
    rw [slot_below, slot_zero]
  rw [readWords_succ]
  simp only [push, Function.update_self, next]
  rw [readWords_congr fun i less => Function.update_of_ne (slot_ne_below stack.sp (by omega)) _ _]

/-- Above the stack pointer lie the pushed words, the last one first, and then the words
that were there before. -/
theorem readWords_pushAll (words : List Word) (stack : Stack) {count : Nat}
    (small : words.length + count ≤ 2 ^ 60) :
    readWords (pushAll stack words).mem (pushAll stack words).sp (words.length + count) =
      words.reverse ++ readWords stack.mem stack.sp count := by
  induction words generalizing stack count with
  | nil => simp [pushAll]
  | cons word rest ih =>
      rw [List.length_cons] at small ⊢
      have later := ih (push stack word) (show rest.length + (count + 1) ≤ 2 ^ 60 by omega)
      rw [readWords_push stack word (by omega)] at later
      rw [show rest.length + 1 + count = rest.length + (count + 1) by omega, pushAll,
        List.foldl_cons, List.reverse_cons, List.append_assoc]
      exact later

theorem pushAll_sp (words : List Word) (stack : Stack) :
    slot (pushAll stack words).sp words.length = stack.sp := by
  induction words generalizing stack with
  | nil => exact slot_zero _
  | cons word rest ih =>
      have later := ih (push stack word)
      rw [List.length_cons, ← slot_slot, pushAll, List.foldl_cons]
      rw [pushAll] at later
      rw [later, push, slot_below, slot_zero]

end WordStack
