import Mathlib.Tactic.Ring

/-!
Packed structs and bit fields: values of given widths one after another in a word, the first in
the lowest bits.
-/

namespace PackedFields

structure Field where
  width : Nat
  value : Nat

def Field.of {width : Nat} (value : BitVec width) : Field := { width := width, value := value.toNat }

def totalWidth : List Field → Nat
  | [] => 0
  | field :: rest => field.width + totalWidth rest

def pack : List Field → Nat
  | [] => 0
  | field :: rest => field.value % 2 ^ field.width + 2 ^ field.width * pack rest

/-- `width` bits of the word, from bit `offset` on. -/
def slice (word offset width : Nat) : Nat := word / 2 ^ offset % 2 ^ width

theorem totalWidth_append (front back : List Field) :
    totalWidth (front ++ back) = totalWidth front + totalWidth back := by
  induction front with
  | nil => exact (Nat.zero_add _).symm
  | cons field rest ih => rw [List.cons_append, totalWidth, ih, totalWidth, Nat.add_assoc]

theorem pack_lt (fields : List Field) : pack fields < 2 ^ totalWidth fields := by
  induction fields with
  | nil => exact Nat.one_pos
  | cons field rest ih =>
      have low := Nat.mod_lt field.value (Nat.two_pow_pos field.width)
      have high : 2 ^ field.width * (pack rest + 1) ≤ 2 ^ field.width * 2 ^ totalWidth rest :=
        Nat.mul_le_mul_left _ ih
      rw [pack, totalWidth, Nat.pow_add]
      rw [Nat.mul_add, Nat.mul_one] at high
      omega

theorem pack_append (front back : List Field) :
    pack (front ++ back) = pack front + 2 ^ totalWidth front * pack back := by
  induction front with
  | nil => simp [pack, totalWidth]
  | cons field rest ih =>
      rw [List.cons_append, pack, ih, pack, totalWidth, Nat.pow_add]
      ring

theorem pack_one (field : Field) : pack [field] = field.value % 2 ^ field.width := by
  rw [pack, pack, Nat.mul_zero, Nat.add_zero]

/-- The bits where some of the fields lie are these fields. -/
theorem slice_pack (front middle back : List Field) :
    slice (pack (front ++ (middle ++ back))) (totalWidth front) (totalWidth middle) =
      pack middle := by
  rw [slice, pack_append, pack_append, Nat.add_mul_div_left _ _ (Nat.two_pow_pos _),
    Nat.div_eq_of_lt (pack_lt front), Nat.zero_add, Nat.add_mul_mod_self_left,
    Nat.mod_eq_of_lt (pack_lt middle)]

theorem slice_of {width : Nat} (front back : List Field) (value : BitVec width) :
    slice (pack (front ++ ([Field.of value] ++ back))) (totalWidth front) width = value.toNat := by
  have here := slice_pack front [Field.of value] back
  rw [pack_one, show totalWidth [Field.of value] = width from Nat.add_zero width] at here
  rw [here]
  exact Nat.mod_eq_of_lt value.isLt

theorem slice_slice (word : Nat) {offset width inner innerWidth : Nat}
    (inside : inner + innerWidth ≤ width) :
    slice (slice word offset width) inner innerWidth = slice word (offset + inner) innerWidth := by
  obtain ⟨rest, rfl⟩ : ∃ rest, width = inner + (innerWidth + rest) :=
    ⟨width - inner - innerWidth, by omega⟩
  rw [slice, slice, slice, Nat.pow_add, Nat.mod_mul_right_div_self, Nat.pow_add,
    Nat.mod_mul_right_mod, Nat.div_div_eq_div_mul, ← Nat.pow_add]

end PackedFields
