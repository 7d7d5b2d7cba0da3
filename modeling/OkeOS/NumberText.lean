import Mathlib.Algebra.Order.Group.Nat
import Mathlib.Data.List.Induction
import OkeOS.ConsoleCore

/-!
What `itoa` and `uitoa` write: the digits of the number, the first digit first.
-/

namespace OkeOS

def digitChar (digit : Nat) : UInt8 := UInt8.ofNat (if digit < 10 then 48 + digit else 87 + digit)

/-- The digit table is symmetric around its middle, so the sign does not matter. -/
theorem digitTable_symmetric : ∀ digit : Fin 36,
    digitTable.getD (35 + digit.val) 0 = digitChar digit.val ∧
      digitTable.getD (35 - digit.val) 0 = digitChar digit.val := by
  decide

theorem digitTable_getD {base : Nat} (large : 2 ≤ base) (small : base ≤ 36) (value : Int) :
    digitTable.getD (35 + value.tmod base).toNat 0 = digitChar (value.natAbs % base) := by
  have magnitude : (value.tmod base).natAbs = value.natAbs % base := by
    rw [Int.natAbs_tmod, Int.natAbs_natCast]
  have less : value.natAbs % base < base := Nat.mod_lt _ (by omega)
  obtain ⟨above, below⟩ := digitTable_symmetric ⟨value.natAbs % base, by omega⟩
  rcases Int.natAbs_eq (value.tmod base) with positive | negative
  · rw [positive, magnitude, show (35 + ((value.natAbs % base : Nat) : Int)).toNat =
      35 + value.natAbs % base by omega]
    exact above
  · rw [negative, magnitude, show (35 + -((value.natAbs % base : Nat) : Int)).toNat =
      35 - value.natAbs % base by omega]
    exact below

theorem digitChar_plain {digit : Nat} (small : digit < 36) :
    digitChar digit ≠ 0 ∧ digitChar digit ≠ '$'.toUInt8 := by
  have all : ∀ digit : Fin 36, digitChar digit.val ≠ 0 ∧ digitChar digit.val ≠ '$'.toUInt8 := by
    decide
  exact all ⟨digit, small⟩

section

variable {base : Nat} {large : 2 ≤ base}

/-- The loop writes the digits of the magnitude, the last one first. -/
theorem digitLoop_eq (large : 2 ≤ base) (small : base ≤ 36) (value : Int) :
    digitLoop base large value = (List.range (digitLoop base large value).length).map
      fun i => digitChar (value.natAbs / base ^ i % base) := by
  induction value using digitLoop.induct base large with
  | case1 value last =>
      rw [digitLoop, if_pos last, digitTable_getD large small]
      simp
  | case2 value more ih =>
      rw [digitLoop, if_neg more, digitTable_getD large small, List.length_cons,
        List.range_succ_eq_map, List.map_cons, List.map_map, Nat.pow_zero, Nat.div_one, ih]
      simp only [List.length_map, List.length_range]
      congr 1
      apply List.map_congr_left
      intro i _
      rw [Function.comp_apply, Int.natAbs_tdiv, Int.natAbs_natCast, Nat.succ_eq_add_one,
        Nat.pow_succ', ← Nat.div_div_eq_div_mul]
      rfl

theorem digitLoop_bound (large : 2 ≤ base) (value : Int) :
    value.natAbs < base ^ (digitLoop base large value).length := by
  induction value using digitLoop.induct base large with
  | case1 value last =>
      rw [digitLoop, if_pos last, List.length_singleton, Nat.pow_one]
      have quotient := Int.natAbs_tdiv value base
      rw [last, Int.natAbs_zero, Int.natAbs_natCast] at quotient
      exact (Nat.div_eq_zero_iff_lt (by omega)).mp quotient.symm
  | case2 value more ih =>
      rw [Int.natAbs_tdiv, Int.natAbs_natCast] at ih
      rw [digitLoop, if_neg more, List.length_cons, Nat.pow_succ]
      exact (Nat.div_lt_iff_lt_mul (by omega)).mp ih

theorem digitLoop_length_le (value : Int) {count : Nat} (positive : 0 < count)
    (less : value.natAbs < base ^ count) : (digitLoop base large value).length ≤ count := by
  induction value using digitLoop.induct base large generalizing count with
  | case1 value last =>
      rw [digitLoop, if_pos last, List.length_singleton]
      exact positive
  | case2 value more ih =>
      rw [digitLoop, if_neg more, List.length_cons]
      have quotient : (value.tdiv base).natAbs = value.natAbs / base := by
        rw [Int.natAbs_tdiv, Int.natAbs_natCast]
        rfl
      have nonzero : value.natAbs / base ≠ 0 := by
        rw [← quotient]
        exact Int.natAbs_ne_zero.mpr more
      obtain ⟨fewer, rfl⟩ : ∃ fewer, count = fewer + 1 := ⟨count - 1, by omega⟩
      have below : value.natAbs / base < base ^ fewer := by
        rw [Nat.div_lt_iff_lt_mul (by omega), ← Nat.pow_succ]
        exact less
      have some : 0 < fewer := by
        by_contra none
        rw [show fewer = 0 by omega, Nat.pow_zero] at below
        omega
      have shorter := ih some (quotient ▸ below)
      omega

theorem digitLoop_positive (large : 2 ≤ base) (value : Int) : 0 < (digitLoop base large value).length := by
  rw [digitLoop]
  split <;> simp

theorem digitLoop_plain (small : base ≤ 36) {value : Int} {c : UInt8}
    (member : c ∈ digitLoop base large value) : c ≠ 0 ∧ c ≠ '$'.toUInt8 := by
  rw [digitLoop_eq large small] at member
  obtain ⟨i, _, rfl⟩ := List.mem_map.mp member
  have less : value.natAbs / base ^ i % base < base := Nat.mod_lt _ (by omega)
  exact digitChar_plain (by omega)

end

theorem swap_ends (front middle back : List UInt8) (first last : UInt8) :
    ((front ++ first :: (middle ++ last :: back)).set front.length last).set
        (front.length + middle.length + 1) first =
      front ++ last :: (middle ++ first :: back) := by
  rw [List.set_append_right _ _ (Nat.le_refl _), Nat.sub_self, List.set_cons_zero,
    List.set_append_right _ _ (by omega),
    show front.length + middle.length + 1 - front.length = middle.length + 1 by omega,
    List.set_cons_succ, List.set_append_right _ _ (Nat.le_refl _), Nat.sub_self, List.set_cons_zero]

/-- The loop turns the middle around. -/
theorem invert_eq (front middle back : List UInt8) :
    invert (front ++ middle ++ back) front.length (front.length + middle.length - 1) =
      front ++ middle.reverse ++ back := by
  induction middle using List.bidirectionalRec generalizing front back with
  | nil =>
      rw [invert, if_neg (by rw [List.length_nil]; omega)]
      rfl
  | singleton only =>
      rw [invert, if_neg (by rw [List.length_singleton]; omega)]
      rfl
  | cons_append first middle last ih =>
      have shape : front ++ first :: (middle ++ [last]) ++ back =
          front ++ first :: (middle ++ last :: back) := by simp
      have position : front.length + (first :: (middle ++ [last])).length - 1 =
          front.length + middle.length + 1 := by
        simp only [List.length_cons, List.length_append, List.length_nil]
        omega
      have atLow : (front ++ first :: (middle ++ last :: back)).getD front.length 0 = first := by
        simp
      have atPtr : (front ++ first :: (middle ++ last :: back)).getD
          (front.length + middle.length + 1) 0 = last := by
        rw [List.getD_eq_getElem?_getD, List.getElem?_append_right (by omega),
          show front.length + middle.length + 1 - front.length = middle.length + 1 by omega]
        simp
      rw [shape, position, invert, if_pos (by omega), atLow, atPtr, swap_ends]
      have later := ih (front ++ [last]) (first :: back)
      rw [List.length_append, List.length_singleton] at later
      rw [show front.length + middle.length + 1 - 1 = front.length + 1 + middle.length - 1 by omega,
        show front ++ last :: (middle ++ first :: back) =
          front ++ [last] ++ middle ++ first :: back by simp, later]
      simp

theorem ofBuffer_terminated {chars : List UInt8} (noNul : 0 ∉ chars) (rest : List UInt8) :
    (CString.ofBuffer (chars ++ 0 :: rest)).chars = chars := by
  have nonzero : ∀ c ∈ chars, decide (c ≠ 0) = true := by
    intro c member
    rw [decide_eq_true_eq]
    rintro rfl
    exact noNul member
  change List.takeWhile _ (chars ++ 0 :: rest) = chars
  rw [List.takeWhile_append_of_pos nonzero]
  simp

theorem itoa_eq (value : Int) {base : Nat} (large : 2 ≤ base) (small : base ≤ 36) :
    itoa value base = (if value < 0 ∧ base = 10 then ['-'.toUInt8] else []) ++
      (digitLoop base large value).reverse ++ [0] := by
  have positive := digitLoop_positive large value
  have sameBase : ((base : Int) = 10) = (base = 10) := by
    rw [eq_iff_iff]
    omega
  simp only [itoa, sameBase, Int.toNat_natCast]
  rw [dif_pos (by omega), ← invert_eq]
  congr 1
  simp only [List.length_append, List.length_singleton]
  omega

theorem uitoa_eq (value : Nat) {base : Nat} (large : 2 ≤ base) (small : base ≤ 36) :
    uitoa value base = (digitLoop base large value).reverse ++ [0] := by
  have turned := invert_eq [] (digitLoop base large value) [0]
  have positive := digitLoop_positive large (value : Int)
  simp only [List.nil_append, List.length_nil, Nat.zero_add] at turned
  simp only [uitoa]
  rw [dif_pos ⟨large, small⟩, ← turned]
  congr 1
  simp only [List.length_append, List.length_singleton]
  omega

/-- What `uitoa` prints has no terminator and no dollar sign inside. -/
theorem uitoa_string (value : Nat) {base : Nat} (large : 2 ≤ base) (small : base ≤ 36) :
    (CString.ofBuffer (uitoa value base)).chars = (digitLoop base large value).reverse := by
  rw [uitoa_eq value large small]
  apply ofBuffer_terminated
  intro member
  exact (digitLoop_plain small (List.mem_reverse.mp member)).1 rfl

/-- Sixteen hexadecimal digits. -/
def hexDigits (value : Nat) : List UInt8 :=
  (List.range 16).map fun i => digitChar (value / 16 ^ (15 - i) % 16)

theorem hexDigits_plain {value : Nat} {c : UInt8} (member : c ∈ hexDigits value) :
    c ≠ 0 ∧ c ≠ '$'.toUInt8 := by
  obtain ⟨i, _, rfl⟩ := List.mem_map.mp member
  have less : value / 16 ^ (15 - i) % 16 < 16 := Nat.mod_lt _ (by decide)
  exact digitChar_plain (by omega)

theorem getElem?_memcpyBuffer (dest src : List UInt8) (offset n i : Nat) :
    (memcpyBuffer dest offset src n)[i]? =
      if offset ≤ i ∧ i < offset + n ∧ i < dest.length then some (src.getD (i - offset) 0)
      else dest[i]? := by
  have sameLength (m : Nat) : (memcpyBuffer dest offset src m).length = dest.length := by
    induction m with
    | zero => rfl
    | succ m ih => rw [memcpyBuffer, List.length_set, ih]
  induction n with
  | zero => rw [memcpyBuffer, if_neg (by omega)]
  | succ n ih =>
      rw [memcpyBuffer, List.getElem?_set, sameLength, ih]
      by_cases here : offset + n = i
      · rw [if_pos here]
        by_cases inside : i < dest.length
        · rw [if_pos (by omega), if_pos (by omega), show i - offset = n by omega]
        · rw [if_neg (by omega), if_neg (by omega), List.getElem?_eq_none (by omega)]
      · rw [if_neg here]
        by_cases written : offset ≤ i ∧ i < offset + n ∧ i < dest.length
        · rw [if_pos written, if_pos (by omega)]
        · rw [if_neg written, if_neg (by omega)]

theorem hexBuffer_eq (value : UInt64) : hexBuffer value = hexDigits value.toNat ++ [0] := by
  have large : 2 ≤ 16 := by decide
  have short : (digitLoop 16 large value.toNat).length ≤ 16 := by
    apply digitLoop_length_le _ (by decide)
    rw [Int.natAbs_natCast]
    exact value.toNat_lt
  have digits := digitLoop_eq large (by decide) (value.toNat : Int)
  have bound := digitLoop_bound large (value.toNat : Int)
  rw [Int.natAbs_natCast] at digits bound
  have length : strlen (uitoa value.toNat 16) = (digitLoop 16 large value.toNat).length := by
    rw [strlen, uitoa_string value.toNat large (by decide), List.length_reverse]
  rw [hexBuffer, length, uitoa_eq value.toNat large (by decide)]
  generalize digitLoop 16 large value.toNat = written at short digits bound
  have digitAt (j : Nat) (inside : j < written.length) :
      written[j]? = some (digitChar (value.toNat / 16 ^ j % 16)) := by
    rw [digits, List.getElem?_map, List.getElem?_range inside]
    rfl
  have zeros : (List.replicate 16 '0'.toUInt8 ++ [0]).length = 17 := rfl
  apply List.ext_getElem?
  intro i
  rw [getElem?_memcpyBuffer, zeros]
  by_cases low : i < 16
  · have right : (hexDigits value.toNat ++ [0])[i]? =
        some (digitChar (value.toNat / 16 ^ (15 - i) % 16)) := by
      rw [List.getElem?_append_left (by simpa [hexDigits] using low), hexDigits, List.getElem?_map,
        List.getElem?_range low]
      rfl
    rw [right]
    by_cases padding : i < 16 - written.length
    · rw [if_neg (by omega), List.getElem?_append_left (by simpa using low),
        List.getElem?_replicate_of_lt low]
      have power : 16 ^ written.length ≤ 16 ^ (15 - i) := Nat.pow_le_pow_right (by decide) (by omega)
      rw [Nat.div_eq_of_lt (Nat.lt_of_lt_of_le bound power)]
      rfl
    · rw [if_pos (by omega), List.getD_eq_getElem?_getD,
        List.getElem?_append_left (by rw [List.length_reverse]; omega),
        List.getElem?_reverse (by omega),
        show written.length - 1 - (i - (16 - written.length)) = 15 - i by omega,
        digitAt (15 - i) (by omega)]
      rfl
  · have size : (hexDigits value.toNat).length = 16 := by simp [hexDigits]
    rw [if_neg (by omega), List.getElem?_append_right (by simpa using low),
      List.getElem?_append_right (by omega), size, List.length_replicate]

theorem hexBuffer_string (value : UInt64) :
    (CString.ofBuffer (hexBuffer value)).chars = hexDigits value.toNat := by
  rw [hexBuffer_eq]
  apply ofBuffer_terminated
  intro member
  exact (hexDigits_plain member).1 rfl

end OkeOS
