import Mathlib.Data.Nat.Digits.Lemmas
import OkeOS.ConsoleFormat

/-!
Reading numbers back.  What `itoa` and `uitoa` write are the digits of the magnitude, so
reading them in the same base gives it again, and every 64-bit number fits the buffers of
`_kprintf`.
-/

namespace OkeOS

def isDigitChar (c : UInt8) : Prop :=
  '0'.toUInt8 ≤ c ∧ c ≤ '9'.toUInt8 ∨ 'a'.toUInt8 ≤ c ∧ c ≤ 'z'.toUInt8

instance (c : UInt8) : Decidable (isDigitChar c) := inferInstanceAs (Decidable (_ ∨ _))

def digitValue (c : UInt8) : Nat := if c ≤ '9'.toUInt8 then c.toNat - 48 else c.toNat - 87

def readDigits (base : Nat) (chars : List UInt8) : Nat :=
  chars.foldl (fun value c => base * value + digitValue c) 0

/-- Digits, with `-` in front of a negative number. -/
def readNumber (base : Nat) : List UInt8 → Int
  | [] => 0
  | c :: rest =>
      if c = '-'.toUInt8 then -(readDigits base rest : Int) else readDigits base (c :: rest)

/-- `chars` are the digits of `value`, without leading zeros. -/
structure DigitsOf (base value : Nat) (chars : List UInt8) : Prop where
  digits : ∀ c ∈ chars, isDigitChar c ∧ digitValue c < base
  zero : value = 0 → chars = ['0'.toUInt8]
  leading : value ≠ 0 → ∃ c rest, chars = c :: rest ∧ c ≠ '0'.toUInt8
  reads : readDigits base chars = value

theorem digitChar_reads {digit : Nat} (small : digit < 36) :
    isDigitChar (digitChar digit) ∧ digitValue (digitChar digit) = digit := by
  have all : ∀ digit : Fin 36, isDigitChar (digitChar digit.val) ∧
      digitValue (digitChar digit.val) = digit.val := by decide
  exact all ⟨digit, small⟩

section

variable {base : Nat}

/-- The digits of the magnitude, the last one first. -/
def magnitudeDigits (base value : Nat) : List Nat :=
  if value = 0 then [0] else Nat.digits base value

theorem magnitudeDigits_lt (large : 2 ≤ base) {value digit : Nat}
    (member : digit ∈ magnitudeDigits base value) : digit < base := by
  rw [magnitudeDigits] at member
  split at member
  · rw [List.mem_singleton.mp member]
    omega
  · exact Nat.digits_lt_base large member

theorem ofDigits_magnitude (value : Nat) :
    Nat.ofDigits base (magnitudeDigits base value) = value := by
  rw [magnitudeDigits]
  split
  · rename_i zero
    rw [zero, Nat.ofDigits_singleton]
  · exact Nat.ofDigits_digits base value

theorem digitLoop_magnitude (large : 2 ≤ base) (small : base ≤ 36) (value : Int) :
    digitLoop base large value = (magnitudeDigits base value.natAbs).map digitChar := by
  induction value using digitLoop.induct base large with
  | case1 value last =>
      have below : value.natAbs < base := by
        have quotient := Int.natAbs_tdiv value base
        rw [last, Int.natAbs_zero, Int.natAbs_natCast] at quotient
        exact (Nat.div_eq_zero_iff_lt (by omega)).mp quotient.symm
      rw [digitLoop, if_pos last, digitTable_getD large small, magnitudeDigits, Nat.mod_eq_of_lt below]
      split
      · rename_i zero
        rw [zero]
        rfl
      · rename_i nonzero
        rw [Nat.digits_of_lt base _ nonzero below]
        rfl
  | case2 value more ih =>
      have quotient : (value.tdiv base).natAbs = value.natAbs / base := by
        rw [Int.natAbs_tdiv, Int.natAbs_natCast]
        rfl
      have some : value.natAbs / base ≠ 0 := by
        rw [← quotient]
        exact Int.natAbs_ne_zero.mpr more
      have positive : value.natAbs ≠ 0 := by
        intro zero
        rw [zero, Nat.zero_div] at some
        exact some rfl
      rw [digitLoop, if_neg more, digitTable_getD large small, ih, quotient, magnitudeDigits,
        magnitudeDigits, if_neg some, if_neg positive,
        Nat.digits_def' (by omega) (Nat.pos_of_ne_zero positive), List.map_cons]

theorem readDigits_map (digits : List Nat) (small : ∀ digit ∈ digits, digit < 36) :
    readDigits base ((digits.map digitChar).reverse) = Nat.ofDigits base digits := by
  rw [readDigits, List.foldl_reverse]
  induction digits with
  | nil => rfl
  | cons digit rest ih =>
      have later := ih fun other member => small other (by simp [member])
      have first := (digitChar_reads (small digit (by simp))).2
      rw [List.map_cons, List.foldr_cons, later, first, Nat.ofDigits_cons, Nat.add_comm]

/-- What the loop has written, turned around. -/
theorem digitLoop_digitsOf (large : 2 ≤ base) (small : base ≤ 36) (value : Int) :
    DigitsOf base value.natAbs (digitLoop base large value).reverse := by
  have below : ∀ digit ∈ magnitudeDigits base value.natAbs, digit < 36 := fun digit member =>
    (magnitudeDigits_lt large member).trans_le small
  rw [digitLoop_magnitude large small]
  refine ⟨?_, ?_, ?_, ?_⟩
  · intro c member
    obtain ⟨digit, inDigits, rfl⟩ := List.mem_map.mp (List.mem_reverse.mp member)
    obtain ⟨isDigit, valueEq⟩ := digitChar_reads (below digit inDigits)
    rw [valueEq]
    exact ⟨isDigit, magnitudeDigits_lt large inDigits⟩
  · intro zero
    rw [zero]
    rfl
  · intro nonzero
    have some : Nat.digits base value.natAbs ≠ [] := Nat.digits_ne_nil_iff_ne_zero.mpr nonzero
    have last := Nat.getLast_digit_ne_zero base nonzero
    rw [magnitudeDigits, if_neg nonzero] at below ⊢
    have split := List.dropLast_append_getLast some
    generalize (Nat.digits base value.natAbs).getLast some = digit at last split
    generalize (Nat.digits base value.natAbs).dropLast = front at split
    rw [← split] at below ⊢
    refine ⟨digitChar digit, (front.map digitChar).reverse, by simp, ?_⟩
    intro isZero
    have valueEq := (digitChar_reads (below digit (by simp))).2
    rw [isZero] at valueEq
    exact last valueEq.symm
  · rw [readDigits_map _ below, ofDigits_magnitude]

/-- The places of the digit table that the loop reads. -/
def digitIndices (base : Nat) (large : 2 ≤ base) (value : Int) : List Int :=
  (35 + value.tmod base) ::
    if value.tdiv base = 0 then [] else digitIndices base large (value.tdiv base)
termination_by value.natAbs
decreasing_by exact natAbs_tdiv_lt large ‹_›

theorem digitLoop_indices (large : 2 ≤ base) (value : Int) :
    digitLoop base large value =
      (digitIndices base large value).map fun index => digitTable.getD index.toNat 0 := by
  induction value using digitLoop.induct base large with
  | case1 value last => rw [digitLoop, digitIndices, if_pos last, if_pos last, List.map_singleton]
  | case2 value more ih =>
      rw [digitLoop, digitIndices, if_neg more, if_neg more, List.map_cons, ih]

theorem digitIndices_inside (large : 2 ≤ base) (small : base ≤ 36) {value index : Int}
    (member : index ∈ digitIndices base large value) : 0 ≤ index ∧ index < digitTable.length := by
  have size : digitTable.length = 71 := by decide
  have remainder (value : Int) : -36 < value.tmod base ∧ value.tmod base < 36 := by
    have less := Int.tmod_lt_of_pos value (show (0 : Int) < base by omega)
    have more := Int.lt_tmod_of_pos value (show (0 : Int) < base by omega)
    omega
  induction value using digitLoop.induct base large with
  | case1 value last =>
      rw [digitIndices, if_pos last, List.mem_singleton] at member
      have bounds := remainder value
      omega
  | case2 value more ih =>
      rw [digitIndices, if_neg more, List.mem_cons] at member
      rcases member with here | later
      · have bounds := remainder value
        omega
      · exact ih later

theorem isDigitChar_plain {c : UInt8} (isDigit : isDigitChar c) : c ≠ 0 ∧ c ≠ '-'.toUInt8 := by
  constructor
  · rintro rfl
    revert isDigit
    decide
  · rintro rfl
    revert isDigit
    decide

theorem DigitsOf.readNumber {value : Nat} {chars : List UInt8} (written : DigitsOf base value chars) :
    readNumber base chars = value := by
  cases chars with
  | nil =>
      by_cases isZero : value = 0
      · exact absurd (written.zero isZero) (by simp)
      · obtain ⟨c, rest, shape, _⟩ := written.leading isZero
        exact absurd shape (by simp)
  | cons c rest =>
      have notSign := (isDigitChar_plain (written.digits c (by simp)).1).2
      rw [OkeOS.readNumber, if_neg notSign, written.reads]

theorem itoa_reads (value : Int) :
    readNumber 10 (CString.ofBuffer (itoa value 10)).chars = value := by
  have written := digitLoop_digitsOf (show 2 ≤ 10 by decide) (by decide) value
  have buffer := itoa_eq value (show 2 ≤ 10 by decide) (by decide)
  simp only [and_true] at buffer
  simp only [Nat.cast_ofNat] at buffer
  rw [buffer]
  generalize (digitLoop 10 _ value).reverse = digits at written
  have noNul : 0 ∉ digits := fun member => (isDigitChar_plain (written.digits 0 member).1).1 rfl
  by_cases negative : value < 0
  · have signed : 0 ∉ ['-'.toUInt8] ++ digits := by
      rw [List.mem_append, List.mem_singleton]
      rintro (isSign | isDigit)
      · revert isSign
        decide
      · exact noNul isDigit
    rw [if_pos negative, ofBuffer_terminated signed, List.singleton_append, readNumber, if_pos rfl,
      written.reads]
    omega
  · rw [if_neg negative, List.nil_append, ofBuffer_terminated noNul, written.readNumber]
    omega

/-- Both functions write the digits of the magnitude, `itoa` with a sign in base 10 only, and
reading them gives the number back. -/
theorem numbers_faithful (large : 2 ≤ base) (small : base ≤ 36) :
    (∀ value : Int64, ∃ digits,
      itoa value.toInt base =
        (if value < 0 ∧ base = 10 then ['-'.toUInt8] else []) ++ digits ++ [0] ∧
      DigitsOf base value.toInt.natAbs digits ∧
      (base = 10 → readNumber base (CString.ofBuffer (itoa value.toInt base)).chars = value.toInt) ∧
      ∀ index ∈ digitIndices base large value.toInt, 0 ≤ index ∧ index < digitTable.length) ∧
    ∀ value : UInt64, ∃ digits,
      uitoa value.toNat base = digits ++ [0] ∧ DigitsOf base value.toNat digits ∧
      readNumber base (CString.ofBuffer (uitoa value.toNat base)).chars = value.toNat ∧
      ∀ index ∈ digitIndices base large value.toNat, 0 ≤ index ∧ index < digitTable.length := by
  constructor
  · intro value
    refine ⟨_, ?_, digitLoop_digitsOf large small value.toInt, ?_,
      fun index => digitIndices_inside large small⟩
    · have sign : value < 0 ↔ value.toInt < 0 := Int64.lt_iff_toInt_lt
      simp only [itoa_eq value.toInt large small, sign]
    · rintro rfl
      exact itoa_reads value.toInt
  · intro value
    have written := digitLoop_digitsOf large small value.toNat
    rw [Int.natAbs_natCast] at written
    refine ⟨_, uitoa_eq value.toNat large small, written, ?_,
      fun index => digitIndices_inside large small⟩
    rw [uitoa_string value.toNat large small, written.readNumber]

theorem numbers_faithful_ten : ∃ digits, itoa (-42) 10 = ['-'.toUInt8] ++ digits ++ [0] ∧
    readNumber 10 (CString.ofBuffer (itoa (-42) 10)).chars = -42 := by
  obtain ⟨digits, written, _, reads, _⟩ :=
    (numbers_faithful (show 2 ≤ 10 by decide) (by decide)).1 (-42)
  exact ⟨digits, written, reads rfl⟩

end

/-! The buffers of `_kprintf`. -/

theorem digitLoop_fits {base : Nat} (large : 2 ≤ base) (value : Int) {count : Nat}
    (positive : 0 < count) (less : value.natAbs < base ^ count) :
    (digitLoop base large value).reverse.length ≤ count := by
  rw [List.length_reverse]
  exact digitLoop_length_le value positive less

theorem itoa_fits {base : Nat} (large : 2 ≤ base) (small : base ≤ 36) (value : Int64) {count : Nat}
    (positive : 0 < count) (less : 2 ^ 63 < base ^ count) :
    (itoa value.toInt base).length ≤ count + 2 := by
  have bound : value.toInt.natAbs < base ^ count := by
    have lower := value.le_toInt
    have upper := value.toInt_lt
    omega
  have digits := digitLoop_fits large value.toInt positive bound
  rw [itoa_eq value.toInt large small, List.length_append, List.length_append]
  split
  · simp only [List.length_singleton]
    omega
  · simp only [List.length_nil, List.length_singleton]
    omega

theorem uitoa_fits {base : Nat} (large : 2 ≤ base) (small : base ≤ 36) (value : UInt64) {count : Nat}
    (positive : 0 < count) (less : 2 ^ 64 ≤ base ^ count) :
    (uitoa value.toNat base).length ≤ count + 1 := by
  have bound : (value.toNat : Int).natAbs < base ^ count := by
    have upper := value.toNat_lt
    rw [Int.natAbs_natCast]
    omega
  have digits := digitLoop_fits large value.toNat positive bound
  rw [uitoa_eq value.toNat large small, List.length_append, List.length_singleton]
  omega

/-- A string without a dollar sign goes to the sinks as it stands, whatever escape is open: an
open escape takes its colour from the first character, which is printed all the same. -/
theorem writeLoop_sent {fuel : Nat} {chars : List UInt8} {serial terminal : Bool}
    {console after : Console} (plain : '$'.toUInt8 ∉ chars)
    (run : writeLoop writechar fuel chars serial terminal console = .ok after) :
    serialText after.output = serialText console.output ++ (if serial then chars else []) ∧
      (terminalText after.output).map Prod.fst =
        (terminalText console.output).map Prod.fst ++ (if terminal then chars else []) := by
  induction fuel generalizing chars console with
  | zero =>
      cases chars with
      | nil =>
          cases run
          simp
      | cons c rest => cases run
  | succ fuel ih =>
      cases chars with
      | nil =>
          cases run
          simp
      | cons c rest =>
          have notDollar : c ≠ '$'.toUInt8 := by
            rintro rfl
            simp at plain
          rw [writeLoop, if_neg notDollar] at run
          by_cases closed : console.currentlyReadingAnything = false
          · obtain ⟨between, emitted, printed⟩ := emit_printed c serial terminal closed
            rw [closed, emitted] at run
            obtain ⟨serialLater, terminalLater⟩ := ih (fun member => plain (by simp [member])) run
            rw [serialLater, terminalLater, printed.serialText, printed.terminalText]
            cases serial <;> cases terminal <;> simp
          · rw [if_pos (by simpa using closed)] at run
            split at run
            · have later := ih plain run
              exact later
            · split at run
              · have later := ih plain run
                exact later
              · exact ih plain run

def isHexChar (c : UInt8) : Prop :=
  '0'.toUInt8 ≤ c ∧ c ≤ '9'.toUInt8 ∨ 'a'.toUInt8 ≤ c ∧ c ≤ 'f'.toUInt8

theorem digitChar_hex {digit : Nat} (small : digit < 16) : isHexChar (digitChar digit) := by
  have all : ∀ digit : Fin 16, '0'.toUInt8 ≤ digitChar digit.val ∧ digitChar digit.val ≤ '9'.toUInt8 ∨
      'a'.toUInt8 ≤ digitChar digit.val ∧ digitChar digit.val ≤ 'f'.toUInt8 := by decide
  exact all ⟨digit, small⟩

theorem ofDigits_places (base value count : Nat) :
    Nat.ofDigits base ((List.range count).map fun i => value / base ^ i % base) =
      value % base ^ count := by
  induction count with
  | zero => simp [Nat.mod_one]
  | succ count ih =>
      rw [List.range_succ, List.map_append, List.map_singleton, Nat.ofDigits_append,
        Nat.ofDigits_singleton, ih, List.length_map, List.length_range, Nat.mod_pow_succ]

theorem readDigits_hex (value : UInt64) : readDigits 16 (hexDigits value.toNat) = value.toNat := by
  have shape : hexDigits value.toNat =
      (((List.range 16).map fun i => value.toNat / 16 ^ i % 16).map digitChar).reverse := rfl
  rw [shape, readDigits_map, ofDigits_places, Nat.mod_eq_of_lt]
  · exact value.toNat_lt
  · intro digit member
    obtain ⟨i, _, rfl⟩ := List.mem_map.mp member
    omega

theorem hexDigits_chars {value : Nat} {c : UInt8} (member : c ∈ hexDigits value) : isHexChar c := by
  obtain ⟨i, _, rfl⟩ := List.mem_map.mp member
  exact digitChar_hex (Nat.mod_lt _ (by decide))

theorem formatSpecifier_hex (stringAt : UInt64 → CString) (fuel : Nat) (serial terminal : Bool)
    (value : UInt64) (args : List UInt64) (console : Console) {letter : UInt8}
    (isHex : letter = 'x'.toUInt8 ∨ letter = 'X'.toUInt8) :
    formatSpecifier writechar stringAt fuel serial terminal letter (value :: args) console = (do
      let console ← writeLoop writechar fuel (hexDigits value.toNat) serial terminal console
      .ok (args, console)) := by
  rcases isHex with rfl | rfl
  · exact formatSpecifier_eq .x value args
  · exact formatSpecifier_eq .X value args

/-- The text of a number fits `buf`, and `%x` prints its sixteen hexadecimal digits. -/
theorem specifiers_fit (value : UInt64) :
    (itoa value.toInt64.toInt 8).length ≤ 32 ∧ (itoa value.toInt64.toInt 10).length ≤ 32 ∧
    (uitoa value.toNat 10).length ≤ 32 ∧ (uitoa value.toNat 16).length ≤ 32 ∧
    strlen (uitoa value.toNat 16) ≤ 16 ∧
    ∃ digits, hexBuffer value = digits ++ [0] ∧ digits.length = 16 ∧
      (∀ c ∈ digits, isHexChar c) ∧ readDigits 16 digits = value.toNat ∧
      (∀ other, hexBuffer other = hexBuffer value → other = value) ∧
      ∀ (stringAt : UInt64 → CString) (serial terminal : Bool) (args : List UInt64)
        (console : Console), ∀ letter ∈ ['x'.toUInt8, 'X'.toUInt8],
        (console.currentlyReadingAnything = false → ∀ fuel, 16 ≤ fuel → ∃ after,
          formatSpecifier writechar stringAt fuel serial terminal letter (value :: args) console =
            .ok (args, after)) ∧
        ∀ fuel after left, formatSpecifier writechar stringAt fuel serial terminal letter
            (value :: args) console = .ok (left, after) →
          left = args ∧
          serialText after.output = serialText console.output ++ (if serial then digits else []) ∧
          (terminalText after.output).map Prod.fst =
            (terminalText console.output).map Prod.fst ++ (if terminal then digits else []) := by
  have length : (hexDigits value.toNat).length = 16 := by simp [hexDigits]
  have short : strlen (uitoa value.toNat 16) ≤ 16 := by
    rw [strlen, uitoa_string value.toNat (by decide) (by decide)]
    apply digitLoop_fits _ _ (by decide)
    rw [Int.natAbs_natCast]
    exact value.toNat_lt
  have plain : '$'.toUInt8 ∉ hexDigits value.toNat := fun member => (hexDigits_plain member).2 rfl
  have octal := itoa_fits (show 2 ≤ 8 by decide) (by decide) value.toInt64 (by decide)
    (show 2 ^ 63 < 8 ^ 22 by decide)
  have decimal := itoa_fits (show 2 ≤ 10 by decide) (by decide) value.toInt64 (by decide)
    (show 2 ^ 63 < 10 ^ 19 by decide)
  have unsigned := uitoa_fits (show 2 ≤ 10 by decide) (by decide) value (by decide)
    (show 2 ^ 64 ≤ 10 ^ 20 by decide)
  have hexadecimal := uitoa_fits (show 2 ≤ 16 by decide) (by decide) value (by decide)
    (show 2 ^ 64 ≤ 16 ^ 16 by decide)
  refine ⟨octal.trans (by decide), decimal.trans (by decide), unsigned.trans (by decide),
    hexadecimal.trans (by decide), short, hexDigits value.toNat, hexBuffer_eq value, length,
    fun c => hexDigits_chars, readDigits_hex value, ?_, ?_⟩
  · intro other same
    rw [hexBuffer_eq, hexBuffer_eq] at same
    have digits := List.append_cancel_right same
    apply UInt64.toNat.inj
    rw [← readDigits_hex other, digits, readDigits_hex]
  · intro stringAt serial terminal args console letter member
    have isHex : letter = 'x'.toUInt8 ∨ letter = 'X'.toUInt8 := by simpa using member
    constructor
    · intro closed fuel enough
      obtain ⟨after, loop, _⟩ := writeLoop_closed fuel serial terminal plain closed (by omega)
      refine ⟨after, ?_⟩
      rw [formatSpecifier_hex stringAt fuel serial terminal value args console isHex, loop]
      rfl
    · intro fuel after left call
      rw [formatSpecifier_hex stringAt fuel serial terminal value args console isHex] at call
      obtain ⟨sent, loop, result⟩ := Fault.peel call
      rw [Except.ok.injEq, Prod.mk.injEq] at result
      obtain ⟨rfl, rfl⟩ := result
      exact ⟨rfl, writeLoop_sent plain loop⟩

end OkeOS
