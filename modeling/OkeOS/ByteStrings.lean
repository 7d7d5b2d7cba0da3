import OkeOS.ByteMemory

/-!
Byte strings in memory: which bytes stand at an address, what writing a list of bytes
changes, NUL-terminated strings, and what a range of bytes moved elsewhere makes of memory.
-/

namespace ByteMemory

/-- The bytes stand at `address`, one after the other. -/
def BytesAt (memory : Memory) : Nat → List UInt8 → Prop
  | _, [] => True
  | address, byte :: rest => memory address = byte ∧ BytesAt memory (address + 1) rest

def writeBytes (memory : Memory) : Nat → List UInt8 → Memory
  | _, [] => memory
  | address, byte :: rest => writeBytes (writeByte memory address byte) (address + 1) rest

/-- The NUL-terminated string at `address`, without the terminator. -/
structure StringAt (memory : Memory) (address : Nat) (chars : List UInt8) : Prop where
  bytes : BytesAt memory address chars
  terminator : memory (address + chars.length) = 0
  noNul : 0 ∉ chars

instance decidableBytesAt (memory : Memory) : (address : Nat) → (bytes : List UInt8) →
    Decidable (BytesAt memory address bytes)
  | _, [] => .isTrue trivial
  | address, byte :: rest =>
      have := decidableBytesAt memory (address + 1) rest
      inferInstanceAs (Decidable (memory address = byte ∧ BytesAt memory (address + 1) rest))

theorem stringAt_iff {memory : Memory} {address : Nat} {chars : List UInt8} :
    StringAt memory address chars ↔
      BytesAt memory address chars ∧ memory (address + chars.length) = 0 ∧ 0 ∉ chars :=
  ⟨fun string => ⟨string.bytes, string.terminator, string.noNul⟩,
    fun both => ⟨both.1, both.2.1, both.2.2⟩⟩

instance (memory : Memory) (address : Nat) (chars : List UInt8) :
    Decidable (StringAt memory address chars) := decidable_of_iff _ stringAt_iff.symm

/-- The memory with `count` bytes of its own at `address`. -/
def pasted (memory : Memory) (address count : Nat) (byte : Nat → UInt8) : Memory := fun other =>
  if address ≤ other ∧ other < address + count then byte (other - address) else memory other

section

variable {memory first second : Memory} {address : Nat} {bytes : List UInt8}

theorem bytesAt_unique {left right : List UInt8} (one : BytesAt memory address left)
    (other : BytesAt memory address right) (same : left.length = right.length) : left = right := by
  induction left generalizing address right with
  | nil => exact (List.length_eq_zero_iff.mp same.symm).symm
  | cons byte rest ih =>
      cases right with
      | nil => simp at same
      | cons byte' rest' =>
          rw [← one.1, ← other.1, ih one.2 other.2 (by simpa using same)]

theorem bytesAt_congr
    (agree : ∀ other, address ≤ other → other < address + bytes.length →
      second other = first other)
    (held : BytesAt first address bytes) : BytesAt second address bytes := by
  induction bytes generalizing address with
  | nil => trivial
  | cons byte rest ih =>
      refine ⟨(agree address (by omega) (by simp)).trans held.1, ih ?_ held.2⟩
      intro other lower upper
      rw [List.length_cons] at agree
      exact agree other (by omega) (by omega)

theorem bytesAt_getElem (held : BytesAt memory address bytes) {index : Nat}
    (bound : index < bytes.length) : memory (address + index) = bytes[index] := by
  induction bytes generalizing address index with
  | nil => simp at bound
  | cons byte rest ih =>
      cases index with
      | zero => exact held.1
      | succ index =>
          rw [List.length_cons] at bound
          have later := ih held.2 (show index < rest.length by omega)
          rwa [Nat.add_assoc, Nat.add_comm 1] at later

theorem stringAt_congr
    (agree : ∀ other, address ≤ other → other ≤ address + bytes.length →
      second other = first other)
    (held : StringAt first address bytes) : StringAt second address bytes :=
  ⟨bytesAt_congr (fun other lower upper => agree other lower (by omega)) held.bytes,
    (agree _ (by omega) (Nat.le_refl _)).trans held.terminator, held.noNul⟩

theorem stringAt_nil : StringAt memory address [] ↔ memory address = 0 :=
  ⟨fun string => string.terminator, fun zero => ⟨trivial, zero, List.not_mem_nil⟩⟩

theorem stringAt_cons {byte : UInt8} {rest : List UInt8} :
    StringAt memory address (byte :: rest) ↔
      byte ≠ 0 ∧ memory address = byte ∧ StringAt memory (address + 1) rest := by
  have step : address + (byte :: rest).length = address + 1 + rest.length := by
    rw [List.length_cons]
    omega
  constructor
  · rintro ⟨⟨first, bytes⟩, terminator, noNul⟩
    rw [step] at terminator
    exact ⟨fun zero => noNul (by simp [zero]), first, bytes, terminator,
      fun member => noNul (by simp [member])⟩
  · rintro ⟨nonzero, first, bytes, terminator, noNul⟩
    refine ⟨⟨first, bytes⟩, by rwa [step], ?_⟩
    simp only [List.mem_cons, not_or]
    exact ⟨nonzero.symm, noNul⟩

theorem StringAt.unique {left right : List UInt8} (one : StringAt memory address left)
    (other : StringAt memory address right) : left = right := by
  induction left generalizing address right with
  | nil =>
      cases right with
      | nil => rfl
      | cons byte rest =>
          obtain ⟨nonzero, first, _⟩ := stringAt_cons.mp other
          exact absurd (first.symm.trans (stringAt_nil.mp one)) nonzero
  | cons byte rest ih =>
      obtain ⟨nonzero, first, tail⟩ := stringAt_cons.mp one
      cases right with
      | nil => exact absurd (first.symm.trans (stringAt_nil.mp other)) nonzero
      | cons byte' rest' =>
          obtain ⟨_, first', tail'⟩ := stringAt_cons.mp other
          rw [← first, ← first', ih tail tail']

theorem writeBytes_outside {other : Nat}
    (outside : other < address ∨ address + bytes.length ≤ other) :
    writeBytes memory address bytes other = memory other := by
  induction bytes generalizing memory address with
  | nil => rfl
  | cons byte rest ih =>
      rw [List.length_cons] at outside
      rw [writeBytes, ih (by omega)]
      exact writeByte_other memory _ (by omega)

theorem bytesAt_writeBytes : BytesAt (writeBytes memory address bytes) address bytes := by
  induction bytes generalizing memory address with
  | nil => trivial
  | cons byte rest ih =>
      refine ⟨?_, ih⟩
      rw [writeBytes, writeBytes_outside (by omega), writeByte_same]

theorem writeBytes_append (front back : List UInt8) :
    writeBytes memory address (front ++ back) =
      writeBytes (writeBytes memory address front) (address + front.length) back := by
  induction front generalizing memory address with
  | nil => rfl
  | cons byte rest ih =>
      rw [List.cons_append, writeBytes, writeBytes, ih, List.length_cons,
        Nat.add_assoc address 1, Nat.add_comm 1]

theorem writeBytes_concat (byte : UInt8) :
    writeBytes memory address (bytes ++ [byte]) =
      writeByte (writeBytes memory address bytes) (address + bytes.length) byte := by
  rw [writeBytes_append, writeBytes, writeBytes]

theorem writeBytes_eq_pasted {byte : Nat → UInt8}
    (same : ∀ index (bound : index < bytes.length), bytes[index] = byte index) :
    writeBytes memory address bytes = pasted memory address bytes.length byte := by
  funext other
  by_cases inside : address ≤ other ∧ other < address + bytes.length
  · have place := bytesAt_getElem (@bytesAt_writeBytes memory address bytes)
      (show other - address < bytes.length by omega)
    rw [show address + (other - address) = other by omega] at place
    rw [pasted, if_pos inside, place, same]
  · rw [pasted, if_neg inside, writeBytes_outside (by omega)]

end

/-! Moving a range of bytes. -/

/-- The memory after the bytes from `src` on have all been read and then stored from `dest` on. -/
def moved (memory : Memory) (dest src count : Nat) : Memory :=
  pasted memory dest count fun i => memory (src + i)

section

variable (memory : Memory) {dest src count : Nat}

theorem moved_inside {i : Nat} (inside : i < count) :
    moved memory dest src count (dest + i) = memory (src + i) := by
  rw [moved, pasted, if_pos (by omega), Nat.add_sub_cancel_left]

theorem moved_outside {address : Nat} (outside : address < dest ∨ dest + count ≤ address) :
    moved memory dest src count address = memory address := by
  rw [moved, pasted, if_neg (by omega)]

/-- A memory is the moved one when it holds the bytes of the source and is otherwise the same. -/
theorem eq_moved {result : Memory} (inside : ∀ i < count, result (dest + i) = memory (src + i))
    (outside : ∀ address, address < dest ∨ dest + count ≤ address →
      result address = memory address) : result = moved memory dest src count := by
  funext address
  by_cases here : dest ≤ address ∧ address < dest + count
  · obtain ⟨i, rfl⟩ : ∃ i, address = dest + i := ⟨address - dest, by omega⟩
    rw [inside i (by omega), moved_inside memory (by omega)]
  · rw [outside address (by omega), moved_outside memory (by omega)]

theorem moved_none : moved memory dest src 0 = memory := by
  symm
  apply eq_moved
  · intro i inside
    exact absurd inside (Nat.not_lt_zero i)
  · intro address outside
    rfl

theorem moved_same : moved memory dest dest count = memory := by
  symm
  apply eq_moved
  · intro i inside
    rfl
  · intro address outside
    rfl

/-- One more byte at the end of a move to lower addresses. -/
theorem moved_last (lower : dest ≤ src) :
    writeByte (moved memory dest src count) (dest + count)
        (moved memory dest src count (src + count)) = moved memory dest src (count + 1) := by
  -- what has been stored lies below the byte that is read
  rw [moved_outside memory (show src + count < dest ∨ dest + count ≤ src + count by omega)]
  apply eq_moved
  · intro i inside
    by_cases last : i = count
    · rw [last, writeByte_same]
    · rw [writeByte_other _ _ (by omega), moved_inside memory (by omega)]
  · intro address outside
    rw [writeByte_other _ _ (by omega), moved_outside memory (by omega)]

/-- A move to higher addresses after its last byte. -/
theorem moved_first (higher : src ≤ dest) :
    moved (writeByte memory (dest + count) (memory (src + count))) dest src count =
      moved memory dest src (count + 1) := by
  apply eq_moved
  · intro i inside
    by_cases last : i = count
    · rw [last, moved_outside _ (by omega), writeByte_same]
    · -- the bytes still to be read lie below the byte that was stored
      rw [moved_inside _ (by omega), writeByte_other _ _ (by omega)]
  · intro address outside
    rw [moved_outside _ (by omega), writeByte_other _ _ (by omega)]

end

end ByteMemory
