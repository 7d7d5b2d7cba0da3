import Mathlib.Data.List.Forall2
import OkeOS.StringBuilderCore

/-!
The loops of `FastStringBuilder::build`, as equations: what they return when they have enough
rounds, given the strings that the entries of `parts` point to.
-/

namespace OkeOS

open ByteMemory

theorem strlenLoop_eq {mem : Memory} {str : Nat} {chars : List UInt8}
    (string : StringAt mem str chars) (fuel : Nat) {i : Nat} (word : i < 2 ^ 32) :
    strlenLoop fuel mem str i =
      if chars.length < fuel then .ok ((i + chars.length) % 2 ^ 32) else .error .outOfFuel := by
  induction chars generalizing str fuel i with
  | nil =>
      have zero := stringAt_nil.mp string
      cases fuel with
      | zero => rfl
      | succ fuel =>
          rw [strlenLoop, if_pos zero, if_pos (by simp), List.length_nil, Nat.add_zero,
            Nat.mod_eq_of_lt word]
  | cons byte rest ih =>
      obtain ⟨nonzero, first, tail⟩ := stringAt_cons.mp string
      rw [← first] at nonzero
      cases fuel with
      | zero => rfl
      | succ fuel =>
          rw [strlenLoop, if_neg nonzero, ih tail fuel (Nat.mod_lt _ (by decide)),
            List.length_cons, Nat.add_comm rest.length, ← Nat.add_assoc i, Nat.mod_add_mod]
          by_cases enough : rest.length < fuel
          · rw [if_pos enough, if_pos (by omega)]
          · rw [if_neg enough, if_neg (by omega)]

theorem strlenAt_eq {mem : Memory} {str : Nat} {chars : List UInt8}
    (string : StringAt mem str chars) (fuel : Nat) :
    strlenAt fuel mem str =
      if chars.length < fuel then .ok (chars.length % 2 ^ 32) else .error .outOfFuel := by
  rw [strlenAt, strlenLoop_eq string fuel (by decide), Nat.zero_add]

theorem memcpy_eq {mem : Memory} {dest src n : Nat} {bytes : List UInt8}
    (source : BytesAt mem src bytes) (enough : n ≤ bytes.length)
    (apart : ∀ index < n, src + index < dest ∨ dest + n ≤ src + index) :
    memcpy mem dest src n = writeBytes mem dest (bytes.take n) := by
  induction n with
  | zero => rfl
  | succ n ih =>
      have shorter := ih (by omega) fun index less => by
        have outside := apart index (by omega)
        omega
      have length : (bytes.take n).length = n := by
        rw [List.length_take]
        omega
      have next : writeBytes mem dest (bytes.take n) (src + n) = bytes[n] := by
        have outside := apart n (by omega)
        rw [writeBytes_outside (by omega)]
        exact bytesAt_getElem source (by omega)
      rw [memcpy, shorter]
      simp only [next]
      rw [List.take_succ_eq_append_getElem (by omega), writeBytes_concat, length]

namespace FastStringBuilder

/-- The fields of a builder. -/
structure Object where
  parts : Nat
  nParts : Nat
  partOffset : Nat
  outputBuf : Nat
  outputBufSize : Nat

def object (mem : Memory) (this : Nat) : Object :=
  { parts := load mem this 8, nParts := load mem (this + 8) 4,
    partOffset := load mem (this + 12) 4, outputBuf := load mem (this + 16) 8,
    outputBufSize := load mem (this + 24) 4 }

theorem object_congr {first second : Memory} {this : Nat}
    (agree : ∀ index < 32, second (this + index) = first (this + index)) :
    object second this = object first this := by
  have word (offset width : Nat) (inside : offset + width ≤ 32) :
      load second (this + offset) width = load first (this + offset) width :=
    load_congr fun address lower upper => by
      have same := agree (address - this) (by omega)
      rwa [show this + (address - this) = address by omega] at same
  simp only [object]
  rw [show load second this 8 = load first this 8 from word 0 8 (by omega), word 8 4 (by omega),
    word 12 4 (by omega), word 16 8 (by omega), word 24 4 (by omega)]

theorem outputBuf_object {mem : Memory} {this : Nat} {fields : Object}
    (fieldsEq : object mem this = fields) : outputBuf mem this = fields.outputBuf := by
  rw [← fieldsEq]
  rfl

section FieldWrites

variable (mem : Memory) (this : Nat) {value : Nat}

theorem object_setParts (bound : value < 2 ^ 64) :
    object (setParts mem this value) this = { object mem this with parts := value } := by
  have size : (256 : Nat) ^ 8 = 2 ^ 64 := by norm_num
  simp only [object, setParts]
  rw [load_store_same, size, Nat.mod_eq_of_lt bound, load_store_apart _ _ _ _ _ _ (by omega),
    load_store_apart _ _ _ _ _ _ (by omega), load_store_apart _ _ _ _ _ _ (by omega),
    load_store_apart _ _ _ _ _ _ (by omega)]

theorem object_setNParts (bound : value < 2 ^ 32) :
    object (setNParts mem this value) this = { object mem this with nParts := value } := by
  have size : (256 : Nat) ^ 4 = 2 ^ 32 := by norm_num
  simp only [object, setNParts]
  rw [load_store_same, size, Nat.mod_eq_of_lt bound, load_store_apart _ _ _ _ _ _ (by omega),
    load_store_apart _ _ _ _ _ _ (by omega), load_store_apart _ _ _ _ _ _ (by omega),
    load_store_apart _ _ _ _ _ _ (by omega)]

theorem object_setPartOffset (bound : value < 2 ^ 32) :
    object (setPartOffset mem this value) this =
      { object mem this with partOffset := value } := by
  have size : (256 : Nat) ^ 4 = 2 ^ 32 := by norm_num
  simp only [object, setPartOffset]
  rw [load_store_same, size, Nat.mod_eq_of_lt bound, load_store_apart _ _ _ _ _ _ (by omega),
    load_store_apart _ _ _ _ _ _ (by omega), load_store_apart _ _ _ _ _ _ (by omega),
    load_store_apart _ _ _ _ _ _ (by omega)]

theorem object_setOutputBuf (bound : value < 2 ^ 64) :
    object (setOutputBuf mem this value) this = { object mem this with outputBuf := value } := by
  have size : (256 : Nat) ^ 8 = 2 ^ 64 := by norm_num
  simp only [object, setOutputBuf]
  rw [load_store_same, size, Nat.mod_eq_of_lt bound, load_store_apart _ _ _ _ _ _ (by omega),
    load_store_apart _ _ _ _ _ _ (by omega), load_store_apart _ _ _ _ _ _ (by omega),
    load_store_apart _ _ _ _ _ _ (by omega)]

theorem object_setOutputBufSize :
    object (setOutputBufSize mem this value) this =
      { object mem this with outputBufSize := value % 2 ^ 32 } := by
  have size : (256 : Nat) ^ 4 = 2 ^ 32 := by norm_num
  simp only [object, setOutputBufSize]
  rw [load_store_same, size, load_store_apart _ _ _ _ _ _ (by omega),
    load_store_apart _ _ _ _ _ _ (by omega), load_store_apart _ _ _ _ _ _ (by omega),
    load_store_apart _ _ _ _ _ _ (by omega)]

end FieldWrites

/-- What a part adds to `fullSize`. -/
def partSize (chars : List UInt8) : Nat := (chars.length % 2 ^ 32 + 1) % 2 ^ 32

/-- What the second loop copies of a part. -/
def copied (chars : List UInt8) : List UInt8 := chars.take (chars.length % 2 ^ 32)

/-- The string at `ptr`, in bytes that are not written to. -/
def ProtectedString (Protected : Nat → Prop) (mem : Memory) (ptr : Nat) (chars : List UInt8) :
    Prop :=
  StringAt mem ptr chars ∧ ∀ index ≤ chars.length, Protected (ptr + index)

/-- Everything that the loops read: the object at `this`, the entries of `parts` and the
strings they point to. -/
structure Readable (Protected : Nat → Prop) (mem : Memory) (this : Nat) (fields : Object)
    (entries : List Nat) (texts : List (List UInt8)) : Prop where
  object : object mem this = fields
  count : fields.nParts = entries.length
  few : entries.length < 2 ^ 31
  entry : ∀ index (bound : index < entries.length),
    load mem (fields.parts + 8 * index) 8 = entries[index]
  strings : List.Forall₂ (ProtectedString Protected mem) entries texts
  objectBytes : ∀ index < 32, Protected (this + index)
  entryBytes : ∀ index < 8 * entries.length, Protected (fields.parts + index)

section

variable {Protected : Nat → Prop} {mem mem' : Memory} {this : Nat} {fields : Object}
  {entries : List Nat} {texts : List (List UInt8)}

theorem ProtectedString.congr {ptr : Nat} {chars : List UInt8}
    (string : ProtectedString Protected mem ptr chars)
    (agree : ∀ address, Protected address → mem' address = mem address) :
    ProtectedString Protected mem' ptr chars := by
  obtain ⟨held, safe⟩ := string
  refine ⟨stringAt_congr (fun address lower upper => agree address ?_) held, safe⟩
  have inside := safe (address - ptr) (by omega)
  rwa [show ptr + (address - ptr) = address by omega] at inside

theorem Readable.nParts (readable : Readable Protected mem this fields entries texts) :
    nParts mem this = entries.length := by
  have count : load mem (this + 8) 4 = entries.length := by
    rw [← readable.count, ← readable.object]
    rfl
  rw [FastStringBuilder.nParts, count, toInt32_of_lt readable.few]

theorem Readable.part (readable : Readable Protected mem this fields entries texts) {index : Nat}
    (bound : index < entries.length) : part mem this index = entries[index] := by
  have pointer : parts mem this = fields.parts := by
    rw [← readable.object]
    rfl
  rw [FastStringBuilder.part, pointer]
  exact readable.entry index bound

theorem Readable.outputBuf (readable : Readable Protected mem this fields entries texts) :
    outputBuf mem this = fields.outputBuf := outputBuf_object readable.object

theorem Readable.congr (readable : Readable Protected mem this fields entries texts)
    (agree : ∀ address, Protected address → mem' address = mem address) :
    Readable Protected mem' this fields entries texts := by
  refine { readable with object := ?_, entry := ?_, strings := ?_ }
  · rw [← readable.object]
    exact object_congr fun index less => agree _ (readable.objectBytes index less)
  · intro index bound
    rw [← readable.entry index bound]
    refine load_congr fun address lower upper => agree address ?_
    have inside := readable.entryBytes (address - fields.parts) (by omega)
    rwa [show fields.parts + (address - fields.parts) = address by omega] at inside
  · exact readable.strings.imp fun _ _ string => string.congr agree

end

section

variable {σ : Type} {Protected : Nat → Prop} {heap : Heap σ} {this fuel : Nat} {fields : Object}

/-- The accesses of one pass over the entries from `start` on. -/
def derefs (start count : Nat) : List BuilderEvent := (List.range' start count).map .deref

theorem derefs_cons (start count : Nat) :
    derefs start (count + 1) = .deref start :: derefs (start + 1) count := rfl

/-- The rounds that a pass over the parts takes. -/
def EnoughRounds (fuel rounds : Nat) (texts : List (List UInt8)) : Prop :=
  texts.length < rounds ∧ ∀ chars ∈ texts, chars.length < fuel

instance (fuel rounds : Nat) (texts : List (List UInt8)) :
    Decidable (EnoughRounds fuel rounds texts) :=
  inferInstanceAs (Decidable (_ ∧ _))

theorem enoughRounds_cons {rounds : Nat} {chars : List UInt8} {texts : List (List UInt8)} :
    EnoughRounds fuel (rounds + 1) (chars :: texts) ↔
      chars.length < fuel ∧ EnoughRounds fuel rounds texts := by
  simp only [EnoughRounds, List.length_cons, List.forall_mem_cons]
  constructor
  · rintro ⟨less, first, rest⟩
    exact ⟨first, by omega, rest⟩
  · rintro ⟨first, less, rest⟩
    exact ⟨by omega, first, rest⟩

theorem sizeLoop_eq {entries front rest : List Nat} {texts restTexts : List (List UInt8)}
    {rounds size : Nat} {trace : List BuilderEvent}
    (readable : Readable Protected heap.mem this fields entries texts)
    (split : entries = front ++ rest)
    (strings : List.Forall₂ (ProtectedString Protected heap.mem) rest restTexts)
    (bound : size + (restTexts.map partSize).sum < 2 ^ 64) :
    sizeLoop fuel rounds ⟨heap, trace⟩ this front.length size =
      if EnoughRounds fuel rounds restTexts then
        .ok (size + (restTexts.map partSize).sum,
          ⟨heap, trace ++ derefs front.length restTexts.length⟩)
      else .error .outOfFuel := by
  induction strings generalizing front rounds size trace with
  | nil =>
      have count := readable.nParts
      rw [split, List.append_nil] at count
      cases rounds with
      | zero => rfl
      | succ rounds =>
          rw [sizeLoop, if_neg (by simp only [count]; omega), if_pos ⟨by simp, by simp⟩]
          simp [derefs]
  | @cons ptr chars rest restTexts string strings ih =>
      have count := readable.nParts
      rw [split, List.length_append, List.length_cons] at count
      rw [List.map_cons, List.sum_cons] at bound ⊢
      cases rounds with
      | zero => rw [if_neg (by simp [EnoughRounds]), sizeLoop]
      | succ rounds =>
          have here : part heap.mem this front.length = ptr := by
            rw [readable.part (by rw [split]; simp)]
            simp [split]
          have sum : add64 size ((chars.length % 2 ^ 32 + 1) % 2 ^ 32) = size + partSize chars :=
            add64_of_lt (by unfold partSize at bound; omega)
          have next := @ih (front ++ [ptr]) rounds (size + partSize chars)
            (trace ++ [.deref front.length]) (by simp [split]) (by omega)
          rw [List.length_append, List.length_singleton] at next
          rw [sizeLoop]
          simp only [count, here, strlenAt_eq string.1, enoughRounds_cons]
          rw [if_pos (by omega)]
          by_cases short : chars.length < fuel
          · simp only [short, if_true, true_and, Bind.bind, Except.bind, sum, Traced.record, next,
              List.length_cons, derefs_cons, List.append_assoc, List.singleton_append,
              Nat.add_assoc]
          · simp only [short, if_false, false_and, Bind.bind, Except.bind]

theorem copyLoop_eq {entries front rest : List Nat} {texts restTexts : List (List UInt8)}
    {rounds off : Nat} {trace : List BuilderEvent}
    (readable : Readable Protected heap.mem this fields entries texts)
    (split : entries = front ++ rest)
    (strings : List.Forall₂ (ProtectedString Protected heap.mem) rest restTexts)
    (bound : off + (restTexts.flatMap copied).length < 2 ^ 64)
    (apart : ∀ address, Protected address → address < fields.outputBuf + off ∨
      fields.outputBuf + off + (restTexts.flatMap copied).length ≤ address) :
    copyLoop fuel rounds ⟨heap, trace⟩ this front.length off =
      if EnoughRounds fuel rounds restTexts then
        .ok ⟨{ heap with
            mem := writeBytes heap.mem (fields.outputBuf + off) (restTexts.flatMap copied) },
          trace ++ derefs front.length restTexts.length⟩
      else .error .outOfFuel := by
  induction restTexts generalizing heap front rest rounds off trace with
  | nil =>
      cases strings
      have count := readable.nParts
      rw [split, List.append_nil] at count
      cases rounds with
      | zero => rfl
      | succ rounds =>
          rw [copyLoop, if_neg (by simp only [count]; omega), if_pos ⟨by simp, by simp⟩]
          simp [derefs, writeBytes]
  | cons chars restTexts ih =>
      obtain ⟨ptr, rest, string, later, rfl⟩ := List.forall₂_cons_right_iff.mp strings
      have count := readable.nParts
      rw [split, List.length_append, List.length_cons] at count
      rw [List.flatMap_cons, List.length_append] at bound apart
      cases rounds with
      | zero => rw [if_neg (by simp [EnoughRounds]), copyLoop]
      | succ rounds =>
          have here : part heap.mem this front.length = ptr := by
            rw [readable.part (by rw [split]; simp)]
            simp [split]
          have length : (copied chars).length = chars.length % 2 ^ 32 := by
            rw [copied, List.length_take, Nat.min_eq_left (Nat.mod_le _ _)]
          have sum : add64 off (chars.length % 2 ^ 32) = off + (copied chars).length := by
            rw [length]
            exact add64_of_lt (by omega)
          have copy : memcpy heap.mem (fields.outputBuf + off) ptr (chars.length % 2 ^ 32) =
              writeBytes heap.mem (fields.outputBuf + off) (copied chars) := by
            refine memcpy_eq string.1.bytes (Nat.mod_le _ _) fun index less => ?_
            have place := apart _ (string.2 index (by
              have short := Nat.mod_le chars.length (2 ^ 32)
              omega))
            omega
          have agree : ∀ address, Protected address →
              writeBytes heap.mem (fields.outputBuf + off) (copied chars) address =
                heap.mem address := by
            intro address safe
            have place := apart address safe
            exact writeBytes_outside (by omega)
          have next := @ih { heap with
              mem := writeBytes heap.mem (fields.outputBuf + off) (copied chars) }
            (front ++ [ptr]) rest rounds (off + (copied chars).length)
            (trace ++ [.deref front.length]) (readable.congr agree) (by simp [split])
            (later.imp fun _ _ string => string.congr agree) (by omega) (by
              intro address safe
              have place := apart address safe
              omega)
          rw [List.length_append, List.length_singleton] at next
          rw [copyLoop]
          simp only [count, here, strlenAt_eq string.1, enoughRounds_cons, readable.outputBuf]
          rw [if_pos (by omega)]
          by_cases short : chars.length < fuel
          · simp only [short, if_true, true_and, Bind.bind, Except.bind, sum, copy, Traced.record,
              Traced.setMem, next, List.length_cons, derefs_cons, List.append_assoc,
              List.singleton_append, List.flatMap_cons, writeBytes_append, Nat.add_assoc]
          · simp only [short, if_false, false_and, Bind.bind, Except.bind]

end

end FastStringBuilder

end OkeOS
