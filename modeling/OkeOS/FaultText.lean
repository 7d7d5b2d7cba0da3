import Mathlib.Data.List.Induction
import OkeOS.ByteStrings
import OkeOS.StringCore

/-!
`getPageFaultString` of `idt/ints.cpp`.  The message is written over the one of the call before,
and no terminator is stored behind it, so the end of a longer message stays in the buffer.
-/

namespace OkeOS

open ByteMemory

/-- The buffer, and the indices that the call has stored to. -/
structure FaultText where
  fixedPageFaultString : Memory
  strOffset : Nat
  stores : List Nat

def FaultText.append (this : FaultText) (str : String) : FaultText :=
  let len := (text str).length
  { fixedPageFaultString := writeBytes this.fixedPageFaultString this.strOffset (text str)
    strOffset := this.strOffset + len
    stores := this.stores ++ (List.range len).map (this.strOffset + ·) }

def getPageFaultString (errorCode : UInt64) (fixedPageFaultString : Memory) : FaultText :=
  let present := errorCode &&& 1
  let write := (errorCode >>> 1) &&& 1
  let user := (errorCode >>> 2) &&& 1
  let instructionFetch := (errorCode >>> 4) &&& 1
  let this : FaultText := { fixedPageFaultString, strOffset := 0, stores := [] }
  let this := if user = 0 then this.append "Supervisor Process " else this.append "User Process "
  let this := if write = 0 then this.append "read from " else this.append "write to "
  let this := if instructionFetch = 0 then this.append "data " else this.append "instruction "
  if present = 0 then this.append "non-present page entry"
  else this.append "and caused a protection fault"

/-- The buffer after calls one after another. -/
def faultCalls (codes : List UInt64) (buffer : Memory) : Memory :=
  codes.foldl (fun buffer code => (getPageFaultString code buffer).fixedPageFaultString) buffer

/-- The static buffer before the first call. -/
def zeroed : Memory := fun _ => 0

def faultMessage (errorCode : UInt64) : List UInt8 :=
  (if (errorCode >>> 2) &&& 1 = 0 then text "Supervisor Process " else text "User Process ") ++
    (if (errorCode >>> 1) &&& 1 = 0 then text "read from " else text "write to ") ++
    (if (errorCode >>> 4) &&& 1 = 0 then text "data " else text "instruction ") ++
    if errorCode &&& 1 = 0 then text "non-present page entry"
    else text "and caused a protection fault"

def FaultText.holding (buffer : Memory) (chars : List UInt8) : FaultText where
  fixedPageFaultString := writeBytes buffer 0 chars
  strOffset := chars.length
  stores := List.range chars.length

theorem append_holding (buffer : Memory) (chars : List UInt8) (str : String) :
    (FaultText.holding buffer chars).append str = .holding buffer (chars ++ text str) := by
  rw [FaultText.append, FaultText.holding, FaultText.holding, FaultText.mk.injEq]
  refine ⟨?_, ?_, ?_⟩
  · rw [writeBytes_append, Nat.zero_add]
  · rw [List.length_append]
  · rw [List.length_append, List.range_add]

theorem getPageFaultString_eq (errorCode : UInt64) (buffer : Memory) :
    getPageFaultString errorCode buffer = .holding buffer (faultMessage errorCode) := by
  have start : (⟨buffer, 0, []⟩ : FaultText) = .holding buffer [] := rfl
  simp only [getPageFaultString, start, append_holding, List.nil_append, ← apply_ite, faultMessage]

theorem faultMessage_noNul (errorCode : UInt64) : 0 ∉ faultMessage errorCode := by
  simp only [faultMessage]
  split <;> split <;> split <;> split <;> decide

/-- How long the message is, from the bits for user, write, instruction fetch and present. -/
def faultLength (errorCode : UInt64) : Nat :=
  (if (errorCode >>> 2) &&& 1 = 0 then 19 else 13) + (if (errorCode >>> 1) &&& 1 = 0 then 10 else 9) +
    (if (errorCode >>> 4) &&& 1 = 0 then 5 else 12) + if errorCode &&& 1 = 0 then 22 else 29

theorem faultMessage_length (errorCode : UInt64) :
    (faultMessage errorCode).length = faultLength errorCode := by
  simp only [faultMessage, faultLength]
  split <;> split <;> split <;> split <;> decide

theorem faultCalls_concat (codes : List UInt64) (code : UInt64) (buffer : Memory) :
    faultCalls (codes ++ [code]) buffer =
      writeBytes (faultCalls codes buffer) 0 (faultMessage code) := by
  rw [faultCalls, List.foldl_append]
  exact congrArg FaultText.fixedPageFaultString (getPageFaultString_eq code _)

/-- The bytes of every message so far stand, up to the end of the longest. -/
theorem faultCalls_nonzero (codes : List UInt64) (index : Nat) :
    faultCalls codes zeroed index ≠ 0 ↔ ∃ code ∈ codes, index < (faultMessage code).length := by
  induction codes using List.reverseRecOn with
  | nil => simp [faultCalls, zeroed]
  | append_singleton codes code ih =>
      have both : (∃ other ∈ codes ++ [code], index < (faultMessage other).length) ↔
          (∃ other ∈ codes, index < (faultMessage other).length) ∨
            index < (faultMessage code).length := by
        simp only [List.mem_append, List.mem_singleton, or_and_right, exists_or, exists_eq_left]
      rw [faultCalls_concat, both, ← ih]
      by_cases inside : index < (faultMessage code).length
      · have written := bytesAt_getElem
          (@bytesAt_writeBytes (faultCalls codes zeroed) 0 (faultMessage code)) inside
        rw [Nat.zero_add] at written
        rw [written]
        refine iff_of_true ?_ (.inr inside)
        intro zero
        exact faultMessage_noNul code (zero ▸ List.getElem_mem inside)
      · rw [writeBytes_outside (.inr (by omega))]
        simp [inside]

/-- After the calls of `history`, a call with `errorCode` returns what it returns on a zeroed
buffer. -/
def HistoryIndependent (history : List UInt64) (errorCode : UInt64) : Prop :=
  ∃ chars, StringAt (faultCalls (history ++ [errorCode]) zeroed) 0 chars ∧
    StringAt (faultCalls [errorCode] zeroed) 0 chars

/-- The message is terminated when the byte behind it has never been written. -/
theorem faultCalls_last (history : List UInt64) (errorCode : UInt64) :
    StringAt (faultCalls (history ++ [errorCode]) zeroed) 0 (faultMessage errorCode) ↔
      ∀ earlier ∈ history, (faultMessage earlier).length ≤ (faultMessage errorCode).length := by
  have behind := faultCalls_nonzero (history ++ [errorCode]) (faultMessage errorCode).length
  have bytes : BytesAt (faultCalls (history ++ [errorCode]) zeroed) 0 (faultMessage errorCode) := by
    rw [faultCalls_concat]
    exact bytesAt_writeBytes
  rw [stringAt_iff, Nat.zero_add]
  constructor
  · rintro ⟨_, zero, _⟩ earlier member
    by_contra longer
    exact behind.mpr ⟨earlier, List.mem_append_left _ member, by omega⟩ zero
  · intro short
    refine ⟨bytes, ?_, faultMessage_noNul errorCode⟩
    by_contra nonzero
    obtain ⟨code, member, longer⟩ := behind.mp nonzero
    rw [List.mem_append, List.mem_singleton] at member
    rcases member with earlier | rfl
    · have bound := short code earlier
      omega
    · omega

theorem fresh_message (errorCode : UInt64) :
    StringAt (faultCalls [errorCode] zeroed) 0 (faultMessage errorCode) :=
  (faultCalls_last [] errorCode).mpr fun _ member => absurd member List.not_mem_nil

theorem stores_inside (errorCode : UInt64) (buffer : Memory) {index : Nat}
    (stored : index ∈ (getPageFaultString errorCode buffer).stores) : index < 256 := by
  rw [getPageFaultString_eq] at stored
  have inside := List.mem_range.mp stored
  rw [faultMessage_length, faultLength] at inside
  split at inside <;> split at inside <;> split at inside <;> split at inside <;> omega

/-- No call stores outside of the buffer, and the returned string is that of a zeroed buffer
exactly when no earlier message was longer. -/
theorem pageFaultText_iff (history : List UInt64) (errorCode : UInt64) :
    (HistoryIndependent history errorCode ∧
      ∀ code buffer, ∀ index ∈ (getPageFaultString code buffer).stores, index < 256) ↔
      ∀ earlier ∈ history, faultLength earlier ≤ faultLength errorCode := by
  simp only [← faultMessage_length]
  rw [← faultCalls_last]
  constructor
  · rintro ⟨⟨chars, after, fresh⟩, _⟩
    rwa [← fresh.unique (fresh_message errorCode)]
  · intro terminated
    exact ⟨⟨_, terminated, fresh_message errorCode⟩, fun code buffer _ => stores_inside code buffer⟩

/-- The end of a supervisor's message behind a user's. -/
theorem pageFaultText_stale : ¬HistoryIndependent [0] 6 := by
  rintro ⟨chars, after, fresh⟩
  have stale : StringAt (faultCalls [0, 6] zeroed) 0
      (text "User Process write to data non-present page entrye entry") := by decide +kernel
  have clean : StringAt (faultCalls [6] zeroed) 0
      (text "User Process write to data non-present page entry") := by decide +kernel
  have same := (stale.unique after).trans (fresh.unique clean)
  exact absurd (congrArg List.length same) (by decide)

end OkeOS
