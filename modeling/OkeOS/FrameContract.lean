import OkeOS.PfaBitmap

/-!
What the users of the frame allocator rely on: a requested frame is aligned and was
never handed out before, and neither the allocator nor its bitmap touches frames that
are handed out.  The real allocator keeps this contract from any state in which its
bitmap is locked.
-/

namespace OkeOS

open ByteMemory

/-- The byte lies in the frame that starts at `frame`. -/
def InFrame (frame address : Nat) : Prop := frame ≤ address ∧ address < frame + 4096

theorem inFrame_unique {first second address : Nat} (firstAligned : first % 4096 = 0)
    (secondAligned : second % 4096 = 0) (inFirst : InFrame first address)
    (inSecond : InFrame second address) : first = second := by
  obtain ⟨firstLower, firstUpper⟩ := inFirst
  obtain ⟨secondLower, secondUpper⟩ := inSecond
  omega

/-- `Owned state handed` says that the frames in `handed` belong to the callers. -/
structure FrameContract {α : Type} (requestPage : Phys α → Except Fault (Nat × Phys α))
    (Owned : Phys α → List Nat → Prop) : Prop where
  request : ∀ {state state' : Phys α} {handed : List Nat} {frame : Nat}, Owned state handed →
    requestPage state = .ok (frame, state') → Owned state' (frame :: handed)
  fresh : ∀ {state state' : Phys α} {handed : List Nat} {frame : Nat}, Owned state handed →
    requestPage state = .ok (frame, state') → frame ∉ handed
  keeps : ∀ {state state' : Phys α} {handed : List Nat} {frame : Nat}, Owned state handed →
    requestPage state = .ok (frame, state') → ∀ other ∈ handed, ∀ address, InFrame other address →
      state'.mem address = state.mem address
  write : ∀ {state : Phys α} {handed : List Nat} {mem : Memory}, Owned state handed →
    (∀ address, mem address ≠ state.mem address → ∃ frame ∈ handed, InFrame frame address) →
    Owned { state with mem := mem } handed
  aligned : ∀ {state : Phys α} {handed : List Nat}, Owned state handed →
    ∀ frame ∈ handed, frame % 4096 = 0
  bound : ∀ {state : Phys α} {handed : List Nat}, Owned state handed →
    ∀ frame ∈ handed, frame < 2 ^ 52

namespace PageFrameAllocator

/-- The state at the end of a search that stops at `index`. -/
def withHint (state : Phys Globals) (index : Nat) : Phys Globals :=
  { state with globals := { state.globals with bitmapIdx := index } }

@[simp] theorem bit_withHint (state : Phys Globals) (index other : Nat) :
    bit (withHint state index) other = bit state other := rfl

@[simp] theorem limit_withHint (state : Phys Globals) (index : Nat) :
    limit (withHint state index) = limit state := rfl

/-- The search stops at the first clear bit from the hint on. -/
structure Found (state : Phys Globals) (index : Nat) : Prop where
  lower : state.globals.bitmapIdx ≤ index
  clear : bit state index = false
  first : ∀ other, state.globals.bitmapIdx ≤ other → other < index → bit state other = true

theorem requestScan_ok {rounds frame : Nat} {state state' : Phys Globals}
    (run : requestScan rounds state = .ok (frame, state')) :
    ∃ index, Found state index ∧ index < state.globals.bitmapIdx + rounds ∧
      frame = mul64 index 4096 ∧ state' = lockPage (withHint state index) frame := by
  induction rounds generalizing state with
  | zero => simp [requestScan] at run
  | succ rounds ih =>
      rw [requestScan] at run
      by_cases set : bit state state.globals.bitmapIdx = true
      · rw [bit] at set
        rw [if_pos set] at run
        obtain ⟨index, found, upper, frameEq, stateEq⟩ := ih run
        have lower := found.lower
        simp only at lower upper
        refine ⟨index, ⟨by omega, found.clear, ?_⟩, by omega, frameEq, stateEq⟩
        intro other otherLower otherUpper
        by_cases same : other = state.globals.bitmapIdx
        · rw [same]
          exact set
        · exact found.first other (by simp only; omega) otherUpper
      · have clear := set
        rw [bit] at set
        rw [if_neg set] at run
        simp only [Except.ok.injEq, Prod.mk.injEq] at run
        refine ⟨state.globals.bitmapIdx, ⟨Nat.le_refl _, by simpa using clear, ?_⟩, by omega,
          run.1.symm, ?_⟩
        · intro other lower upper
          omega
        · rw [← run.1]
          exact run.2.symm

theorem requestScan_stuck {rounds : Nat} {state : Phys Globals} {fault : Fault}
    (failed : requestScan rounds state = .error fault) :
    fault = .panic "Out of memory" ∧ ∀ index, state.globals.bitmapIdx ≤ index →
      index < state.globals.bitmapIdx + rounds → bit state index = true := by
  induction rounds generalizing state with
  | zero =>
      rw [requestScan, Except.error.injEq] at failed
      exact ⟨failed.symm, fun index lower upper => by omega⟩
  | succ rounds ih =>
      rw [requestScan] at failed
      split at failed
      · rename_i set
        obtain ⟨faultEq, later⟩ := ih failed
        refine ⟨faultEq, fun index lower upper => ?_⟩
        by_cases same : index = state.globals.bitmapIdx
        · rw [same]
          exact set
        · exact later index (by simp only; omega) (by simp only; omega)
      · cases failed

theorem requestPage_ok {frame : Nat} {state state' : Phys Globals}
    (run : requestPage state = .ok (frame, state')) :
    ∃ index, Found state index ∧ index < limit state ∧ frame = mul64 index 4096 ∧
      state' = lockPage (withHint state index) frame ∧
      (state.globals.oomPanics = true → 16384 ≤ state.globals.freeMemory) := by
  unfold requestPage at run
  split at run
  · simp at run
  · rename_i enough
    obtain ⟨index, found, upper, frameEq, stateEq⟩ := requestScan_ok run
    have lower := found.lower
    refine ⟨index, found, ?_, frameEq, stateEq, ?_⟩
    · rw [limit]
      omega
    · intro panics
      by_contra less
      exact enough ⟨panics, by omega⟩

/-- The frame overlaps the bytes of the bitmap. -/
def HoldsBitmap (state : Phys Globals) (index : Nat) : Prop :=
  state.globals.pfaBitmap.buffer < 4096 * index + 4096 ∧
    4096 * index < state.globals.pfaBitmap.buffer + state.globals.pfaBitmap.size

structure Owned (state : Phys Globals) (handed : List Nat) : Prop where
  size : state.globals.pfaBitmap.size * 8 * 4096 ≤ 2 ^ 52
  locked : ∀ index < limit state, HoldsBitmap state index → bit state index = true
  frames : ∀ frame ∈ handed, ∃ index < limit state, frame = 4096 * index ∧
    bit state index = true ∧ ¬HoldsBitmap state index

section

variable {state state' : Phys Globals} {handed : List Nat} {frame : Nat}

theorem Owned.limit_eq (owned : Owned state handed) :
    limit state = state.globals.pfaBitmap.size * 8 := by
  have small := owned.size
  rw [limit, mul64, Nat.mod_eq_of_lt (by omega)]

theorem Owned.request_ok (owned : Owned state handed)
    (run : requestPage state = .ok (frame, state')) :
    ∃ index, Found state index ∧ index < limit state ∧ frame = 4096 * index ∧
      state' = lockPage (withHint state index) (4096 * index) := by
  obtain ⟨index, found, upper, frameEq, stateEq, _⟩ := requestPage_ok run
  have small := owned.size
  have limitEq := owned.limit_eq
  have frameEq' : frame = 4096 * index := by
    rw [frameEq, mul64, Nat.mod_eq_of_lt (by omega), Nat.mul_comm]
  exact ⟨index, found, upper, frameEq', by rw [← frameEq']; exact stateEq⟩

theorem bit_request {index : Nat} (upper : index < limit state) (other : Nat) :
    bit (lockPage (withHint state index) (4096 * index)) other =
      (bit state other || decide (other = index)) := by
  have indexEq : 4096 * index / 4096 = index := by omega
  rw [bit_lockPage, indexEq, bit_withHint, limit_withHint]
  by_cases same : other = index
  · simp [same, Nat.le_of_lt upper]
  · simp [same]

theorem request_bitmap (state : Phys Globals) (index addr : Nat) :
    (lockPage (withHint state index) addr).globals.pfaBitmap = state.globals.pfaBitmap :=
  (lockPage_globals (withHint state index) addr).1

theorem Owned.request (owned : Owned state handed)
    (run : requestPage state = .ok (frame, state')) : Owned state' (frame :: handed) := by
  obtain ⟨index, found, upper, frameEq, stateEq⟩ := owned.request_ok run
  subst stateEq
  have place := request_bitmap state index (4096 * index)
  have limitEq := limit_congr place
  have holds (other : Nat) : HoldsBitmap (lockPage (withHint state index) (4096 * index)) other ↔
      HoldsBitmap state other := by
    rw [HoldsBitmap, HoldsBitmap, place]
  refine ⟨by rw [place]; exact owned.size, ?_, ?_⟩
  · intro other bound bitmap
    rw [limitEq] at bound
    rw [bit_request upper, owned.locked other bound ((holds other).mp bitmap), Bool.true_or]
  · intro other member
    rcases List.mem_cons.mp member with new | old
    · refine ⟨index, by rw [limitEq]; exact upper, new.trans frameEq, ?_, ?_⟩
      · simp [bit_request upper]
      · intro bitmap
        have set := owned.locked index upper ((holds index).mp bitmap)
        rw [found.clear] at set
        exact Bool.false_ne_true set
    · obtain ⟨slot, bound, otherEq, set, apart⟩ := owned.frames other old
      refine ⟨slot, by rw [limitEq]; exact bound, otherEq, ?_, ?_⟩
      · rw [bit_request upper, set, Bool.true_or]
      · intro bitmap
        exact apart ((holds slot).mp bitmap)

theorem Owned.fresh (owned : Owned state handed)
    (run : requestPage state = .ok (frame, state')) : frame ∉ handed := by
  obtain ⟨index, found, _, frameEq, _⟩ := owned.request_ok run
  intro member
  obtain ⟨slot, _, slotEq, set, _⟩ := owned.frames frame member
  have same : slot = index := by omega
  rw [same, found.clear] at set
  exact Bool.false_ne_true set

theorem Owned.keeps (owned : Owned state handed)
    (run : requestPage state = .ok (frame, state')) {other : Nat} (member : other ∈ handed)
    {address : Nat} (inside : InFrame other address) :
    state'.mem address = state.mem address := by
  obtain ⟨index, _, upper, _, stateEq⟩ := owned.request_ok run
  obtain ⟨slot, bound, otherEq, _, apart⟩ := owned.frames other member
  have limitEq := owned.limit_eq
  obtain ⟨lower, high⟩ := inside
  rw [stateEq]
  apply lockPage_mem (withHint state index)
  simp only [withHint, ne_eq]
  intro same
  apply apart
  constructor
  · omega
  · omega

theorem Owned.write_bit (owned : Owned state handed) {mem : Memory}
    (changed : ∀ address, mem address ≠ state.mem address →
      ∃ frame ∈ handed, InFrame frame address) {index : Nat} (bound : index < limit state) :
    bit { state with mem := mem } index = bit state index := by
  have limitEq := owned.limit_eq
  apply Bitmap.get_congr
  by_contra different
  obtain ⟨frame, member, lower, upper⟩ := changed _ different
  obtain ⟨slot, _, frameEq, _, apart⟩ := owned.frames frame member
  simp only at lower upper
  apply apart
  constructor
  · omega
  · omega

theorem Owned.write (owned : Owned state handed) {mem : Memory}
    (changed : ∀ address, mem address ≠ state.mem address →
      ∃ frame ∈ handed, InFrame frame address) :
    Owned { state with mem := mem } handed := by
  refine ⟨owned.size, ?_, ?_⟩
  · intro index bound bitmap
    rw [owned.write_bit changed bound]
    exact owned.locked index bound bitmap
  · intro frame member
    obtain ⟨index, bound, frameEq, set, apart⟩ := owned.frames frame member
    exact ⟨index, bound, frameEq, by rw [owned.write_bit changed bound]; exact set, apart⟩

end

theorem contract : FrameContract requestPage Owned where
  request := fun owned run => owned.request run
  fresh := fun owned run => owned.fresh run
  keeps := fun owned run _ member _ inside => owned.keeps run member inside
  write := fun owned changed => owned.write changed
  aligned := by
    intro state handed owned frame member
    obtain ⟨index, _, frameEq, _⟩ := owned.frames frame member
    omega
  bound := by
    intro state handed owned frame member
    obtain ⟨index, bound, frameEq, _⟩ := owned.frames frame member
    have small := owned.size
    rw [owned.limit_eq] at bound
    omega

end PageFrameAllocator

end OkeOS
