import Mathlib.Data.Int.ModEq
import OkeOS.PfaRanges
import OkeOS.FrameContract

/-!
Sequences of calls of the frame allocator: the search hint against a search from the first
frame, and the counters against the number of set bits.
-/

namespace OkeOS

open ByteMemory

namespace PageFrameAllocator

inductive FrameCall where
  | requestPage
  | lockPage (addr : Nat)
  | lockPages (addr pageCount : Nat)
  | lockPageNonAvailable (addr : Nat)
  | freePage (addr : Nat)
  | freePages (addr pageCount : Nat)
deriving DecidableEq, Repr

def FrameCall.run (state : Phys Globals) : FrameCall → Except Fault (Phys Globals)
  | .requestPage => (·.2) <$> PageFrameAllocator.requestPage state
  | .lockPage addr => .ok (PageFrameAllocator.lockPage state addr)
  | .lockPages addr pageCount => .ok (PageFrameAllocator.lockPages state addr pageCount)
  | .lockPageNonAvailable addr => .ok (PageFrameAllocator.lockPageNonAvailable state addr)
  | .freePage addr => .ok (PageFrameAllocator.freePage state addr)
  | .freePages addr pageCount => .ok (PageFrameAllocator.freePages state addr pageCount)

theorem run_requestPage {state state' : Phys Globals}
    (run : FrameCall.requestPage.run state = .ok state') :
    ∃ frame, requestPage state = .ok (frame, state') := by
  cases request : requestPage state with
  | error fault =>
      rw [FrameCall.run, request] at run
      cases run
  | ok result =>
      rw [FrameCall.run, request] at run
      cases run
      exact ⟨result.1, rfl⟩

/-! The hint. -/

/-- The states that calls reach from the `initBitmap` of a memory map. -/
inductive HintRun : Phys Globals → Prop
  | init (state : Phys Globals) (memmap : List MemmapEntry) (addr : Nat) :
      HintRun (initBitmap state (bitmapSize memmap) addr)
  | call {state state' : Phys Globals} (call : FrameCall) :
      HintRun state → call.run state = .ok state' → HintRun state'

/-- No clear bit lies below the hint. -/
def HintBelow (state : Phys Globals) : Prop :=
  ∀ index < state.globals.bitmapIdx, bit state index = true

section Hint

variable {state state' : Phys Globals}

theorem HintBelow.lockPage (hint : HintBelow state) (addr : Nat) :
    HintBelow (PageFrameAllocator.lockPage state addr) := by
  intro index below
  rw [(lockPage_globals state addr).2.1] at below
  rw [bit_lockPage, hint index below, Bool.true_or]

theorem HintBelow.lockRounds (hint : HintBelow state) (addr count : Nat) :
    HintBelow (PageFrameAllocator.lockRounds state addr count) := by
  induction count with
  | zero => exact hint
  | succ i ih => exact ih.lockPage _

theorem HintBelow.lockPageNonAvailable (hint : HintBelow state) (addr : Nat) :
    HintBelow (PageFrameAllocator.lockPageNonAvailable state addr) := by
  intro index below
  rw [lockPageNonAvailable_globals] at below
  rw [bit, lockPageNonAvailable_globals, lockPageNonAvailable_mem,
    ← (lockPage_globals state addr).1]
  exact (bit_lockPage state addr index).trans (by rw [hint index below, Bool.true_or])

theorem HintBelow.freePage (hint : HintBelow state) (addr : Nat) :
    HintBelow (PageFrameAllocator.freePage state addr) := by
  cases set : bit state (addr / 4096) with
  | false => rwa [freePage_eq_self state addr set]
  | true =>
      intro index below
      rw [freePage_eq state addr set, counted_bitmapIdx] at below
      rw [bit_freePage, hint index (by omega), Bool.true_and, decide_eq_true_eq]
      omega

theorem HintBelow.freePages (hint : HintBelow state) (addr count : Nat) :
    HintBelow (PageFrameAllocator.freePages state addr count) := by
  induction count with
  | zero => exact hint
  | succ i ih => exact ih.freePage _

/-- A search passes set bits only. -/
theorem HintBelow.withHint (hint : HintBelow state) {index : Nat} (found : Found state index) :
    HintBelow (PageFrameAllocator.withHint state index) := by
  intro other below
  rw [bit_withHint]
  by_cases earlier : other < state.globals.bitmapIdx
  · exact hint other earlier
  · exact found.first other (by omega) below

theorem HintBelow.call (hint : HintBelow state) {call : FrameCall}
    (run : call.run state = .ok state') : HintBelow state' := by
  cases call with
  | requestPage =>
      obtain ⟨frame, request⟩ := run_requestPage run
      obtain ⟨index, found, _, _, stateEq, _⟩ := requestPage_ok request
      rw [stateEq]
      exact (hint.withHint found).lockPage frame
  | lockPage addr =>
      cases run
      exact hint.lockPage addr
  | lockPages addr pageCount =>
      cases run
      exact hint.lockRounds addr _
  | lockPageNonAvailable addr =>
      cases run
      exact hint.lockPageNonAvailable addr
  | freePage addr =>
      cases run
      exact hint.freePage addr
  | freePages addr pageCount =>
      cases run
      exact hint.freePages addr pageCount

theorem HintRun.hintBelow (run : HintRun state) : HintBelow state := by
  induction run with
  | init state memmap addr =>
      intro index below
      exact absurd below (Nat.not_lt_zero index)
  | call call _ returned ih => exact ih.call returned

theorem FrameCall.pfaBitmap {call : FrameCall} (run : call.run state = .ok state') :
    state'.globals.pfaBitmap = state.globals.pfaBitmap := by
  cases call with
  | requestPage =>
      obtain ⟨frame, request⟩ := run_requestPage run
      obtain ⟨index, _, _, _, stateEq, _⟩ := requestPage_ok request
      rw [stateEq, (lockPage_globals _ _).1]
      rfl
  | lockPage addr =>
      cases run
      exact (lockPage_setup state addr).pfaBitmap
  | lockPages addr pageCount =>
      cases run
      exact (lockRounds_setup state addr _).1.pfaBitmap
  | lockPageNonAvailable addr =>
      cases run
      rw [lockPageNonAvailable_globals]
  | freePage addr =>
      cases run
      exact (freePage_setup state addr).pfaBitmap
  | freePages addr pageCount =>
      cases run
      exact (freePages_setup state addr pageCount).pfaBitmap

theorem areal_lt (memmap : List MemmapEntry) : getMemoryArealSize memmap < 2 ^ 64 := by
  have word : ∀ size < 2 ^ 64, memmap.foldl arealStep size < 2 ^ 64 := by
    induction memmap with
    | nil => exact fun size bound => bound
    | cons entry rest ih =>
        intro size bound
        refine ih _ ?_
        have wrapped : add64 entry.base entry.length < 2 ^ 64 := Nat.mod_lt _ (by decide)
        rw [arealStep]
        split <;> assumption
  exact word 0 (by decide)

/-- Every bit of the bitmap belongs to a frame with a 64-bit address. -/
theorem HintRun.limit_le (run : HintRun state) : limit state ≤ 2 ^ 52 := by
  induction run with
  | init state memmap addr =>
      have areal := areal_lt memmap
      rw [limit]
      change bitmapSize memmap * 8 % 2 ^ 64 ≤ 2 ^ 52
      rw [bitmapSize]
      omega
  | call call _ returned ih => rwa [limit_congr (FrameCall.pfaBitmap returned)]

/-- The request passes the first check. -/
def EnoughMemory (state : Phys Globals) : Prop :=
  ¬(state.globals.oomPanics = true ∧ state.globals.freeMemory < 16384)

/-- `index` is the lowest clear bit. -/
structure LowestClear (state : Phys Globals) (index : Nat) : Prop where
  inside : index < limit state
  clear : bit state index = false
  below : ∀ other < index, bit state other = true

theorem LowestClear.unique {first second : Nat} (left : LowestClear state first)
    (right : LowestClear state second) : first = second := by
  rcases Nat.lt_trichotomy first second with less | same | more
  · exact absurd (right.below first less) (by simp [left.clear])
  · exact same
  · exact absurd (left.below second more) (by simp [right.clear])

/-- The lowest clear frame is returned and its bit set. -/
def Serves (state : Phys Globals) (index : Nat) (outcome : Except Fault (Nat × Phys Globals)) :
    Prop :=
  ∃ state', outcome = .ok (4096 * index, state') ∧
    ∀ other, bit state' other = (bit state other || decide (other = index))

theorem HintBelow.requestPage (hint : HintBelow state) (bound : limit state ≤ 2 ^ 52)
    (enough : EnoughMemory state) :
    (∃ index, LowestClear state index ∧
        requestPage state = .ok (4096 * index,
          PageFrameAllocator.lockPage (PageFrameAllocator.withHint state index) (4096 * index))) ∨
      (∀ index < limit state, bit state index = true) ∧
        PageFrameAllocator.requestPage state = .error (.panic "Out of memory") := by
  cases request : PageFrameAllocator.requestPage state with
  | ok result =>
      obtain ⟨frame, state'⟩ := result
      obtain ⟨index, found, inside, rfl, rfl, _⟩ := requestPage_ok request
      have frameEq : mul64 index 4096 = 4096 * index := by
        rw [mul64, Nat.mod_eq_of_lt (by omega), Nat.mul_comm]
      refine .inl ⟨index, ⟨inside, found.clear, hint.withHint found⟩, ?_⟩
      rw [frameEq]
  | error fault =>
      rw [PageFrameAllocator.requestPage, if_neg enough] at request
      obtain ⟨rfl, later⟩ := requestScan_stuck request
      refine .inr ⟨fun index inside => ?_, rfl⟩
      by_cases earlier : index < state.globals.bitmapIdx
      · exact hint index earlier
      · refine later index (by omega) ?_
        change index < state.globals.bitmapIdx + (limit state - state.globals.bitmapIdx)
        omega

theorem LowestClear.serves {index : Nat} (lowest : LowestClear state index) :
    Serves state index (.ok (4096 * index,
      PageFrameAllocator.lockPage (PageFrameAllocator.withHint state index) (4096 * index))) := by
  refine ⟨_, rfl, fun other => ?_⟩
  rw [bit_lockPage, Nat.mul_div_cancel_left _ (by decide), bit_withHint, limit_withHint]
  by_cases same : other = index
  · rw [same]
    simp [lowest.inside.le]
  · simp [same]

/-- The hint does not change what a request finds. -/
theorem HintBelow.requestPage_zero (hint : HintBelow state) (bound : limit state ≤ 2 ^ 52)
    (enough : EnoughMemory state) :
    PageFrameAllocator.requestPage (PageFrameAllocator.withHint state 0) =
      PageFrameAllocator.requestPage state := by
  have fromZero : HintBelow (PageFrameAllocator.withHint state 0) :=
    fun index below => absurd below (Nat.not_lt_zero index)
  rcases hint.requestPage bound enough with ⟨index, lowest, served⟩ | ⟨full, failed⟩
  · rcases fromZero.requestPage bound enough with ⟨index', lowest', served'⟩ | ⟨full', _⟩
    · cases lowest.unique ⟨lowest'.inside, lowest'.clear, lowest'.below⟩
      rw [served, served']
      rfl
    · exact absurd (full' index lowest.inside) (by simp [lowest.clear])
  · rcases fromZero.requestPage bound enough with ⟨index', lowest', _⟩ | ⟨_, failed'⟩
    · exact absurd (full index' lowest'.inside) (by simpa using lowest'.clear)
    · rw [failed, failed']

/-- In every state that calls reach, a request that passes the first check finds the lowest
clear bit, as a search from the first frame would, and fails only if there is none. -/
theorem requestPage_lowest (run : HintRun state) :
    (∀ index < state.globals.bitmapIdx, bit state index = true) ∧
      (EnoughMemory state →
        PageFrameAllocator.requestPage (PageFrameAllocator.withHint state 0) =
            PageFrameAllocator.requestPage state ∧
          ((∃ index, LowestClear state index ∧
              Serves state index (PageFrameAllocator.requestPage state)) ∨
            (∀ index < limit state, bit state index = true) ∧
              PageFrameAllocator.requestPage state = .error (.panic "Out of memory"))) := by
  have hint := run.hintBelow
  refine ⟨hint, fun enough => ⟨hint.requestPage_zero run.limit_le enough, ?_⟩⟩
  rcases hint.requestPage run.limit_le enough with ⟨index, lowest, served⟩ | failed
  · rw [served]
    exact .inl ⟨index, lowest, lowest.serves⟩
  · exact .inr failed

/-- A frame that was locked and freed again is found. -/
theorem requestPage_lowest_freed : ∃ state : Phys Globals, HintRun state ∧
    Serves state 0 (PageFrameAllocator.requestPage state) := by
  let start := initBitmap (clearState { size := 0, buffer := 0 })
    (bitmapSize [{ base := 0x1000, length := 0x8000, type := 0 }]) 0x1000
  have fresh : HintRun start := .init _ _ _
  have locked := fresh.call (.lockPage 0) rfl
  have freed := locked.call (.freePage 0) rfl
  refine ⟨_, freed, ?_⟩
  have clear : bit (PageFrameAllocator.freePage (PageFrameAllocator.lockPage start 0) 0) 0 = false := by
    rw [bit_freePage]
    simp
  have enough : EnoughMemory (PageFrameAllocator.freePage (PageFrameAllocator.lockPage start 0) 0) := by
    rintro ⟨panics, _⟩
    rw [(freePage_setup _ _).oomPanics, (lockPage_setup _ _).oomPanics] at panics
    exact Bool.false_ne_true panics
  have inside : 0 < limit (PageFrameAllocator.freePage (PageFrameAllocator.lockPage start 0) 0) := by
    decide
  rcases ((requestPage_lowest freed).2 enough).2 with ⟨index, lowest, served⟩ | ⟨full, _⟩
  · have first : index = 0 :=
      lowest.unique ⟨inside, clear, fun other below => absurd below (Nat.not_lt_zero other)⟩
    rwa [first] at served
  · exact absurd (full 0 inside) (by simp [clear])

end Hint

/-! The counters. -/

/-- The number of bits that are set. -/
def setBits (state : Phys Globals) : Nat := (List.range (limit state)).countP fun i => bit state i

/-- The counters follow the number of set bits, modulo `2 ^ 64`. -/
structure DeltasExact (before after : Phys Globals) : Prop where
  used : (after.globals.usedMemory : Int) - before.globals.usedMemory ≡
    4096 * ((setBits after : Int) - setBits before) [ZMOD 2 ^ 64]
  free : (after.globals.freeMemory : Int) - before.globals.freeMemory ≡
    -(4096 * ((setBits after : Int) - setBits before)) [ZMOD 2 ^ 64]
  total : (after.globals.freeMemory : Int) + after.globals.usedMemory ≡
    before.globals.freeMemory + before.globals.usedMemory [ZMOD 2 ^ 64]

/-- The call is about frames of the bitmap only. -/
def FrameCall.InBounds (state : Phys Globals) : FrameCall → Prop
  | .requestPage => True
  | .lockPage addr => addr / 4096 < limit state
  | .lockPages addr pageCount =>
      pageCount ≤ 2 ^ 19 ∧ ∀ i < pageCount, addr / 4096 + i < limit state
  | .lockPageNonAvailable _ => False
  | .freePage addr => addr / 4096 < limit state
  | .freePages addr pageCount => ∀ i < pageCount, addr / 4096 + i < limit state

instance (state : Phys Globals) : ∀ call : FrameCall, Decidable (call.InBounds state)
  | .requestPage => inferInstanceAs (Decidable True)
  | .lockPage addr => inferInstanceAs (Decidable (addr / 4096 < limit state))
  | .lockPages addr pageCount => inferInstanceAs
      (Decidable (pageCount ≤ 2 ^ 19 ∧ ∀ i < pageCount, addr / 4096 + i < limit state))
  | .lockPageNonAvailable _ => inferInstanceAs (Decidable False)
  | .freePage addr => inferInstanceAs (Decidable (addr / 4096 < limit state))
  | .freePages addr pageCount =>
      inferInstanceAs (Decidable (∀ i < pageCount, addr / 4096 + i < limit state))

inductive CountedRun (before : Phys Globals) : Phys Globals → Prop
  | start : CountedRun before before
  | call {state state' : Phys Globals} (call : FrameCall) : CountedRun before state →
      call.InBounds state → call.run state = .ok state' → CountedRun before state'

theorem countP_flip {first second : Nat → Bool} {k count : Nat} (inside : k < count)
    (off : first k = false) (on : second k = true)
    (others : ∀ i, i ≠ k → second i = first i) :
    (List.range count).countP second = (List.range count).countP first + 1 := by
  induction count with
  | zero => omega
  | succ count ih =>
      rw [List.range_succ, List.countP_append, List.countP_append, List.countP_singleton,
        List.countP_singleton]
      by_cases last : k = count
      · have same : (List.range count).countP second = (List.range count).countP first := by
          refine List.countP_congr fun i member => ?_
          rw [others i (by have := List.mem_range.mp member; omega)]
        rw [same, ← last, off, on]
        simp
      · rw [ih (by omega), others count (by omega)]
        omega

section Deltas

variable {before state state' : Phys Globals}

theorem DeltasExact.refl (state : Phys Globals) : DeltasExact state state where
  used := by simp
  free := by simp
  total := rfl

theorem DeltasExact.trans {after : Phys Globals} (left : DeltasExact before state)
    (right : DeltasExact state after) : DeltasExact before after where
  used := by
    have sum := left.used.add right.used
    ring_nf at sum ⊢
    exact sum
  free := by
    have sum := left.free.add right.free
    ring_nf at sum ⊢
    exact sum
  total := right.total.trans left.total

theorem setBits_lockPage {addr : Nat} (clear : bit state (addr / 4096) = false)
    (inside : addr / 4096 < limit state) : setBits (lockPage state addr) = setBits state + 1 := by
  rw [setBits, setBits, limit_congr (lockPage_globals state addr).1]
  refine countP_flip inside clear ?_ fun i different => ?_
  · rw [bit_lockPage]
    simp [inside.le]
  · rw [bit_lockPage]
    simp [different]

theorem setBits_freePage {addr : Nat} (set : bit state (addr / 4096) = true)
    (inside : addr / 4096 < limit state) :
    setBits state = setBits (freePage state addr) + 1 := by
  rw [setBits, setBits, limit_congr (freePage_globals state addr).1]
  refine countP_flip inside ?_ set fun i different => ?_
  · rw [bit_freePage]
    simp
  · rw [bit_freePage]
    simp [different]

theorem deltas_lockPage {addr : Nat} (inside : addr / 4096 < limit state) :
    DeltasExact state (lockPage state addr) := by
  cases set : bit state (addr / 4096) with
  | true =>
      rw [lockPage_eq_self state addr (.inl set)]
      exact .refl state
  | false =>
      have more := setBits_lockPage set inside
      have eq := lockPage_eq state addr set inside.le
      have free : (lockPage state addr).globals.freeMemory =
          sub64 state.globals.freeMemory 4096 := by rw [eq, counted_freeMemory]
      have used : (lockPage state addr).globals.usedMemory =
          add64 state.globals.usedMemory 4096 := by rw [eq, Globals.counted]
      rw [sub64] at free
      rw [add64] at used
      refine ⟨?_, ?_, ?_⟩
      · rw [more, used, Int.ModEq]
        omega
      · rw [more, free, Int.ModEq]
        omega
      · rw [free, used, Int.ModEq]
        omega

theorem deltas_freePage {addr : Nat} (inside : addr / 4096 < limit state) :
    DeltasExact state (freePage state addr) := by
  cases set : bit state (addr / 4096) with
  | false =>
      rw [freePage_eq_self state addr set]
      exact .refl state
  | true =>
      have fewer := setBits_freePage set inside
      have eq := freePage_eq state addr set
      have free : (freePage state addr).globals.freeMemory =
          add64 state.globals.freeMemory 4096 := by rw [eq, counted_freeMemory]
      have used : (freePage state addr).globals.usedMemory =
          sub64 state.globals.usedMemory 4096 := by rw [eq, Globals.counted]
      rw [add64] at free
      rw [sub64] at used
      refine ⟨?_, ?_, ?_⟩
      · rw [fewer, used, Int.ModEq]
        omega
      · rw [fewer, free, Int.ModEq]
        omega
      · rw [free, used, Int.ModEq]
        omega

theorem deltas_lockRounds {addr count : Nat} (small : count ≤ 2 ^ 19)
    (inside : ∀ i < count, addr / 4096 + i < limit state) :
    DeltasExact state (lockRounds state addr count) := by
  induction count with
  | zero => exact .refl state
  | succ i ih =>
      refine (ih (by omega) fun j less => inside j (by omega)).trans (deltas_lockPage ?_)
      have bound := inside i (by omega)
      rw [(lockRounds_setup state addr i).1.limit, intOffset_eq (by omega), add64]
      omega

theorem deltas_freePages {addr count : Nat} (inside : ∀ i < count, addr / 4096 + i < limit state) :
    DeltasExact state (freePages state addr count) := by
  induction count with
  | zero => exact .refl state
  | succ i ih =>
      refine (ih fun j less => inside j (by omega)).trans (deltas_freePage ?_)
      have bound := inside i (by omega)
      rw [(freePages_setup state addr i).limit, add64, mul64]
      omega

theorem deltas_requestPage {frame : Nat} (run : requestPage state = .ok (frame, state')) :
    DeltasExact state state' := by
  obtain ⟨index, _, inside, rfl, rfl, _⟩ := requestPage_ok run
  have searched : DeltasExact state (withHint state index) :=
    ⟨(DeltasExact.refl state).used, (DeltasExact.refl state).free, rfl⟩
  refine searched.trans (deltas_lockPage ?_)
  rw [limit_withHint, mul64]
  omega

theorem deltas_call {call : FrameCall} (inBounds : call.InBounds state)
    (run : call.run state = .ok state') : DeltasExact state state' := by
  cases call with
  | requestPage =>
      obtain ⟨frame, request⟩ := run_requestPage run
      exact deltas_requestPage request
  | lockPage addr =>
      cases run
      exact deltas_lockPage inBounds
  | lockPages addr pageCount =>
      cases run
      obtain ⟨small, inside⟩ := inBounds
      rw [lockPages, Nat.min_eq_left (by omega)]
      exact deltas_lockRounds small inside
  | lockPageNonAvailable addr => exact absurd inBounds id
  | freePage addr =>
      cases run
      exact deltas_freePage inBounds
  | freePages addr pageCount =>
      cases run
      exact deltas_freePages inBounds

/-- Every sequence of calls changes the counters by the number of bits it sets and clears. -/
theorem countedRun_deltas (run : CountedRun before state) : DeltasExact before state := by
  induction run with
  | start => exact .refl before
  | call call _ inBounds returned ih => exact ih.trans (deltas_call inBounds returned)

/-- Frames 0 to 3 are locked, then 2 to 5, and 1 to 4 freed: 0 and 5 are left. -/
theorem countedRun_deltas_overlap :
    let start := clearState { size := 1, buffer := 0 }
    ∃ final, setBits final = 2 ∧ final.globals.usedMemory = 8192 ∧ DeltasExact start final := by
  intro start
  have run : CountedRun start _ := CountedRun.start
    |>.call (.lockPages 0 4) (by decide) rfl
    |>.call (.lockPages 0x2000 4) (by decide) rfl
    |>.call (.freePages 0x1000 4) (by decide) rfl
  exact ⟨_, by decide, by decide, countedRun_deltas run⟩

end Deltas

end PageFrameAllocator

end OkeOS
