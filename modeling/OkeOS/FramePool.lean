import Mathlib.Data.Finset.Card
import Mathlib.Data.Finset.Dedup
import OkeOS.LowFrames
import OkeOS.PfaCalls
import OkeOS.PfaCounters
import OkeOS.Session

/-!
The frame allocator without its bitmap: the set of the frames handed out.  A request takes the
lowest frame that is usable, does not hold the bitmap and is not in the set; the counters are
numbers of frames.
-/

namespace OkeOS

open ByteMemory

namespace PageFrameAllocator

inductive FrameRequest
  | requestPage
  | freePage (frame : Nat)
  | getFreeRAM
  | getTotalRAM

namespace FramePool

section

variable (memmap : List MemmapEntry) (pool : Finset Nat)

/-- The frame can be handed out. -/
def Available (index : Nat) : Prop :=
  FreeAtBoot memmap index ∧ 4096 * index ∉ pool

instance (index : Nat) : Decidable (Available memmap pool index) :=
  inferInstanceAs (Decidable (_ ∧ _))

def lowest : Option Nat :=
  (List.range (totalMemorySizeInPages memmap)).find? fun index => Available memmap pool index

/-- What is left of the largest usable entry; frames of other entries are counted off it too. -/
def left : Nat :=
  (largestFreeSegment memmap).2 - 4096 * (bitmapSizeInPages memmap + pool.card)

/-- A request that panics ends the session. -/
def serve : FrameRequest → Option (Nat × Finset Nat)
  | .requestPage =>
      if left memmap pool < 16384 then none
      else (lowest memmap pool).map fun index => (4096 * index, insert (4096 * index) pool)
  | .freePage frame => if frame ∈ pool then some (0, pool.erase frame) else none
  | .getFreeRAM => some (left memmap pool, pool)
  | .getTotalRAM => some ((largestFreeSegment memmap).2, pool)

end

end FramePool

/-- The allocator with the frames that are handed out. -/
structure FrameState where
  state : Phys Globals
  handed : List Nat

/-- A call that returns, after any number of writes into frames that are handed out. -/
inductive FrameServes : FrameState → FrameRequest → Nat → FrameState → Prop
  | write {first last : FrameState} {request : FrameRequest} {reply frame address : Nat}
      (byte : UInt8) (member : frame ∈ first.handed) (inside : InFrame frame address) :
      FrameServes { first with state :=
          { first.state with mem := writeByte first.state.mem address byte } } request reply last →
      FrameServes first request reply last
  | requestPage {first : FrameState} {frame : Nat} {state : Phys Globals}
      (run : requestPage first.state = .ok (frame, state)) :
      FrameServes first .requestPage frame { state := state, handed := frame :: first.handed }
  | freePage {first : FrameState} {frame : Nat} (member : frame ∈ first.handed) :
      FrameServes first (.freePage frame) 0
        { state := freePage first.state frame, handed := first.handed.erase frame }
  | getFreeRAM (first : FrameState) : FrameServes first .getFreeRAM (getFreeRAM first.state) first
  | getTotalRAM (first : FrameState) :
      FrameServes first .getTotalRAM (getTotalRAM first.state) first

/-- The frames handed out, as a set. -/
structure Pooled (memmap : List MemmapEntry) (state : Phys Globals) (handed : List Nat)
    (pool : Finset Nat) : Prop where
  inv : FrameInv memmap state handed
  frames : handed.toFinset = pool

section

variable {memmap : List MemmapEntry} {state state' : Phys Globals} {handed : List Nat}
  {pool : Finset Nat} {frame index : Nat}

theorem Pooled.mem_pool (pooled : Pooled memmap state handed pool) : frame ∈ pool ↔ frame ∈ handed := by
  rw [← pooled.frames, List.mem_toFinset]

theorem Pooled.card (pooled : Pooled memmap state handed pool) : pool.card = handed.length := by
  rw [← pooled.frames]
  exact List.toFinset_card_of_nodup pooled.inv.distinct

theorem Pooled.freeRAM (pooled : Pooled memmap state handed pool) :
    getFreeRAM state = FramePool.left memmap pool := by
  have counter := pooled.inv.counter
  rw [getFreeRAM, FramePool.left, pooled.card]
  omega

/-- A clear bit inside memory is a frame that can be handed out. -/
theorem Pooled.available (pooled : Pooled memmap state handed pool)
    (inside : index < totalMemorySizeInPages memmap) :
    FramePool.Available memmap pool index ↔ bit state index = false := by
  rw [pooled.inv.exact index inside, FramePool.Available, FreeAtBoot, and_assoc, pooled.mem_pool]

theorem Pooled.lowest (pooled : Pooled memmap state handed pool) (found : Found state index)
    (inside : index < totalMemorySizeInPages memmap) :
    FramePool.lowest memmap pool = some index := by
  refine List.find?_range_eq_some.mpr ⟨?_, List.mem_range.mpr inside, fun other earlier => ?_⟩
  · rw [decide_eq_true_eq, pooled.available inside]
    exact found.clear
  · rw [Bool.not_eq_true', decide_eq_false_iff_not, pooled.available (by omega), Bool.not_eq_false]
    by_cases hinted : other < state.globals.bitmapIdx
    · exact pooled.inv.hint other hinted
    · exact found.first other (by omega) earlier

theorem Pooled.requested (pooled : Pooled memmap state handed pool) (valid : ValidMap memmap)
    (run : requestPage state = .ok (frame, state')) :
    FramePool.serve memmap pool .requestPage = some (frame, insert frame pool) := by
  obtain ⟨index, inside, found, rfl, _, enough, _⟩ := pooled.inv.request_index valid run
  have left := pooled.freeRAM
  rw [getFreeRAM] at left
  rw [FramePool.serve, if_neg (by omega), pooled.lowest found inside, Option.map_some]

/-- With four frames left on the counter a request returns. -/
theorem Pooled.returns (pooled : Pooled memmap state handed pool) (valid : ValidMap memmap)
    (enough : 16384 ≤ FramePool.left memmap pool) : ∃ result, requestPage state = .ok result := by
  have inv := pooled.inv
  have left := pooled.freeRAM
  rw [getFreeRAM] at left
  have total := valid.total_le
  have size : bitmapSize memmap = totalMemorySizeInPages memmap / 8 + 1 := rfl
  obtain ⟨limitEq, _⟩ := total_le_limit inv.place valid
  have passes : EnoughMemory state := fun short => by omega
  have hint : HintBelow state := inv.hint
  rcases hint.requestPage (by omega) passes with ⟨index, _, served⟩ | ⟨full, _⟩
  · exact ⟨_, served⟩
  · obtain ⟨index, inside, clear⟩ := inv.spare valid (by omega)
    exact absurd (full index (by omega)) (by simp [clear])

theorem Pooled.request (pooled : Pooled memmap state handed pool) (valid : ValidMap memmap)
    (run : requestPage state = .ok (frame, state')) :
    Pooled memmap state' (frame :: handed) (insert frame pool) := by
  refine ⟨pooled.inv.request valid run, ?_⟩
  rw [List.toFinset_cons, pooled.frames]

theorem Pooled.free (pooled : Pooled memmap state handed pool) (valid : ValidMap memmap)
    (member : frame ∈ handed) :
    Pooled memmap (freePage state frame) (handed.erase frame) (pool.erase frame) := by
  refine ⟨pooled.inv.free valid member, ?_⟩
  ext other
  rw [List.mem_toFinset, pooled.inv.distinct.mem_erase_iff, Finset.mem_erase, pooled.mem_pool]

end

/-- A state of a run, and the set of its frames. -/
structure PoolModels (memmap : List MemmapEntry) (first : FrameState) (pool : Finset Nat) : Prop where
  run : FrameRun memmap first.state first.handed
  frames : first.handed.toFinset = pool

section

variable {memmap : List MemmapEntry} {first last : FrameState} {pool pool' : Finset Nat}
  {request : FrameRequest} {reply frame : Nat}

theorem PoolModels.pooled (models : PoolModels memmap first pool) (valid : ValidMap memmap) :
    Pooled memmap first.state first.handed pool :=
  ⟨models.run.inv valid, models.frames⟩

theorem FrameServes.forth (valid : ValidMap memmap) (models : PoolModels memmap first pool)
    (served : FrameServes first request reply last) :
    ∃ pool', FramePool.serve memmap pool request = some (reply, pool') ∧
      PoolModels memmap last pool' := by
  induction served generalizing pool with
  | write byte member inside _ ih => exact ih ⟨models.run.write byte member inside, models.frames⟩
  | requestPage run =>
      have pooled := models.pooled valid
      exact ⟨_, pooled.requested valid run, models.run.request run, (pooled.request valid run).frames⟩
  | freePage member =>
      have pooled := models.pooled valid
      exact ⟨_, if_pos (pooled.mem_pool.mpr member), models.run.free member,
        (pooled.free valid member).frames⟩
  | getFreeRAM first =>
      exact ⟨pool, by rw [FramePool.serve, (models.pooled valid).freeRAM], models⟩
  | getTotalRAM first =>
      exact ⟨pool, by rw [FramePool.serve, models.run.total valid], models⟩

theorem FrameServes.back (valid : ValidMap memmap) (models : PoolModels memmap first pool)
    (served : FramePool.serve memmap pool request = some (reply, pool')) :
    ∃ last, FrameServes first request reply last ∧ PoolModels memmap last pool' := by
  have step {reply' : Nat} {last : FrameState} (step : FrameServes first request reply' last) :
      ∃ last, FrameServes first request reply last ∧ PoolModels memmap last pool' := by
    obtain ⟨pool'', served', models'⟩ := step.forth valid models
    rw [served, Option.some.injEq, Prod.mk.injEq] at served'
    obtain ⟨rfl, rfl⟩ := served'
    exact ⟨last, step, models'⟩
  cases request with
  | requestPage =>
      rw [FramePool.serve] at served
      split at served
      · cases served
      · obtain ⟨result, run⟩ := (models.pooled valid).returns valid (by omega)
        exact step (.requestPage run)
  | freePage frame =>
      rw [FramePool.serve] at served
      split at served
      · rename_i member
        exact step (.freePage ((models.pooled valid).mem_pool.mp member))
      · cases served
  | getFreeRAM => exact step (.getFreeRAM first)
  | getTotalRAM => exact step (.getTotalRAM first)

theorem frameServes_refines (valid : ValidMap memmap) :
    Session.Refines FrameServes (FramePool.serve memmap) (PoolModels memmap) :=
  ⟨FrameServes.forth valid, FrameServes.back valid⟩

/-- From any state of a run the allocator serves the sessions that the set of its frames serves,
with the same replies. -/
theorem frames_session {state : Phys Globals} {handed : List Nat} (valid : ValidMap memmap)
    (run : FrameRun memmap state handed) (requests : List FrameRequest) (replies : List Nat) :
    (∀ last, Session.Run FrameServes { state := state, handed := handed } requests replies last →
      Session.replay (FramePool.serve memmap) handed.toFinset requests =
        some (replies, last.handed.toFinset)) ∧
      ∀ pool, Session.replay (FramePool.serve memmap) handed.toFinset requests =
          some (replies, pool) →
        ∃ last, Session.Run FrameServes { state := state, handed := handed } requests replies last ∧
          last.handed.toFinset = pool := by
  have models : PoolModels memmap { state := state, handed := handed } handed.toFinset :=
    ⟨run, rfl⟩
  constructor
  · intro last session
    obtain ⟨pool, replayed, models'⟩ := (frameServes_refines valid).run_forth models session
    rw [replayed, models'.frames]
  · intro pool replayed
    obtain ⟨last, session, models'⟩ := (frameServes_refines valid).run_back models replayed
    exact ⟨last, session, models'.frames⟩

/-- A frame that is freed is handed out again; the rest of the memory is counted in bytes. -/
theorem frames_session_smallMap : ∃ state, FrameRun smallMap state [] ∧
    ∃ last, Session.Run FrameServes { state := state, handed := [] }
      [.requestPage, .requestPage, .freePage 0x2000, .getFreeRAM, .requestPage, .getTotalRAM]
      [0x2000, 0x3000, 0, 0xe000, 0x2000, 0x10000] last := by
  cases booted : init poweredOn smallMap with
  | error fault => cases booted
  | ok state =>
      have run := FrameRun.init (by decide) booted
      obtain ⟨_, back⟩ := frames_session smallMap_valid run
        [.requestPage, .requestPage, .freePage 0x2000, .getFreeRAM, .requestPage, .getTotalRAM]
        [0x2000, 0x3000, 0, 0xe000, 0x2000, 0x10000]
      obtain ⟨last, session, _⟩ := back {0x2000, 0x3000} (by decide)
      exact ⟨state, run, last, session⟩

end

end PageFrameAllocator

end OkeOS
