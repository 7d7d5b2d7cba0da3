import OkeOS.HeapAccount
import OkeOS.HeapModel

/-!
Clients of the heap.  They see the pointers that `malloc` returns and what `getUsedMem` counts;
whatever they write into their blocks between the calls, the replies are those of the list of
segments.
-/

namespace OkeOS

open ByteMemory Tiling
open HeapSegHdr hiding free

inductive HeapRequest
  | malloc (size : Nat)
  | free (ptr : Nat)
  | sfree (ptr size : Nat)
  | expandHeap (length : Nat)
  | getUsedMem

/-- A call that returns, after any number of writes into live blocks.  The reply of a `void`
function is 0. -/
inductive HeapServes {σ : Type} (mapPage : σ → Nat → Except Fault σ) :
    HeapSystem σ → HeapRequest → Nat → HeapSystem σ → Prop
  | write {system next : HeapSystem σ} {request : HeapRequest} {reply address : Nat} {block : Block}
      (byte : UInt8) (live : block ∈ system.live) (inside : block.Contains address) :
      HeapServes mapPage { system with heap :=
          { system.heap with mem := writeByte system.heap.mem address byte } } request reply next →
      HeapServes mapPage system request reply next
  | malloc {system : HeapSystem σ} {fuel size pointer : Nat} {heap' : Heap σ}
      (bound : size ≤ 2 ^ 64 - 0x1000) (below : heap'.heapEnd < 2 ^ 64)
      (run : malloc mapPage fuel system.heap size = .ok (pointer, heap')) :
      HeapServes mapPage system (.malloc size) pointer
        { heap := heap'
          live := if pointer = 0 then system.live
            else { ptr := pointer, size := size } :: system.live }
  | free {system : HeapSystem σ} {block : Block} (live : block ∈ system.live) :
      HeapServes mapPage system (.free block.ptr) 0
        { heap := free system.heap block.ptr, live := system.live.erase block }
  | sfree {system : HeapSystem σ} {block : Block} {size : Nat} (live : block ∈ system.live)
      (bound : size ≤ length system.heap.mem (headerOf block.ptr)) :
      HeapServes mapPage system (.sfree block.ptr size) 0
        { heap := sfree system.heap block.ptr size, live := system.live.erase block }
  | expandHeap {system : HeapSystem σ} {length : Nat} {heap' : Heap σ} (positive : 0 < length)
      (bound : length ≤ 2 ^ 64 - 0x1000) (below : heap'.heapEnd < 2 ^ 64)
      (run : expandHeap mapPage system.heap length = .ok heap') :
      HeapServes mapPage system (.expandHeap length) 0 { heap := heap', live := system.live }
  | getUsedMem {system : HeapSystem σ} {used : Nat} (counted : UsedMem system.heap used) :
      HeapServes mapPage system .getUsedMem used system

namespace SegmentHeap

variable {σ : Type} (mapPage : σ → Nat → Except Fault σ)

/-- The allocated segment of a pointer. -/
def holder (model : SegmentHeap σ) (ptr : Nat) : Option Segment :=
  model.segments.find? fun segment => !segment.free && segment.addr + 29 == ptr

def releaseAt (model : SegmentHeap σ) (owner : Segment) : SegmentHeap σ :=
  { model with segments := release 29 model.segments owner.addr }

/-- A result whose heap ends in the address space. -/
def inWord : Except Fault (Nat × SegmentHeap σ) → Option (Nat × SegmentHeap σ)
  | .ok (reply, after) => if after.heapEnd < 2 ^ 64 then some (reply, after) else none
  | .error _ => none

/-- The reply to a legal request. -/
def serve (model : SegmentHeap σ) : HeapRequest → Option (Nat × SegmentHeap σ)
  | .malloc size =>
      if size ≤ 2 ^ 64 - 0x1000 then inWord (model.malloc mapPage 3 size) else none
  | .free ptr => (model.holder ptr).map fun owner => (0, model.releaseAt owner)
  | .sfree ptr size =>
      match model.holder ptr with
      | some owner => if size ≤ owner.length then some (0, model.releaseAt owner) else none
      | none => none
  | .expandHeap length =>
      if 0 < length ∧ length ≤ 2 ^ 64 - 0x1000 then
        inWord ((model.grow mapPage length).map fun after => (0, after))
      else none
  | .getUsedMem => some (usedBytes 29 model.segments, model)

theorem inWord_ok {result : Except Fault (Nat × SegmentHeap σ)} {reply : Nat}
    {after : SegmentHeap σ} :
    inWord result = some (reply, after) ↔ result = .ok (reply, after) ∧ after.heapEnd < 2 ^ 64 := by
  rcases result with fault | ⟨reply', after'⟩
  · simp [inWord]
  · rw [inWord]
    split
    · rename_i below
      simp only [Option.some.injEq, Except.ok.injEq, Prod.mk.injEq]
      constructor
      · rintro ⟨rfl, rfl⟩
        exact ⟨⟨rfl, rfl⟩, below⟩
      · exact fun both => both.1
    · rename_i high
      simp only [Except.ok.injEq, Prod.mk.injEq, reduceCtorEq, false_iff]
      rintro ⟨⟨rfl, rfl⟩, below⟩
      exact high below

end SegmentHeap

/-- The live blocks are those of the model's allocated segments. -/
structure SystemModels {σ : Type} (system : HeapSystem σ) (model : SegmentHeap σ) : Prop where
  inv : SystemInv system model.segments
  heapEnd : system.heap.heapEnd = model.heapEnd
  pages : system.heap.pages = model.pages

section

variable {σ : Type} {mapPage : σ → Nat → Except Fault σ} {system system' next : HeapSystem σ}
  {model model' : SegmentHeap σ} {block : Block} {owner : Segment} {request : HeapRequest}
  {reply ptr : Nat}

theorem SystemModels.models (models : SystemModels system model) : Models system.heap model :=
  ⟨models.inv.inv, models.heapEnd, models.pages⟩

theorem SystemModels.write {address : Nat} (models : SystemModels system model) (byte : UInt8)
    (live : block ∈ system.live) (inside : block.Contains address) :
    SystemModels { system with heap :=
      { system.heap with mem := writeByte system.heap.mem address byte } } model :=
  ⟨models.inv.write byte live inside, models.heapEnd, models.pages⟩

/-- A call that leaves the headers of a model's segments leaves its blocks. -/
theorem SystemModels.call (models : SystemModels system model)
    (call : HeapCall mapPage system system') (noWrap : system'.heap.heapEnd < 2 ^ 64)
    (after : Models system'.heap model') : SystemModels system' model' := by
  obtain ⟨⟨segments', inv'⟩, _⟩ := models.inv.call call noWrap
  have same := inv'.inv.unique after.inv
  exact ⟨same ▸ inv', after.heapEnd, after.pages⟩

theorem SystemModels.holder (models : SystemModels system model) (member : owner ∈ model.segments)
    (allocated : owner.free = false) : model.holder (owner.addr + 29) = some owner := by
  rw [SegmentHeap.holder, List.find?_eq_some_iff_append]
  obtain ⟨before, after, split⟩ := List.append_of_mem member
  refine ⟨by simp [allocated], before, after, split, fun other earlier => ?_⟩
  have otherMem : other ∈ model.segments := by simp [split, earlier]
  have nodup := tiles_nodup (by decide) models.inv.inv.tiles
  rw [split] at nodup
  have different : other ≠ owner := by
    rintro rfl
    exact (List.nodup_append.mp nodup).2.2 other earlier other List.mem_cons_self rfl
  have apart : other.addr ≠ owner.addr :=
    fun same => different (models.inv.inv.eq_of_addr otherMem member same)
  simp [apart]

theorem SystemModels.of_holder (models : SystemModels system model)
    (held : model.holder ptr = some owner) :
    ∃ block ∈ system.live, block.ptr = ptr ∧ owner ∈ model.segments ∧ owner.free = false ∧
      owner.addr + 29 = ptr := by
  have member := List.mem_of_find?_eq_some held
  have found := List.find?_some held
  simp only [Bool.and_eq_true, Bool.not_eq_true', beq_iff_eq] at found
  obtain ⟨block, live, same⟩ := models.inv.covered owner member found.1
  exact ⟨block, live, same.symm.trans found.2, member, found.1, found.2⟩

theorem SystemModels.free (models : SystemModels system model) (live : block ∈ system.live)
    (member : owner ∈ model.segments) (ownerPtr : owner.addr + 29 = block.ptr) :
    SystemModels { heap := free system.heap block.ptr, live := system.live.erase block }
      (model.releaseAt owner) := by
  obtain ⟨inv', bounds, _⟩ := models.inv.inv.free member
  rw [ownerPtr] at inv' bounds
  exact ⟨models.inv.erase live ownerPtr inv', bounds.heapEnd.trans models.heapEnd,
    bounds.pages.trans models.pages⟩

theorem SystemModels.sfree {size : Nat} (models : SystemModels system model)
    (live : block ∈ system.live) (member : owner ∈ model.segments)
    (ownerPtr : owner.addr + 29 = block.ptr) (bound : size ≤ owner.length) :
    SystemModels { heap := sfree system.heap block.ptr size, live := system.live.erase block }
      (model.releaseAt owner) := by
  have inv' := models.inv.inv.sfree member bound
  have bounds := sfree_bounds system.heap block.ptr size
  rw [ownerPtr] at inv'
  exact ⟨models.inv.erase live ownerPtr inv', bounds.heapEnd.trans models.heapEnd,
    bounds.pages.trans models.pages⟩

/-! One request. -/

theorem HeapServes.forth (models : SystemModels system model)
    (served : HeapServes mapPage system request reply next) :
    ∃ model', model.serve mapPage request = some (reply, model') ∧ SystemModels next model' := by
  induction served generalizing model with
  | write byte live inside _ ih => exact ih (models.write byte live inside)
  | malloc bound below run =>
      obtain ⟨model', run', models'⟩ := (models.models.agrees bound).forth run below
      refine ⟨model', ?_, models.call (.malloc bound run) below models'⟩
      rw [SegmentHeap.serve, if_pos bound, SegmentHeap.inWord_ok]
      exact ⟨run', models'.heapEnd ▸ below⟩
  | @free system block live =>
      obtain ⟨owner, member, allocated, ownerPtr, _⟩ := models.inv.owners block live
      refine ⟨_, ?_, models.free live member ownerPtr⟩
      rw [SegmentHeap.serve, ← ownerPtr, models.holder member allocated, Option.map_some]
  | @sfree system block size live bound =>
      obtain ⟨owner, member, allocated, ownerPtr, _⟩ := models.inv.owners block live
      rw [models.inv.length_eq member ownerPtr] at bound
      refine ⟨_, ?_, models.sfree live member ownerPtr bound⟩
      rw [SegmentHeap.serve, ← ownerPtr, models.holder member allocated]
      exact if_pos bound
  | expandHeap positive bound below run =>
      obtain ⟨model', run', models'⟩ := models.models.grown positive bound run below
      refine ⟨model', ?_, models.call (.expandHeap positive bound run) below models'⟩
      rw [SegmentHeap.serve, if_pos ⟨positive, bound⟩, SegmentHeap.inWord_ok, run']
      exact ⟨rfl, models'.heapEnd ▸ below⟩
  | getUsedMem counted =>
      refine ⟨model, ?_, models⟩
      rw [SegmentHeap.serve, counted.unique models.inv.inv.usedMem]

theorem HeapServes.back (models : SystemModels system model)
    (served : model.serve mapPage request = some (reply, model')) :
    ∃ next, HeapServes mapPage system request reply next ∧ SystemModels next model' := by
  cases request with
  | malloc size =>
      rw [SegmentHeap.serve] at served
      split at served
      · rename_i bound
        obtain ⟨run, below⟩ := SegmentHeap.inWord_ok.mp served
        obtain ⟨fuel, heap', run', models'⟩ := (models.models.agrees bound).back run below
        have below' := models'.heapEnd ▸ below
        exact ⟨_, .malloc bound below' run', models.call (.malloc bound run') below' models'⟩
      · cases served
  | free ptr =>
      obtain ⟨owner, held, result⟩ := Option.map_eq_some_iff.mp served
      cases result
      obtain ⟨block, live, rfl, member, allocated, ownerPtr⟩ := models.of_holder held
      exact ⟨_, .free live, models.free live member ownerPtr⟩
  | sfree ptr size =>
      rw [SegmentHeap.serve] at served
      split at served
      · rename_i owner held
        split at served
        · rename_i bound
          cases served
          obtain ⟨block, live, rfl, member, allocated, ownerPtr⟩ := models.of_holder held
          rw [← models.inv.length_eq member ownerPtr] at bound
          exact ⟨_, .sfree live bound,
            models.sfree live member ownerPtr (models.inv.length_eq member ownerPtr ▸ bound)⟩
        · cases served
      · cases served
  | expandHeap length =>
      rw [SegmentHeap.serve] at served
      split at served
      · rename_i legal
        obtain ⟨positive, bound⟩ := legal
        obtain ⟨run, below⟩ := SegmentHeap.inWord_ok.mp served
        cases growth : model.grow mapPage length with
        | error fault => simp [growth, Except.map] at run
        | ok grown =>
            rw [growth] at run
            cases run
            obtain ⟨heap', run', models'⟩ := models.models.grow_back positive bound growth below
            have below' := models'.heapEnd ▸ below
            exact ⟨_, .expandHeap positive bound below' run',
              models.call (.expandHeap positive bound run') below' models'⟩
      · cases served
  | getUsedMem =>
      cases served
      exact ⟨system, .getUsedMem models.inv.inv.usedMem, models⟩

theorem heapServes_refines (mapPage : σ → Nat → Except Fault σ) :
    Session.Refines (HeapServes mapPage) (SegmentHeap.serve mapPage) SystemModels :=
  ⟨HeapServes.forth, HeapServes.back⟩

/-! Sessions. -/

/-- The model of the heap that `initHeap` leaves. -/
def SegmentHeap.fresh (heapAddress pageCount : Nat) (pages : σ) : SegmentHeap σ where
  segments := [{ addr := heapAddress, length := pageCount * 0x1000 - 29, free := true }]
  heapEnd := heapAddress + pageCount * 0x1000
  pages := pages

theorem systemModels_fresh {heap heap' : Heap σ} {heapAddress pageCount : Nat}
    (nonzero : 0 < heapAddress) (aligned : heapAddress % 0x1000 = 0) (onePage : 1 ≤ pageCount)
    (noWrap : heapAddress + pageCount * 0x1000 < 2 ^ 64)
    (run : initHeap mapPage heap heapAddress pageCount = .ok heap') :
    SystemModels { heap := heap', live := [] }
      (SegmentHeap.fresh heapAddress pageCount heap'.pages) := by
  refine ⟨.init nonzero aligned onePage noWrap run, ?_, rfl⟩
  obtain ⟨pages, _, result⟩ := Fault.peel run
  rw [← Except.ok.inj result]
  simp only [SegmentHeap.fresh]
  rw [Nat.mod_eq_of_lt (by omega)]

/-- From `initHeap` on the heap serves the sessions that the list of segments serves, with the
same replies. -/
theorem heap_session {heap heap' : Heap σ} {heapAddress pageCount : Nat} (nonzero : 0 < heapAddress)
    (aligned : heapAddress % 0x1000 = 0) (onePage : 1 ≤ pageCount)
    (noWrap : heapAddress + pageCount * 0x1000 < 2 ^ 64)
    (booted : initHeap mapPage heap heapAddress pageCount = .ok heap')
    (requests : List HeapRequest) (replies : List Nat) :
    (∀ last, Session.Run (HeapServes mapPage) { heap := heap', live := [] } requests replies last →
      ∃ model, Session.replay (SegmentHeap.serve mapPage)
          (SegmentHeap.fresh heapAddress pageCount heap'.pages) requests = some (replies, model) ∧
        SystemModels last model) ∧
      ∀ model, Session.replay (SegmentHeap.serve mapPage)
          (SegmentHeap.fresh heapAddress pageCount heap'.pages) requests = some (replies, model) →
        ∃ last, Session.Run (HeapServes mapPage) { heap := heap', live := [] } requests replies
          last ∧ SystemModels last model := by
  have models := systemModels_fresh nonzero aligned onePage noWrap booted
  constructor
  · intro last run
    exact (heapServes_refines mapPage).run_forth models run
  · intro model replayed
    exact (heapServes_refines mapPage).run_back models replayed

theorem heap_session_onePage : ∃ heap, initHeap mapAny emptyHeap 0x800000 1 = .ok heap ∧
    ∃ last, Session.Run (HeapServes mapAny) { heap := heap, live := [] }
      [.malloc 40, .malloc 24, .free 0x80001d, .malloc 40, .getUsedMem]
      [0x80001d, 0x80006a, 0, 0x80001d, 138] last := by
  cases booted : initHeap mapAny emptyHeap 0x800000 1 with
  | error fault => cases booted
  | ok heap =>
      refine ⟨heap, rfl, ?_⟩
      obtain ⟨_, back⟩ := heap_session (by decide) (by decide) (by decide) (by decide) booted
        [.malloc 40, .malloc 24, .free 0x80001d, .malloc 40, .getUsedMem]
        [0x80001d, 0x80006a, 0, 0x80001d, 138]
      obtain ⟨last, run, _⟩ := back _ rfl
      exact ⟨last, run⟩

/-- The pointer is handed out, and this is the length in its header. -/
def Handed (system : HeapSystem σ) (ptr handed : Nat) : Prop :=
  ∃ block ∈ system.live, block.ptr = ptr ∧ length system.heap.mem (headerOf ptr) = handed

theorem SystemInv.handed {segments : List Segment} (inv : SystemInv system segments)
    {ptr handed : Nat} : Handed system ptr handed ↔
      ∃ owner ∈ segments, owner.free = false ∧ owner.addr + 29 = ptr ∧ owner.length = handed := by
  constructor
  · rintro ⟨block, live, rfl, lengthEq⟩
    obtain ⟨owner, member, allocated, ownerPtr, _⟩ := inv.owners block live
    exact ⟨owner, member, allocated, ownerPtr, (inv.length_eq member ownerPtr).symm.trans lengthEq⟩
  · rintro ⟨owner, member, allocated, rfl, rfl⟩
    obtain ⟨block, live, ownerPtr⟩ := inv.covered owner member allocated
    exact ⟨block, live, ownerPtr.symm, ownerPtr ▸ inv.length_eq member ownerPtr⟩

theorem SystemInv.segments_eq {first second : HeapSystem σ} {segments segments' : List Segment}
    (left : SystemInv first segments) (right : SystemInv second segments')
    (heapStart : first.heap.heapStart = second.heap.heapStart)
    (heapEnd : first.heap.heapEnd = second.heap.heapEnd)
    (same : ∀ ptr handed, Handed first ptr handed ↔ Handed second ptr handed) :
    segments = segments' := by
  have tiles := right.inv.tiles
  rw [← heapStart, ← heapEnd] at tiles
  refine tiles_unique (by decide) left.inv.tiles tiles left.inv.noFreePair right.inv.noFreePair ?_
  intro segment notFree
  have equal (other : Segment) (allocated : other.free = false)
      (sameAddr : other.addr + 29 = segment.addr + 29) (sameLength : other.length = segment.length) :
      other = segment := by
    cases other
    cases segment
    simp_all
  have alike := same (segment.addr + 29) segment.length
  rw [left.handed, right.handed] at alike
  constructor
  · intro member
    obtain ⟨other, otherMem, allocated, sameAddr, sameLength⟩ :=
      alike.mp ⟨segment, member, notFree, rfl, rfl⟩
    exact equal other allocated sameAddr sameLength ▸ otherMem
  · intro member
    obtain ⟨other, otherMem, allocated, sameAddr, sameLength⟩ :=
      alike.mpr ⟨segment, member, notFree, rfl, rfl⟩
    exact equal other allocated sameAddr sameLength ▸ otherMem

/-- The history of a heap, and all bytes outside the lengths of its blocks, are invisible: two
heaps with the same bounds and blocks serve the same sessions, with the same replies. -/
theorem heap_historyFree {first second : HeapSystem σ} (left : HeapRun mapPage first)
    (right : HeapRun mapPage second) (noWrap : first.heap.heapEnd < 2 ^ 64)
    (heapStart : first.heap.heapStart = second.heap.heapStart)
    (heapEnd : first.heap.heapEnd = second.heap.heapEnd)
    (pages : first.heap.pages = second.heap.pages)
    (same : ∀ ptr handed, Handed first ptr handed ↔ Handed second ptr handed)
    {requests : List HeapRequest} {replies : List Nat} {last : HeapSystem σ}
    (run : Session.Run (HeapServes mapPage) first requests replies last) :
    (∃ last', Session.Run (HeapServes mapPage) second requests replies last') ∧
      ∀ replies' last', Session.Run (HeapServes mapPage) second requests replies' last' →
        replies' = replies ∧ last'.heap.heapEnd = last.heap.heapEnd ∧
          last'.heap.pages = last.heap.pages ∧
          ∀ ptr handed, Handed last' ptr handed ↔ Handed last ptr handed := by
  obtain ⟨segments, inv⟩ := left.inv noWrap
  obtain ⟨segments', inv'⟩ := right.inv (heapEnd ▸ noWrap)
  have equal := inv.segments_eq inv' heapStart heapEnd same
  subst equal
  have modelsFirst : SystemModels first
      { segments := segments, heapEnd := first.heap.heapEnd, pages := first.heap.pages } :=
    ⟨inv, rfl, rfl⟩
  have modelsSecond : SystemModels second
      { segments := segments, heapEnd := first.heap.heapEnd, pages := first.heap.pages } :=
    ⟨inv', heapEnd.symm, pages.symm⟩
  obtain ⟨served, alike⟩ := (heapServes_refines mapPage).alike modelsFirst modelsSecond run
  refine ⟨served, fun replies' last' run' => ?_⟩
  obtain ⟨sameReplies, model, models, models'⟩ := alike replies' last' run'
  refine ⟨sameReplies, models'.heapEnd.trans models.heapEnd.symm,
    models'.pages.trans models.pages.symm, fun ptr handed => ?_⟩
  rw [models.inv.handed, models'.inv.handed]

/-- Two blocks freed in either order. -/
theorem heap_historyFree_twoBlocks : ∃ (first second : HeapSystem Unit) (used : Nat),
    HeapRun mapAny first ∧ HeapRun mapAny second ∧ first.live = [] ∧ second.live = [] ∧
      ∃ last, Session.Run (HeapServes mapAny) second [.getUsedMem] [used] last := by
  obtain ⟨system, run, noWrap, live⟩ := twoBlocks_run
  have freed (one other : Block) (oneLive : one ∈ system.live)
      (otherLive : other ∈ system.live.erase one) (none : (system.live.erase one).erase other = []) :
      ∃ last, HeapRun mapAny last ∧ last.live = [] ∧ SameBounds last.heap system.heap := by
    have first := run.step (.call (.free oneLive))
    have second := first.step (.call (.free otherLive))
    simp only at second
    have bounds := (free_bounds (free system.heap one.ptr) other.ptr).trans
      (free_bounds system.heap one.ptr)
    refine ⟨_, second, none, ?_⟩
    simp only
    exact bounds
  obtain ⟨first, left, noneLeft, boundsLeft⟩ :=
    freed { ptr := 0x80006a, size := 24 } { ptr := 0x80001d, size := 40 } (by rw [live]; decide)
      (by rw [live]; decide) (by rw [live]; decide)
  obtain ⟨second, right, noneRight, boundsRight⟩ :=
    freed { ptr := 0x80001d, size := 40 } { ptr := 0x80006a, size := 24 } (by rw [live]; decide)
      (by rw [live]; decide) (by rw [live]; decide)
  have below : first.heap.heapEnd < 2 ^ 64 := by rwa [boundsLeft.heapEnd]
  obtain ⟨segments, inv⟩ := left.inv below
  obtain ⟨served, _⟩ := heap_historyFree left right below
    (boundsLeft.heapStart.trans boundsRight.heapStart.symm)
    (boundsLeft.heapEnd.trans boundsRight.heapEnd.symm) rfl
    (by simp [Handed, noneLeft, noneRight])
    (.cons (.getUsedMem inv.inv.usedMem) (.nil _))
  exact ⟨first, second, _, left, right, noneLeft, noneRight, served⟩

end

end OkeOS
