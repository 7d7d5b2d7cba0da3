import OkeOS.HeapFirstFit
import OkeOS.HeapRun
import OkeOS.Session

/-!
The heap without its memory: the segments in order, the end and the source of pages.  The headers
in memory are one way to keep them, and every run of the heap replies as this model does.
-/

namespace OkeOS

open Tiling

structure SegmentHeap (σ : Type) where
  segments : List Segment
  heapEnd : Nat
  pages : σ

/-- Cut the first segment that fits: the pointer behind its header, and the segments. -/
def takeFirst (need : Nat) : List Segment → Option (Nat × List Segment)
  | [] => none
  | segment :: rest =>
      if Fits need segment then some (segment.addr + 29, carve need segment ++ rest)
      else (takeFirst need rest).map fun (pointer, rest) => (pointer, segment :: rest)

namespace SegmentHeap

variable {σ : Type} (mapPage : σ → Nat → Except Fault σ)

/-- Whole pages behind the end, merged with a free segment in front of them. -/
def grow (model : SegmentHeap σ) (need : Nat) : Except Fault (SegmentHeap σ) := do
  let pages ← mapPages mapPage (roundUp need 0x1000 / 0x1000) model.heapEnd model.pages
  .ok
    { segments := coalesce 29 (model.segments ++
        [{ addr := model.heapEnd, length := roundUp need 0x1000 - 29, free := true }])
      heapEnd := model.heapEnd + roundUp need 0x1000
      pages := pages }

def malloc : Nat → SegmentHeap σ → Nat → Except Fault (Nat × SegmentHeap σ)
  | 0, _, _ => .error .outOfFuel
  | tries + 1, model, size =>
      if roundUp size 0x10 = 0 then .ok (0, model)
      else
        match takeFirst (roundUp size 0x10) model.segments with
        | some (pointer, segments) => .ok (pointer, { model with segments := segments })
        | none => do
            let grown ← grow mapPage model (roundUp size 0x10)
            malloc tries grown (roundUp size 0x10)

end SegmentHeap

/-- The headers in memory are those of the model's segments. -/
structure Models {σ : Type} (heap : Heap σ) (model : SegmentHeap σ) : Prop where
  inv : HeapInv heap model.segments
  heapEnd : heap.heapEnd = model.heapEnd
  pages : heap.pages = model.pages

section

variable {σ : Type} {mapPage : σ → Nat → Except Fault σ} {heap heap' : Heap σ}
  {model model' : SegmentHeap σ} {segments skipped rest : List Segment} {found : Segment}
  {size need : Nat}

theorem takeFirst_fit (fit : FirstFit need segments skipped found rest) :
    takeFirst need segments = some (found.addr + 29, skipped ++ carve need found ++ rest) := by
  obtain ⟨rfl, unfit, fits⟩ := fit
  induction skipped with
  | nil => rw [List.nil_append, takeFirst, if_pos fits, List.nil_append]
  | cons first others ih =>
      rw [List.forall_mem_cons] at unfit
      rw [List.cons_append, takeFirst, if_neg unfit.1, ih unfit.2, Option.map_some]
      rfl

theorem takeFirst_unfit (unfit : ∀ other ∈ segments, ¬Fits need other) :
    takeFirst need segments = none := by
  induction segments with
  | nil => rfl
  | cons first others ih =>
      rw [List.forall_mem_cons] at unfit
      rw [takeFirst, if_neg unfit.1, ih unfit.2, Option.map_none]

theorem coalesce_grown {front : List Segment} {previous : Segment} {heapEnd : Nat}
    (noPair : NoFreePair (front ++ [previous])) (enough : 29 ≤ roundUp need 0x1000) :
    coalesce 29 (front ++ [previous] ++
      [{ addr := heapEnd, length := roundUp need 0x1000 - 29, free := true }]) =
      grownFront front previous ++ [grownLast heapEnd need previous] := by
  rw [List.append_assoc, List.singleton_append, coalesce_append_cons noPair, coalesce, coalesce,
    coalesce, push, push_grown enough]

/-! Growth. -/

section

variable (positive : 0 < need) (bound : need ≤ 2 ^ 64 - 0x1000)

include positive bound

theorem Models.grown (models : Models heap model) (run : expandHeap mapPage heap need = .ok heap')
    (below : heap'.heapEnd < 2 ^ 64) :
    ∃ grown, model.grow mapPage need = .ok grown ∧ Models heap' grown := by
  obtain ⟨inv, heapEnd, pages⟩ := models
  obtain ⟨front, previous, segmentsEq⟩ := inv.eq_concat
  have larger := roundUp4096 positive bound
  obtain ⟨mapped, _, _⟩ := expandHeap_bounds inv.endAligned run
  rw [heapEnd, pages] at mapped
  have grown : model.grow mapPage need = .ok
      { segments := grownFront front previous ++ [grownLast model.heapEnd need previous]
        heapEnd := model.heapEnd + roundUp need 0x1000
        pages := heap'.pages } := by
    rw [SegmentHeap.grow, mapped, segmentsEq,
      coalesce_grown (segmentsEq ▸ inv.noFreePair) (by omega)]
    rfl
  rw [segmentsEq] at inv
  obtain ⟨expansion, endEq⟩ := inv.grown positive bound run below
  rw [heapEnd] at expansion endEq
  exact ⟨_, grown, expansion.inv, endEq, rfl⟩

theorem SegmentHeap.grow_segments {front : List Segment} {previous : Segment}
    (grown : model.grow mapPage need = .ok model') (segmentsEq : model.segments = front ++ [previous])
    (noPair : NoFreePair model.segments) :
    model'.segments = grownFront front previous ++ [grownLast model.heapEnd need previous] := by
  have larger := roundUp4096 positive bound
  obtain ⟨pages, _, result⟩ := Fault.peel grown
  rw [segmentsEq] at noPair
  rw [← Except.ok.inj result]
  simp only [segmentsEq]
  exact coalesce_grown noPair (by omega)

theorem Models.grow_back (models : Models heap model)
    (grown : model.grow mapPage need = .ok model') (below : model'.heapEnd < 2 ^ 64) :
    ∃ heap', expandHeap mapPage heap need = .ok heap' ∧ Models heap' model' := by
  obtain ⟨pages, mapped, result⟩ := Fault.peel grown
  have ends := congrArg SegmentHeap.heapEnd (Except.ok.inj result)
  rw [← models.heapEnd, ← models.pages] at mapped
  have larger := roundUp4096 positive bound
  obtain ⟨heap', run⟩ := expandHeap_returns models.inv.endAligned mapped
  obtain ⟨_, _, endEq⟩ := expandHeap_bounds models.inv.endAligned run
  simp only [← models.heapEnd] at ends
  obtain ⟨grown', same, models'⟩ := models.grown positive bound run (by omega)
  rw [grown, Except.ok.injEq] at same
  exact ⟨heap', run, same ▸ models'⟩

end

/-! `malloc`. -/

theorem SegmentHeap.grow_end_le (grown : model.grow mapPage need = .ok model') :
    model.heapEnd ≤ model'.heapEnd := by
  obtain ⟨pages, _, result⟩ := Fault.peel grown
  rw [← Except.ok.inj result]
  exact Nat.le_add_right _ _

theorem SegmentHeap.malloc_end_le {tries pointer : Nat}
    (run : model.malloc mapPage tries size = .ok (pointer, model')) :
    model.heapEnd ≤ model'.heapEnd := by
  induction tries generalizing model size with
  | zero => simp [malloc] at run
  | succ tries ih =>
      rw [malloc] at run
      split at run
      · cases run
        exact Nat.le_refl _
      · split at run
        · cases run
          exact Nat.le_refl _
        · obtain ⟨grown, expanded, again⟩ := Fault.peel run
          exact Nat.le_trans (grow_end_le expanded) (ih again)

/-- The heap and the model allocate alike. -/
structure Agrees (mapPage : σ → Nat → Except Fault σ) (heap : Heap σ) (model : SegmentHeap σ)
    (tries size : Nat) : Prop where
  forth : ∀ {fuel pointer : Nat} {heap' : Heap σ},
    malloc mapPage fuel heap size = .ok (pointer, heap') → heap'.heapEnd < 2 ^ 64 →
      ∃ model', model.malloc mapPage tries size = .ok (pointer, model') ∧ Models heap' model'
  back : ∀ {pointer : Nat} {model' : SegmentHeap σ},
    model.malloc mapPage tries size = .ok (pointer, model') → model'.heapEnd < 2 ^ 64 →
      ∃ fuel heap', malloc mapPage fuel heap size = .ok (pointer, heap') ∧ Models heap' model'

section

variable {tries : Nat} (models : Models heap model)

include models

theorem Agrees.null (zero : roundUp size 0x10 = 0) :
    Agrees mapPage heap model (tries + 1) size := by
  have returned : model.malloc mapPage (tries + 1) size = .ok (0, model) := by
    rw [SegmentHeap.malloc, if_pos zero]
  constructor
  · intro fuel pointer heap' run below
    have same := (settles_null mapPage heap zero).eq_ok run
    cases same
    exact ⟨model, returned, models⟩
  · intro pointer model' run below
    rw [returned] at run
    cases run
    obtain ⟨least, later⟩ := settles_null mapPage heap zero
    exact ⟨least, heap, later least (Nat.le_refl _), models⟩

theorem Agrees.fit (rounded : roundUp size 0x10 = need) (low : 0x10 ≤ need)
    (fit : FirstFit need model.segments skipped found rest) :
    Agrees mapPage heap model (tries + 1) size := by
  have returned : model.malloc mapPage (tries + 1) size =
      .ok (found.addr + 29, { model with segments := skipped ++ carve need found ++ rest }) := by
    rw [SegmentHeap.malloc, rounded, if_neg (by omega), takeFirst_fit fit]
  have settles : Settles mapPage heap size (.ok (takeFit heap found.addr need)) :=
    settles_firstFit rounded (by omega) models.inv.toHeapChain fit
  have inv := models.inv
  rw [fit.split] at inv
  obtain ⟨place, taken⟩ := takeFit_taken inv.toHeapChain low fit.fits
  have models' : Models (takeFit heap found.addr need).2
      { model with segments := skipped ++ carve need found ++ rest } :=
    ⟨(inv.taken low fit.fits taken).inv, taken.bounds.heapEnd.trans models.heapEnd,
      taken.bounds.pages.trans models.pages⟩
  generalize takeFit heap found.addr need = result at settles place models'
  obtain ⟨pointer, heap'⟩ := result
  cases place
  constructor
  · intro fuel pointer heap'' run below
    have same := settles.eq_ok run
    cases same
    exact ⟨_, returned, models'⟩
  · intro pointer model' run below
    rw [returned] at run
    cases run
    obtain ⟨least, later⟩ := settles
    exact ⟨least, heap', later least (Nat.le_refl _), models'⟩

section

variable (rounded : roundUp size 0x10 = need) (again : roundUp need 0x10 = need)
  (low : 0x10 ≤ need) (bound : need ≤ 2 ^ 64 - 0x1000)

include rounded low bound

theorem Agrees.grow (unfit : ∀ other ∈ model.segments, ¬Fits need other)
    (later : ∀ {expanded : Heap σ} {grown : SegmentHeap σ}, model.grow mapPage need = .ok grown →
      Models expanded grown → Agrees mapPage expanded grown tries need) :
    Agrees mapPage heap model (tries + 1) size := by
  have unfolded : model.malloc mapPage (tries + 1) size = (do
      let grown ← model.grow mapPage need
      grown.malloc mapPage tries need) := by
    rw [SegmentHeap.malloc, rounded, if_neg (by omega), takeFirst_unfit unfit]
  constructor
  · intro fuel pointer heap' run below
    obtain ⟨more, expanded, expansion, run⟩ :=
      malloc_grown models.inv rounded (by omega) unfit run
    have ends := OkeOS.malloc_end_le run
    obtain ⟨grown, growth, models⟩ := models.grown (by omega) bound expansion (by omega)
    obtain ⟨model', run', models'⟩ := (later growth models).forth run below
    refine ⟨model', ?_, models'⟩
    rw [unfolded, growth]
    exact run'
  · intro pointer model' run below
    rw [unfolded] at run
    obtain ⟨grown, growth, run⟩ := Fault.peel run
    have ends := SegmentHeap.malloc_end_le run
    obtain ⟨expanded, expansion, models'⟩ := models.grow_back (by omega) bound growth (by omega)
    obtain ⟨fuel, heap', run', models'⟩ := (later growth models').back run below
    refine ⟨fuel + model.segments.length + 1, heap', ?_, models'⟩
    rw [malloc_grow models.inv rounded (by omega) unfit (by omega), expansion]
    exact malloc_extra run' _

include again

theorem Agrees.of_lastFree {front : List Segment} {previous : Segment}
    (segmentsEq : model.segments = front ++ [previous]) (isFree : previous.free = true)
    (unfit : ∀ other ∈ model.segments, ¬Fits need other) :
    Agrees mapPage heap model (tries + 2) size := by
  refine Agrees.grow models rounded low bound unfit fun growth models' => ?_
  rw [segmentsEq] at unfit
  have fit := firstFit_behindFree model.heapEnd unfit isFree (roundUp4096 (by omega) bound).1
  rw [← SegmentHeap.grow_segments (by omega) bound growth segmentsEq models.inv.noFreePair] at fit
  exact Agrees.fit models' again low fit

/-- Two expansions are enough, so three tries are. -/
theorem Agrees.of_models : Agrees mapPage heap model 3 size := by
  rcases firstFit_or_none need model.segments with ⟨skipped, found, rest, fit⟩ | unfit
  · exact Agrees.fit models rounded low fit
  refine Agrees.grow models rounded low bound unfit fun {expanded grown} growth models' => ?_
  obtain ⟨front, previous, segmentsEq⟩ := models.inv.eq_concat
  have segmentsEq' :=
    SegmentHeap.grow_segments (by omega) bound growth segmentsEq models.inv.noFreePair
  rcases firstFit_or_none need grown.segments with ⟨skipped, found, rest, fit⟩ | stillUnfit
  · exact Agrees.fit models' again low fit
  · exact Agrees.of_lastFree models' again again low bound segmentsEq' (grownLast_free _ _ _)
      stillUnfit

end

end

/-- For every size up to the last page of the address space. -/
theorem Models.agrees (models : Models heap model) (bound : size ≤ 2 ^ 64 - 0x1000) :
    Agrees mapPage heap model 3 size := by
  obtain ⟨larger, _, multiple, needBound⟩ := roundUp16 bound
  by_cases zero : roundUp size 0x10 = 0
  · exact Agrees.null models zero
  · exact Agrees.of_models models rfl (roundUp_rounded multiple) (by omega) needBound

end

end OkeOS
