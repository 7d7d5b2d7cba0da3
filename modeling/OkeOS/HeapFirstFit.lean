import OkeOS.HeapInvariant

/-!
`malloc` returns: with enough rounds the scan comes to the first free segment that is long
enough, or to the end of the chain, and after at most two expansions the last segment fits.
-/

namespace OkeOS

open ByteMemory Tiling
open HeapSegHdr hiding free

structure FirstFit (size : Nat) (segments skipped : List Segment) (found : Segment)
    (rest : List Segment) : Prop where
  split : segments = skipped ++ found :: rest
  unfit : ∀ other ∈ skipped, ¬Fits size other
  fits : Fits size found

instance (size : Nat) (segment : Segment) : Decidable (Fits size segment) :=
  inferInstanceAs (Decidable (_ ∧ _))

theorem firstFit_or_none (size : Nat) (segments : List Segment) :
    (∃ skipped found rest, FirstFit size segments skipped found rest) ∨
      ∀ other ∈ segments, ¬Fits size other := by
  induction segments with
  | nil => exact Or.inr (by simp)
  | cons first others ih =>
      by_cases fits : Fits size first
      · exact Or.inl ⟨[], first, others, rfl, by simp, fits⟩
      · rcases ih with ⟨skipped, found, rest, split, unfit, fitting⟩ | none
        · exact Or.inl ⟨first :: skipped, found, rest, by rw [split, List.cons_append],
            List.forall_mem_cons.mpr ⟨fits, unfit⟩, fitting⟩
        · exact Or.inr (List.forall_mem_cons.mpr ⟨fits, none⟩)

theorem FirstFit.find {size : Nat} {segments skipped rest : List Segment} {found : Segment}
    (fit : FirstFit size segments skipped found rest) :
    segments.find? (fun other => decide (Fits size other)) = some found := by
  obtain ⟨split, unfit, fits⟩ := fit
  exact List.find?_eq_some_iff_append.mpr ⟨by simpa using fits, skipped, rest, split, by
    simpa using unfit⟩

theorem FirstFit.unique {size : Nat} {segments skipped skipped' rest rest' : List Segment}
    {found found' : Segment} (fit : FirstFit size segments skipped found rest)
    (fit' : FirstFit size segments skipped' found' rest') : found = found' :=
  Option.some.inj (fit.find.symm.trans fit'.find)

section

variable {σ : Type} {heap heap' : Heap σ} {segments : List Segment} {size : Nat}

/-- What the scan returns once it has come to a segment that fits. -/
def takeFit (heap : Heap σ) (this size : Nat) : Nat × Heap σ :=
  if length heap.mem this > size then takeSegment (split heap this size).2 this size
  else takeSegment heap this size

theorem takeFit_bounds (heap : Heap σ) (this size : Nat) :
    SameBounds (takeFit heap this size).2 heap := by
  rw [takeFit]
  split
  · have bounds := split_bounds heap this size
    exact ⟨bounds.heapStart, bounds.heapEnd, bounds.pages⟩
  · exact ⟨rfl, rfl, rfl⟩

theorem mallocScan_takeFit {before after : List Segment} {segment : Segment}
    (chain : HeapChain heap (before ++ segment :: after)) (fits : Fits size segment)
    (fuel : Nat) :
    mallocScan (fuel + 1) heap size segment.addr = .ok (some (takeFit heap segment.addr size)) := by
  have freeEq : HeapSegHdr.free heap.mem segment.addr = true :=
    (header_free chain.header_eq).trans fits.1
  have lengthEq : length heap.mem segment.addr = segment.length :=
    header_length chain.header_eq
  have enough := fits.2
  simp only [mallocScan, takeFit, freeEq, lengthEq, true_and]
  by_cases less : segment.length > size
  · rw [if_pos less, if_pos less]
  · rw [if_neg less, if_neg less, if_pos (by omega)]

theorem takeFit_taken {before after : List Segment} {segment : Segment}
    (chain : HeapChain heap (before ++ segment :: after)) (sizeLow : 0x10 ≤ size)
    (fits : Fits size segment) :
    (takeFit heap segment.addr size).1 = segment.addr + 29 ∧
      Taken heap before segment after size (takeFit heap segment.addr size).2 := by
  obtain ⟨heap', scanned, taken⟩ := mallocScan_fits chain sizeLow fits 0
  rw [mallocScan_takeFit chain fits, Except.ok.injEq, Option.some.injEq] at scanned
  rw [scanned]
  exact ⟨rfl, taken⟩

/-- The rounds of the scan over linked segments that do not fit. -/
theorem mallocScan_linked {skipped : List Segment} {prev stop fuel : Nat}
    (linked : Linked heap.mem prev skipped stop) (nonzero : ∀ other ∈ skipped, other.addr ≠ 0)
    (stopNonzero : stop ≠ 0) (unfit : ∀ other ∈ skipped, ¬Fits size other)
    (enough : skipped.length < fuel) :
    mallocScan fuel heap size (headAddr stop skipped) =
      mallocScan (fuel - skipped.length) heap size stop := by
  induction skipped generalizing prev fuel with
  | nil => rfl
  | cons first others ih =>
      obtain ⟨fuel, rfl⟩ : ∃ less, fuel = less + 1 := ⟨fuel - 1, by omega⟩
      rw [List.length_cons] at enough
      have nextNonzero : headAddr stop others ≠ 0 := by
        cases others with
        | nil => exact stopNonzero
        | cons second more => exact nonzero second (by simp)
      rw [headAddr, mallocScan_step linked.1 (unfit first List.mem_cons_self),
        if_neg nextNonzero, ih linked.2 (fun other member => nonzero other (by simp [member]))
          (fun other member => unfit other (by simp [member])) (by omega),
        List.length_cons, Nat.add_sub_add_right]

theorem HeapChain.addr_ne_zero (chain : HeapChain heap segments) {segment : Segment}
    (member : segment ∈ segments) : segment.addr ≠ 0 := by
  have startLow := chain.startLow
  have lower := (tiles_mem chain.tiles member).1
  omega

theorem mallocScan_rounds {skipped rest : List Segment} {found : Segment} {fuel : Nat}
    (chain : HeapChain heap (skipped ++ found :: rest))
    (unfit : ∀ other ∈ skipped, ¬Fits size other) (enough : skipped.length < fuel) :
    mallocScan fuel heap size (headAddr 0 (skipped ++ found :: rest)) =
      mallocScan (fuel - skipped.length) heap size found.addr := by
  rw [headAddr_append]
  exact mallocScan_linked chain.linked_before
    (fun other member => chain.addr_ne_zero (List.mem_append_left _ member))
    (chain.addr_ne_zero (by simp)) unfit enough

theorem HeapChain.headAddr_start (chain : HeapChain heap segments) (nonempty : segments ≠ []) :
    headAddr 0 segments = heap.heapStart := by
  obtain ⟨first, rest, rfl⟩ := List.exists_cons_of_ne_nil nonempty
  exact chain.tiles.1

theorem mallocScan_firstFit {skipped rest : List Segment} {found : Segment} {fuel : Nat}
    (chain : HeapChain heap segments) (fit : FirstFit size segments skipped found rest)
    (enough : skipped.length < fuel) :
    mallocScan fuel heap size heap.heapStart = .ok (some (takeFit heap found.addr size)) := by
  obtain ⟨rfl, unfit, fits⟩ := fit
  obtain ⟨less, lessEq⟩ : ∃ less, fuel - skipped.length = less + 1 :=
    ⟨fuel - skipped.length - 1, by omega⟩
  rw [← chain.headAddr_start (by simp), mallocScan_rounds chain unfit enough, lessEq]
  exact mallocScan_takeFit chain fits less

theorem mallocScan_none {fuel : Nat} (inv : HeapInv heap segments)
    (unfit : ∀ other ∈ segments, ¬Fits size other) (enough : segments.length ≤ fuel) :
    mallocScan fuel heap size heap.heapStart = .ok none := by
  obtain ⟨front, last, rfl⟩ := inv.eq_concat
  rw [List.length_append, List.length_singleton] at enough
  obtain ⟨less, lessEq⟩ : ∃ less, fuel - front.length = less + 1 :=
    ⟨fuel - front.length - 1, by omega⟩
  rw [← inv.headAddr_start inv.nonempty, mallocScan_rounds inv.toHeapChain
    (fun other member => unfit other (by simp [member])) (by omega), lessEq,
    mallocScan_skip inv.toHeapChain (unfit last (by simp)), headAddr, if_pos rfl]

/-! `malloc`. -/

variable {mapPage : σ → Nat → Except Fault σ}

theorem malloc_firstFit {skipped rest : List Segment} {found : Segment} {fuel need : Nat}
    (chain : HeapChain heap segments) (rounded : roundUp size 0x10 = need) (nonzero : need ≠ 0)
    (fit : FirstFit need segments skipped found rest) (enough : skipped.length < fuel) :
    malloc mapPage (fuel + 1) heap size = .ok (takeFit heap found.addr need) := by
  rw [malloc]
  simp only [rounded, nonzero, if_false, mallocScan_firstFit chain fit enough, Bind.bind,
    Except.bind]

theorem malloc_grow {fuel need : Nat} (inv : HeapInv heap segments)
    (rounded : roundUp size 0x10 = need) (nonzero : need ≠ 0)
    (unfit : ∀ other ∈ segments, ¬Fits need other) (enough : segments.length ≤ fuel) :
    malloc mapPage (fuel + 1) heap size = (do
      let expanded ← expandHeap mapPage heap need
      malloc mapPage fuel expanded need) := by
  rw [malloc]
  simp only [rounded, nonzero, if_false, mallocScan_none inv unfit enough, Bind.bind, Except.bind]

/-! Growth. -/

/-- The last segment after `expandHeap`. -/
def grownLast (heapEnd size : Nat) (previous : Segment) : Segment :=
  if previous.free then { previous with length := previous.length + roundUp size 0x1000 }
  else { addr := heapEnd, length := roundUp size 0x1000 - 29, free := true }

/-- The segments before it. -/
def grownFront (front : List Segment) (previous : Segment) : List Segment :=
  if previous.free then front else front ++ [previous]

theorem grownLast_free (heapEnd size : Nat) (previous : Segment) :
    (grownLast heapEnd size previous).free = true := by
  rw [grownLast]
  split
  · assumption
  · rfl

theorem grownLast_behindFree (heapEnd size : Nat) {previous : Segment}
    (isFree : previous.free = true) : grownLast heapEnd size previous =
      { previous with length := previous.length + roundUp size 0x1000 } := by
  rw [grownLast, if_pos isFree]

theorem grownLast_behindTaken (heapEnd size : Nat) {previous : Segment}
    (notFree : previous.free = false) : grownLast heapEnd size previous =
      { addr := heapEnd, length := roundUp size 0x1000 - 29, free := true } := by
  rw [grownLast, if_neg (by simp [notFree])]

theorem grownFront_subset {front : List Segment} {previous segment : Segment}
    (member : segment ∈ grownFront front previous) : segment ∈ front ++ [previous] := by
  rw [grownFront] at member
  split at member
  · exact List.mem_append_left _ member
  · exact member

theorem push_grown {front : List Segment} {previous : Segment} {heapEnd : Nat}
    (enough : 29 ≤ roundUp size 0x1000) :
    front ++ push 29 previous [{ addr := heapEnd, length := roundUp size 0x1000 - 29, free := true }] =
      grownFront front previous ++ [grownLast heapEnd size previous] := by
  cases isFree : previous.free with
  | true =>
      have length : previous.length + (roundUp size 0x1000 - 29) + 29 =
          previous.length + roundUp size 0x1000 := by omega
      simp [push, merge, grownFront, grownLast, isFree, length]
  | false => simp [push, grownFront, grownLast, isFree]

theorem HeapInv.grown {front : List Segment} {previous : Segment}
    (inv : HeapInv heap (front ++ [previous])) (positive : 0 < size)
    (bound : size ≤ 2 ^ 64 - 0x1000) (run : OkeOS.expandHeap mapPage heap size = .ok heap')
    (endHigh : heap'.heapEnd < 2 ^ 64) :
    Expansion heap (front ++ [previous]) heap'
        (grownFront front previous ++ [grownLast heap.heapEnd size previous]) ∧
      heap'.heapEnd = heap.heapEnd + roundUp size 0x1000 := by
  have larger := (roundUp4096 positive bound)
  rw [← push_grown (by omega)]
  exact inv.expandHeap_last positive bound run endHigh

theorem firstFit_grown {front : List Segment} {previous : Segment} (heapEnd : Nat)
    (unfit : ∀ other ∈ front ++ [previous], ¬Fits size other)
    (enough : size ≤ (grownLast heapEnd size previous).length) :
    FirstFit size (grownFront front previous ++ [grownLast heapEnd size previous])
      (grownFront front previous) (grownLast heapEnd size previous) [] :=
  ⟨rfl, fun other member => unfit other (grownFront_subset member),
    grownLast_free heapEnd size previous, enough⟩

theorem firstFit_behindFree {front : List Segment} {previous : Segment} (heapEnd : Nat)
    (unfit : ∀ other ∈ front ++ [previous], ¬Fits size other) (isFree : previous.free = true)
    (larger : size ≤ roundUp size 0x1000) :
    FirstFit size (grownFront front previous ++ [grownLast heapEnd size previous])
      (grownFront front previous) (grownLast heapEnd size previous) [] := by
  apply firstFit_grown heapEnd unfit
  rw [grownLast_behindFree heapEnd size isFree]
  simp only
  omega

/-- The heap has grown by too little. -/
theorem unfit_grown {front : List Segment} {previous : Segment} {heapEnd : Nat}
    (unfit : ∀ other ∈ front ++ [previous], ¬Fits size other)
    (short : ¬size ≤ (grownLast heapEnd size previous).length) :
    ∀ other ∈ grownFront front previous ++ [grownLast heapEnd size previous],
      ¬Fits size other := by
  intro other member
  rcases List.mem_append.mp member with old | new
  · exact unfit other (grownFront_subset old)
  · rw [List.mem_singleton.mp new]
    exact fun fits => short fits.2

/-! Termination. -/

/-- With enough rounds `malloc` comes to `outcome`. -/
def Settles (mapPage : σ → Nat → Except Fault σ) (heap : Heap σ) (size : Nat)
    (outcome : Except Fault (Nat × Heap σ)) : Prop :=
  ∃ least, ∀ fuel, least ≤ fuel → malloc mapPage fuel heap size = outcome

theorem settles_null (mapPage : σ → Nat → Except Fault σ) (heap : Heap σ)
    (zero : roundUp size 0x10 = 0) : Settles mapPage heap size (.ok (0, heap)) := by
  refine ⟨1, fun fuel enough => ?_⟩
  obtain ⟨less, rfl⟩ : ∃ less, fuel = less + 1 := ⟨fuel - 1, by omega⟩
  rw [malloc]
  simp only [zero, if_true]

section

variable {need : Nat} (rounded : roundUp size 0x10 = need) (nonzero : need ≠ 0)

include rounded nonzero

theorem settles_firstFit {skipped rest : List Segment} {found : Segment}
    (chain : HeapChain heap segments) (fit : FirstFit need segments skipped found rest) :
    Settles mapPage heap size (.ok (takeFit heap found.addr need)) := by
  refine ⟨skipped.length + 2, fun fuel enough => ?_⟩
  obtain ⟨less, rfl⟩ : ∃ less, fuel = less + 1 := ⟨fuel - 1, by omega⟩
  exact malloc_firstFit chain rounded nonzero fit (by omega)

theorem settles_fault {fault : Fault} (inv : HeapInv heap segments)
    (unfit : ∀ other ∈ segments, ¬Fits need other)
    (failed : expandHeap mapPage heap need = .error fault) :
    Settles mapPage heap size (.error fault) := by
  refine ⟨segments.length + 1, fun fuel enough => ?_⟩
  obtain ⟨less, rfl⟩ : ∃ less, fuel = less + 1 := ⟨fuel - 1, by omega⟩
  rw [malloc_grow inv rounded nonzero unfit (by omega), failed]
  rfl

theorem settles_grow {expanded : Heap σ} {outcome : Except Fault (Nat × Heap σ)}
    (inv : HeapInv heap segments) (unfit : ∀ other ∈ segments, ¬Fits need other)
    (grown : expandHeap mapPage heap need = .ok expanded)
    (settles : Settles mapPage expanded need outcome) : Settles mapPage heap size outcome := by
  obtain ⟨least, later⟩ := settles
  refine ⟨max segments.length least + 1, fun fuel enough => ?_⟩
  obtain ⟨less, rfl⟩ : ∃ less, fuel = less + 1 := ⟨fuel - 1, by omega⟩
  rw [malloc_grow inv rounded nonzero unfit (by omega), grown]
  exact later less (by omega)

end

/-! More rounds do not change what `malloc` returns. -/

theorem mallocScan_more {fuel this : Nat} {result : Option (Nat × Heap σ)}
    (run : mallocScan fuel heap size this = .ok result) :
    mallocScan (fuel + 1) heap size this = .ok result := by
  induction fuel generalizing this with
  | zero => simp [mallocScan] at run
  | succ fuel ih =>
      rw [mallocScan] at run ⊢
      split at run
      · rename_i longer
        rwa [if_pos longer]
      · rename_i notLonger
        rw [if_neg notLonger]
        split at run
        · rename_i equal
          rwa [if_pos equal]
        · rename_i notEqual
          rw [if_neg notEqual]
          split at run
          · rename_i last
            rwa [if_pos last]
          · rename_i more
            rw [if_neg more]
            exact ih run

theorem mallocScan_extra {fuel this : Nat} {result : Option (Nat × Heap σ)}
    (run : mallocScan fuel heap size this = .ok result) (extra : Nat) :
    mallocScan (fuel + extra) heap size this = .ok result := by
  induction extra with
  | zero => exact run
  | succ extra ih => exact mallocScan_more ih

theorem malloc_more {fuel : Nat} {result : Nat × Heap σ}
    (run : malloc mapPage fuel heap size = .ok result) :
    malloc mapPage (fuel + 1) heap size = .ok result := by
  induction fuel generalizing heap size with
  | zero => simp [malloc] at run
  | succ fuel ih =>
      obtain ⟨pointer, heap'⟩ := result
      rw [malloc]
      rcases malloc_ok run with ⟨zero, rfl, rfl⟩ | ⟨nonzero, outcome⟩
      · simp only [zero, if_true]
      · simp only [nonzero, if_false]
        rcases outcome with scanned | ⟨none, expanded, grown, again⟩
        · rw [mallocScan_more scanned]
          rfl
        · rw [mallocScan_more none]
          simp only [Bind.bind, Except.bind, grown]
          exact ih again

theorem malloc_extra {fuel : Nat} {result : Nat × Heap σ}
    (run : malloc mapPage fuel heap size = .ok result) (extra : Nat) :
    malloc mapPage (fuel + extra) heap size = .ok result := by
  induction extra with
  | zero => exact run
  | succ extra ih => exact malloc_more ih

theorem Settles.unique {first second : Except Fault (Nat × Heap σ)}
    (left : Settles mapPage heap size first) (right : Settles mapPage heap size second) :
    first = second := by
  obtain ⟨leftLeast, leftLater⟩ := left
  obtain ⟨rightLeast, rightLater⟩ := right
  rw [← leftLater (max leftLeast rightLeast) (by omega), rightLater _ (by omega)]

theorem Settles.eq_outOfFuel {outcome : Except Fault (Nat × Heap σ)}
    (settles : Settles mapPage heap size outcome)
    (never : ∀ fuel, malloc mapPage fuel heap size = .error .outOfFuel) :
    outcome = .error .outOfFuel :=
  settles.unique ⟨0, fun fuel _ => never fuel⟩

theorem Settles.eq_ok {fuel : Nat} {result : Nat × Heap σ}
    {outcome : Except Fault (Nat × Heap σ)} (settles : Settles mapPage heap size outcome)
    (run : malloc mapPage fuel heap size = .ok result) : outcome = .ok result := by
  obtain ⟨least, later⟩ := settles
  rw [← later (fuel + least) (by omega)]
  exact malloc_extra run least

/-- A call that returns, when some segment fits. -/
theorem malloc_takes {fuel need : Nat} {result : Nat × Heap σ} {skipped rest : List Segment}
    {found : Segment} (chain : HeapChain heap segments) (rounded : roundUp size 0x10 = need)
    (nonzero : need ≠ 0) (fit : FirstFit need segments skipped found rest)
    (run : malloc mapPage fuel heap size = .ok result) : takeFit heap found.addr need = result :=
  Except.ok.inj ((settles_firstFit rounded nonzero chain fit).eq_ok run)

theorem malloc_grown {fuel need : Nat} {result : Nat × Heap σ} (inv : HeapInv heap segments)
    (rounded : roundUp size 0x10 = need) (nonzero : need ≠ 0)
    (unfit : ∀ other ∈ segments, ¬Fits need other)
    (run : malloc mapPage fuel heap size = .ok result) :
    ∃ more expanded, expandHeap mapPage heap need = .ok expanded ∧
      malloc mapPage more expanded need = .ok result := by
  have longer := malloc_extra run (segments.length + 1)
  rw [← Nat.add_assoc, malloc_grow inv rounded nonzero unfit (by omega)] at longer
  obtain ⟨expanded, grown, again⟩ := Fault.peel longer
  exact ⟨_, expanded, grown, again⟩

/-! Totality. -/

/-- `malloc` returns, or fails as one of its expansions does. -/
inductive Outcome (mapPage : σ → Nat → Except Fault σ) (heap : Heap σ) (size : Nat) : Prop
  | returns {result : Nat × Heap σ} (settles : Settles mapPage heap size (.ok result))
  | fails {other : Heap σ} {fault : Fault} (settles : Settles mapPage heap size (.error fault))
      (failed : expandHeap mapPage other (roundUp size 0x10) = .error fault)

theorem Outcome.grow {need : Nat} {expanded : Heap σ} (rounded : roundUp size 0x10 = need)
    (nonzero : need ≠ 0) (inv : HeapInv heap segments)
    (unfit : ∀ other ∈ segments, ¬Fits need other)
    (grown : expandHeap mapPage heap need = .ok expanded) (again : roundUp need 0x10 = need)
    (outcome : Outcome mapPage expanded need) : Outcome mapPage heap size := by
  cases outcome with
  | returns settles => exact .returns (settles_grow rounded nonzero inv unfit grown settles)
  | fails settles failed =>
      rw [again] at failed
      exact .fails (settles_grow rounded nonzero inv unfit grown settles) (by rwa [rounded])

section

variable {need : Nat} (rounded : roundUp size 0x10 = need) (again : roundUp need 0x10 = need)
  (positive : 0 < need) (bound : need ≤ 2 ^ 64 - 0x1000)

include rounded again positive bound

/-- Behind a free last segment one expansion is enough. -/
theorem outcome_of_lastFree {front : List Segment} {previous : Segment}
    (inv : HeapInv heap (front ++ [previous])) (isFree : previous.free = true)
    (below : ∀ expanded, expandHeap mapPage heap need = .ok expanded →
      expanded.heapEnd < 2 ^ 64) : Outcome mapPage heap size := by
  rcases firstFit_or_none need (front ++ [previous]) with ⟨skipped, found, rest, fit⟩ | unfit
  · exact .returns (settles_firstFit rounded (by omega) inv.toHeapChain fit)
  cases expansion : expandHeap mapPage heap need with
  | error fault =>
      exact .fails (settles_fault rounded (by omega) inv unfit expansion) (by rwa [rounded])
  | ok expanded =>
      obtain ⟨grown, _⟩ := inv.grown positive bound expansion (below expanded expansion)
      have fit := firstFit_behindFree heap.heapEnd unfit isFree (roundUp4096 positive bound).1
      exact .grow rounded (by omega) inv unfit expansion again
        (.returns (settles_firstFit again (by omega) grown.inv.toHeapChain fit))

theorem outcome_of_inv (inv : HeapInv heap segments) {Roomy : Heap σ → Prop} (roomy : Roomy heap)
    (grows : ∀ {before after : Heap σ}, Roomy before →
      expandHeap mapPage before need = .ok after → Roomy after ∧ after.heapEnd < 2 ^ 64) :
    Outcome mapPage heap size := by
  rcases firstFit_or_none need segments with ⟨skipped, found, rest, fit⟩ | unfit
  · exact .returns (settles_firstFit rounded (by omega) inv.toHeapChain fit)
  cases expansion : expandHeap mapPage heap need with
  | error fault =>
      exact .fails (settles_fault rounded (by omega) inv unfit expansion) (by rwa [rounded])
  | ok expanded =>
      obtain ⟨roomy', below⟩ := grows roomy expansion
      obtain ⟨front, previous, rfl⟩ := inv.eq_concat
      obtain ⟨grown, _⟩ := inv.grown positive bound expansion below
      exact .grow rounded (by omega) inv unfit expansion again
        (outcome_of_lastFree again again positive bound grown.inv (grownLast_free _ _ _)
          fun _ run => (grows roomy' run).2)

end

end

end OkeOS
