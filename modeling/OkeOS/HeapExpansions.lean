import OkeOS.HeapFirstFit
import OkeOS.HeapShape

/-!
How often `malloc` expands the heap.  `expandHeap` reserves no room for the header it adds, so
one expansion can be too short, but the second one merges with the first.
-/

namespace OkeOS

open ByteMemory Tiling
open HeapSegHdr hiding free

section

variable {σ : Type} (mapPage : σ → Nat → Except Fault σ)

/-- The number of calls of `expandHeap` that `malloc` makes. -/
def expandCalls : Nat → Heap σ → Nat → Nat
  | 0, _, _ => 0
  | fuel + 1, heap, size =>
      let size := roundUp size 0x10
      if size = 0 then 0
      else
        match mallocScan fuel heap size heap.heapStart with
        | .ok none =>
            match expandHeap mapPage heap size with
            | .ok heap => expandCalls fuel heap size + 1
            | .error _ => 1
        | _ => 0

/-- With enough rounds `malloc` comes to `outcome` after `calls` expansions. -/
def SettlesAfter (heap : Heap σ) (size calls : Nat) (outcome : Except Fault (Nat × Heap σ)) :
    Prop :=
  ∃ least, ∀ fuel, least ≤ fuel →
    malloc mapPage fuel heap size = outcome ∧ expandCalls mapPage fuel heap size = calls

/-- The heap that a number of calls of `expandHeap(need)` reaches. -/
inductive Grows (need : Nat) (heap : Heap σ) : Nat → Heap σ → Prop
  | start : Grows need heap 0 heap
  | expand {count : Nat} {before after : Heap σ} : Grows need heap count before →
      expandHeap mapPage before need = .ok after → Grows need heap (count + 1) after

end

section

variable {σ : Type} {mapPage : σ → Nat → Except Fault σ} {heap heap' : Heap σ}
  {segments : List Segment} {size need : Nat}

theorem mapPages_fault {pageCount pos : Nat} {pages : σ} {fault : Fault}
    (failed : mapPages mapPage pageCount pos pages = .error fault) :
    ∃ pages' pos', mapPage pages' pos' = .error fault := by
  induction pageCount generalizing pos pages with
  | zero => cases failed
  | succ pageCount ih =>
      rcases Fault.peel_error failed with first | ⟨mapped, _, later⟩
      · exact ⟨pages, pos, first⟩
      · exact ih later

theorem expandHeap_fault {fault : Fault} (failed : expandHeap mapPage heap size = .error fault) :
    ∃ pages pos, mapPage pages pos = .error fault := by
  rcases Fault.peel_error failed with mapping | ⟨pages, _, later⟩
  · exact mapPages_fault mapping
  · cases later

section

variable (rounded : roundUp size 0x10 = need) (nonzero : need ≠ 0)

include rounded nonzero

theorem settlesAfter_firstFit {skipped rest : List Segment} {found : Segment}
    (chain : HeapChain heap segments) (fit : FirstFit need segments skipped found rest) :
    SettlesAfter mapPage heap size 0 (.ok (takeFit heap found.addr need)) := by
  refine ⟨skipped.length + 2, fun fuel enough => ?_⟩
  obtain ⟨less, rfl⟩ : ∃ less, fuel = less + 1 := ⟨fuel - 1, by omega⟩
  refine ⟨malloc_firstFit chain rounded nonzero fit (by omega), ?_⟩
  rw [expandCalls]
  simp only [rounded, nonzero, if_false, mallocScan_firstFit chain fit (by omega : _ < less)]

theorem expandCalls_grow {fuel : Nat} (inv : HeapInv heap segments)
    (unfit : ∀ other ∈ segments, ¬Fits need other) (enough : segments.length ≤ fuel) :
    expandCalls mapPage (fuel + 1) heap size =
      match expandHeap mapPage heap need with
      | .ok heap => expandCalls mapPage fuel heap need + 1
      | .error _ => 1 := by
  rw [expandCalls]
  simp only [rounded, nonzero, if_false, mallocScan_none inv unfit enough]

theorem settlesAfter_fault {fault : Fault} (inv : HeapInv heap segments)
    (unfit : ∀ other ∈ segments, ¬Fits need other)
    (failed : expandHeap mapPage heap need = .error fault) :
    SettlesAfter mapPage heap size 1 (.error fault) := by
  obtain ⟨least, later⟩ := settles_fault rounded nonzero inv unfit failed
  refine ⟨max segments.length least + 1, fun fuel enough => ⟨later fuel (by omega), ?_⟩⟩
  obtain ⟨less, rfl⟩ : ∃ less, fuel = less + 1 := ⟨fuel - 1, by omega⟩
  rw [expandCalls_grow rounded nonzero inv unfit (by omega), failed]

theorem settlesAfter_grow {expanded : Heap σ} {calls : Nat}
    {outcome : Except Fault (Nat × Heap σ)} (inv : HeapInv heap segments)
    (unfit : ∀ other ∈ segments, ¬Fits need other)
    (grown : expandHeap mapPage heap need = .ok expanded)
    (settles : SettlesAfter mapPage expanded need calls outcome) :
    SettlesAfter mapPage heap size (calls + 1) outcome := by
  obtain ⟨least, later⟩ := settles
  refine ⟨max segments.length least + 1, fun fuel enough => ?_⟩
  obtain ⟨less, rfl⟩ : ∃ less, fuel = less + 1 := ⟨fuel - 1, by omega⟩
  obtain ⟨returned, counted⟩ := later less (by omega)
  rw [malloc_grow inv rounded nonzero unfit (by omega),
    expandCalls_grow rounded nonzero inv unfit (by omega), grown]
  exact ⟨returned, by rw [← counted]⟩

end

theorem Grows.end_eq {count : Nat} (aligned : heap.heapEnd % 0x1000 = 0)
    (grows : Grows mapPage need heap count heap') :
    heap'.heapEnd = heap.heapEnd + count * (roundUp need 0x1000 / 0x1000 * 0x1000) := by
  induction grows with
  | start => omega
  | @expand count before after _ run ih =>
      have multiple : count * (roundUp need 0x1000 / 0x1000 * 0x1000) % 0x1000 = 0 := by
        rw [← Nat.mul_assoc]
        exact Nat.mul_mod_left _ _
      obtain ⟨pages, _, result⟩ := expandHeap_ok (by omega) run
      have ends := congrArg Heap.heapEnd result
      rw [(combineBackward_bounds _ _).heapEnd] at ends
      rw [ends, ih, Nat.add_mul, Nat.one_mul, Nat.add_assoc]

/-- The call returns, unless a request for a page panics. -/
def ReturnsUnlessPanic (mapPage : σ → Nat → Except Fault σ) :
    Except Fault (Nat × Heap σ) → Prop
  | .ok _ => True
  | .error fault => ∃ pages pos, mapPage pages pos = .error fault

section

variable (rounded : roundUp size 0x10 = need) (again : roundUp need 0x10 = need)
  (positive : 0 < need) (bound : need ≤ 2 ^ 64 - 0x1000)

include rounded again positive bound

/-- Behind a free last segment one expansion is enough. -/
theorem settlesAfter_lastFree {front : List Segment} {previous : Segment}
    (inv : HeapInv heap (front ++ [previous])) (isFree : previous.free = true)
    (unfit : ∀ other ∈ front ++ [previous], ¬Fits need other)
    (noWrap : ∀ expanded, expandHeap mapPage heap need = .ok expanded →
      expanded.heapEnd < 2 ^ 64) :
    ∃ outcome, SettlesAfter mapPage heap size 1 outcome ∧ ReturnsUnlessPanic mapPage outcome := by
  cases expansion : expandHeap mapPage heap need with
  | error fault =>
      exact ⟨_, settlesAfter_fault rounded (by omega) inv unfit expansion,
        expandHeap_fault expansion⟩
  | ok expanded =>
      obtain ⟨grown, _⟩ := inv.grown positive bound expansion (noWrap expanded expansion)
      have fit := firstFit_behindFree heap.heapEnd unfit isFree (roundUp4096 positive bound).1
      exact ⟨_, settlesAfter_grow rounded (by omega) inv unfit expansion
        (settlesAfter_firstFit again (by omega) grown.inv.toHeapChain fit), trivial⟩

theorem settlesAfter_expansions {front : List Segment} {previous : Segment}
    (inv : HeapInv heap (front ++ [previous]))
    (unfit : ∀ other ∈ front ++ [previous], ¬Fits need other)
    (noWrap : ∀ count ≤ 2, ∀ heap', Grows mapPage need heap count heap' →
      heap'.heapEnd < 2 ^ 64) :
    ∃ calls outcome, SettlesAfter mapPage heap size calls outcome ∧
      ReturnsUnlessPanic mapPage outcome ∧ 1 ≤ calls ∧ calls ≤ 2 ∧
      (previous.free = true → calls = 1) := by
  cases isFree : previous.free with
  | true =>
      obtain ⟨outcome, settles, returns⟩ := settlesAfter_lastFree rounded again positive bound inv
        isFree unfit fun expanded run => noWrap 1 (by decide) expanded (.expand .start run)
      exact ⟨1, outcome, settles, returns, by omega, by omega, fun _ => rfl⟩
  | false =>
      cases expansion : expandHeap mapPage heap need with
      | error fault =>
          exact ⟨1, _, settlesAfter_fault rounded (by omega) inv unfit expansion,
            expandHeap_fault expansion, by omega, by omega, fun _ => rfl⟩
      | ok expanded =>
          have step := Grows.expand .start expansion
          obtain ⟨grown, _⟩ := inv.grown positive bound expansion (noWrap 1 (by decide) expanded step)
          by_cases enough : need ≤ (grownLast heap.heapEnd need previous).length
          · have fit := firstFit_grown heap.heapEnd unfit enough
            exact ⟨1, _, settlesAfter_grow rounded (by omega) inv unfit expansion
              (settlesAfter_firstFit again (by omega) grown.inv.toHeapChain fit), trivial,
              by omega, by omega, fun _ => rfl⟩
          · have stillUnfit := unfit_grown unfit enough
            obtain ⟨outcome, settles, returns⟩ := settlesAfter_lastFree again again positive bound
              grown.inv (grownLast_free _ _ _) stillUnfit
              fun expanded' run => noWrap 2 (by decide) expanded' (.expand step run)
            exact ⟨2, outcome, settlesAfter_grow rounded (by omega) inv unfit expansion settles,
              returns, by omega, by omega, by simp⟩

theorem malloc_settles (inv : HeapInv heap segments)
    (noWrap : ∀ count ≤ 2, ∀ heap', Grows mapPage need heap count heap' →
      heap'.heapEnd < 2 ^ 64) :
    ∃ outcome, Settles mapPage heap size outcome ∧ ReturnsUnlessPanic mapPage outcome := by
  rcases firstFit_or_none need segments with ⟨skipped, found, rest, fit⟩ | unfit
  · exact ⟨_, settles_firstFit rounded (by omega) inv.toHeapChain fit, trivial⟩
  obtain ⟨front, previous, rfl⟩ := inv.eq_concat
  obtain ⟨_, outcome, ⟨least, later⟩, returns, _⟩ :=
    settlesAfter_expansions rounded again positive bound inv unfit noWrap
  exact ⟨outcome, ⟨least, fun fuel enough => (later fuel enough).1⟩, returns⟩

/-- A call that returns has left the heap as long as at most two expansions make it. -/
theorem malloc_end_grows {fuel pointer : Nat} (inv : HeapInv heap segments)
    (noWrap : ∀ count ≤ 2, ∀ heap', Grows mapPage need heap count heap' →
      heap'.heapEnd < 2 ^ 64)
    (run : malloc mapPage fuel heap size = .ok (pointer, heap')) :
    ∃ count ≤ 2, ∃ grown, Grows mapPage need heap count grown ∧ heap'.heapEnd = grown.heapEnd := by
  have larger := roundUp4096 positive bound
  have taken {size more : Nat} {other : Heap σ} {others skipped rest : List Segment}
      {found : Segment} (chain : HeapChain other others) (rounded : roundUp size 0x10 = need)
      (fit : FirstFit need others skipped found rest)
      (run : malloc mapPage more other size = .ok (pointer, heap')) :
      heap'.heapEnd = other.heapEnd := by
    have bounds := takeFit_bounds other found.addr need
    rw [malloc_takes chain rounded (by omega) fit run] at bounds
    exact bounds.heapEnd
  rcases firstFit_or_none need segments with ⟨skipped, found, rest, fit⟩ | unfit
  · exact ⟨0, by decide, heap, .start, taken inv.toHeapChain rounded fit run⟩
  obtain ⟨front, previous, rfl⟩ := inv.eq_concat
  obtain ⟨more, expanded, expansion, later⟩ := malloc_grown inv rounded (by omega) unfit run
  have step := Grows.expand .start expansion
  obtain ⟨grown, _⟩ := inv.grown positive bound expansion (noWrap 1 (by decide) expanded step)
  rcases firstFit_or_none need _ with ⟨skipped, found, rest, fit⟩ | stillUnfit
  · exact ⟨1, by decide, expanded, step, taken grown.inv.toHeapChain again fit later⟩
  obtain ⟨_, expanded2, expansion2, last⟩ :=
    malloc_grown grown.inv again (by omega) stillUnfit later
  have step2 := Grows.expand step expansion2
  obtain ⟨grown2, _⟩ :=
    grown.inv.grown positive bound expansion2 (noWrap 2 (by decide) expanded2 step2)
  have fit := firstFit_behindFree expanded.heapEnd stillUnfit (grownLast_free _ _ _) larger.1
  exact ⟨2, by decide, expanded2, step2, taken grown2.inv.toHeapChain again fit last⟩

end

/-- The segment that a node of the chain stands for. -/
def ChainNode.segment (node : ChainNode) : Segment :=
  { addr := node.addr, length := node.header.length, free := node.header.free }

theorem chainOf_segments (prev : Nat) (segments : List Segment) :
    (chainOf prev segments).map ChainNode.segment = segments := by
  induction segments generalizing prev with
  | nil => rfl
  | cons first rest ih => rw [chainOf, List.map_cons, ih, ChainNode.segment]

theorem settlesAfter_found {skipped rest : List Segment} {found : Segment}
    (rounded : roundUp size 0x10 = need) (low : 0x10 ≤ need) (chain : HeapChain heap segments)
    (fit : FirstFit need segments skipped found rest) :
    ∃ heap', heap'.heapEnd = heap.heapEnd ∧
      SettlesAfter mapPage heap size 0 (.ok (found.addr + 29, heap')) := by
  have settles : SettlesAfter mapPage heap size 0 (.ok (takeFit heap found.addr need)) :=
    settlesAfter_firstFit rounded (by omega) chain fit
  obtain ⟨pointer, taken⟩ := takeFit_taken (fit.split ▸ chain) low fit.fits
  generalize takeFit heap found.addr need = result at settles pointer taken
  obtain ⟨first, heap'⟩ := result
  cases pointer
  exact ⟨heap', taken.bounds.heapEnd, settles⟩

variable {system : HeapSystem σ}

/-- In every state of a run, `malloc` takes the first free segment that is long enough, and
if there is none it returns after at most two expansions. -/
theorem malloc_expansions (run : HeapRun mapPage system) (positive : 0 < size)
    (bound : size ≤ 2 ^ 64 - 0x1000)
    (noWrap : ∀ count ≤ 2, ∀ heap', Grows mapPage (roundUp size 0x10) system.heap count heap' →
      heap'.heapEnd < 2 ^ 64) :
    ∃ chain, ChainFrom system.heap.mem system.heap.heapStart chain ∧
      (∀ skipped found rest, chain = skipped ++ found :: rest →
        Fits (roundUp size 0x10) found.segment →
        (∀ other ∈ skipped, ¬Fits (roundUp size 0x10) other.segment) →
        ∃ heap', heap'.heapEnd = system.heap.heapEnd ∧
          SettlesAfter mapPage system.heap size 0 (.ok (found.addr + 29, heap'))) ∧
      ((∀ node ∈ chain, ¬Fits (roundUp size 0x10) node.segment) →
        ∃ calls outcome, SettlesAfter mapPage system.heap size calls outcome ∧
          ReturnsUnlessPanic mapPage outcome ∧ 1 ≤ calls ∧ calls ≤ 2 ∧
          ∀ last ∈ chain.getLast?, last.header.free = true → calls = 1) := by
  obtain ⟨segments, inv⟩ := run.inv (noWrap 0 (by decide) _ .start)
  obtain ⟨larger, _, multiple, needBound⟩ := roundUp16 bound
  have again := roundUp_rounded multiple
  have nodes := chainOf_segments 0 segments
  refine ⟨chainOf 0 segments, inv.inv.chainFrom, ?_, ?_⟩
  · rintro skipped found rest split fits unfit
    rw [split, List.map_append, List.map_cons] at nodes
    have fit : FirstFit (roundUp size 0x10) segments (skipped.map ChainNode.segment) found.segment
        (rest.map ChainNode.segment) := by
      refine ⟨nodes.symm, ?_, fits⟩
      intro other member
      obtain ⟨node, nodeMem, rfl⟩ := List.mem_map.mp member
      exact unfit node nodeMem
    exact settlesAfter_found rfl (by omega) inv.inv.toHeapChain fit
  · intro unfit
    obtain ⟨front, previous, split⟩ := inv.inv.eq_concat
    have none : ∀ other ∈ front ++ [previous], ¬Fits (roundUp size 0x10) other := by
      intro other member
      rw [← split, ← nodes] at member
      obtain ⟨node, nodeMem, rfl⟩ := List.mem_map.mp member
      exact unfit node nodeMem
    obtain ⟨calls, outcome, settles, returns, some, atMost, one⟩ := settlesAfter_expansions rfl
      again (by omega) needBound (split ▸ inv.inv) none noWrap
    refine ⟨calls, outcome, settles, returns, some, atMost, fun last isLast lastFree => one ?_⟩
    have lastEq := congrArg List.getLast? nodes
    rw [List.getLast?_map, Option.mem_def.mp isLast, split, List.getLast?_concat, Option.map_some,
      Option.some.injEq] at lastEq
    rw [← lastEq]
    exact lastFree

theorem expandHeap_end_bound (run : expandHeap mapPage heap size = .ok heap') :
    heap'.heapEnd ≤ heap.heapEnd + 0x1000 + roundUp size 0x1000 := by
  obtain ⟨pages, _, run⟩ := Fault.peel run
  rw [Except.ok.injEq] at run
  rw [← run, (combineBackward_bounds _ _).heapEnd]
  simp only
  split <;> omega

theorem Grows.end_bound {count : Nat} (grows : Grows mapPage need heap count heap') :
    heap'.heapEnd ≤ heap.heapEnd + count * (0x1000 + roundUp need 0x1000) := by
  induction grows with
  | start => omega
  | expand _ run ih =>
      have one := expandHeap_end_bound run
      rw [Nat.add_mul, Nat.one_mul]
      omega

/-- One page, and a block of a whole page: nothing fits, and the only segment is free, so one
expansion does. -/
theorem malloc_expansions_onePage :
    ∃ (system : HeapSystem Unit) (outcome : Except Fault (Nat × Heap Unit)),
      HeapRun mapAny system ∧ SettlesAfter mapAny system.heap 0x1000 1 outcome := by
  cases boot : initHeap mapAny emptyHeap 0x800000 1 with
  | error fault => cases boot
  | ok heap =>
      have run : HeapRun mapAny { heap := heap, live := [] } :=
        .init (by decide) (by decide) (by decide) (by decide) boot
      have heapEnd : heap.heapEnd = 0x801000 := by
        cases boot
        rfl
      have rounded : roundUp 0x1000 0x10 = 0x1000 := by decide
      have page : roundUp 0x1000 0x1000 = 0x1000 := by decide
      obtain ⟨chain, reached, _, expanded⟩ := malloc_expansions run (by decide : 0 < 0x1000)
        (by decide) (by
          intro count atMost heap' grows
          have bound := grows.end_bound
          rw [rounded, page] at bound
          simp only at bound
          omega)
      -- The chain is the one segment behind the only header.
      have inv := initHeap_inv (by decide) (by decide) (by decide) (by decide) boot
      have single : chain = chainOf 0 [{ addr := 0x800000, length := 0x1000 - 29, free := true }] :=
        reached.unique inv.chainFrom
      subst single
      obtain ⟨calls, outcome, settles, _, _, _, one⟩ := expanded (by
        intro node member
        rw [List.mem_singleton.mp member, rounded, Fits]
        decide)
      rw [one _ rfl rfl] at settles
      exact ⟨_, outcome, run, settles⟩

end

end OkeOS
