import OkeOS.HeapExpansions

/-!
`getUsedMem` and what the calls of a run do to it.
-/

namespace OkeOS

open ByteMemory Tiling
open HeapSegHdr hiding free

theorem usedMemLoop_linked {mem : Memory} {prev start stop fuel used : Nat}
    {segments : List Segment} (linked : Linked mem prev segments 0)
    (tiles : Tiles 29 start segments stop) (nonempty : segments ≠ []) (positive : 0 < start)
    (enough : segments.length ≤ fuel) (bound : used + usedBytes 29 segments < 2 ^ 64) :
    usedMemLoop fuel mem (headAddr 0 segments) used = .ok (used + usedBytes 29 segments) := by
  induction segments generalizing prev start fuel used with
  | nil => exact absurd rfl nonempty
  | cons first rest ih =>
      obtain ⟨fuel, rfl⟩ : ∃ less, fuel = less + 1 :=
        ⟨fuel - 1, by rw [List.length_cons] at enough; omega⟩
      have freeEq : HeapSegHdr.free mem first.addr = first.free := header_free linked.1
      have lengthEq : length mem first.addr = first.length := header_length linked.1
      have nextEq : next mem first.addr = headAddr 0 rest := header_next linked.1
      rw [usedBytes_cons] at bound ⊢
      have counted : (if first.free = false then add64 used (add64 first.length sizeofHeapSegHdr)
          else used) = used + if first.free = false then first.length + 29 else 0 := by
        split
        · rename_i notFree
          rw [if_pos notFree] at bound
          have whole : add64 first.length 29 = first.length + 29 := add64_of_lt (by omega)
          rw [sizeofHeapSegHdr, whole, add64_of_lt (by omega)]
        · rfl
      rw [headAddr, usedMemLoop]
      simp only [freeEq, lengthEq, nextEq, counted]
      cases rest with
      | nil => simp [headAddr, usedBytes]
      | cons second others =>
          have secondAddr : second.addr = start + 29 + first.length := tiles.2.1
          rw [if_neg (by rw [headAddr]; omega), ih linked.2 tiles.2 (by simp) (by omega)
            (by simpa using enough) (by omega), Nat.add_assoc]

section

variable {σ : Type} {mapPage : σ → Nat → Except Fault σ} {heap heap' : Heap σ}
  {segments segments' : List Segment}

/-- With enough rounds `getUsedMem` returns `used`. -/
def UsedMem (heap : Heap σ) (used : Nat) : Prop :=
  ∃ least, ∀ fuel, least ≤ fuel → getUsedMem fuel heap = .ok used

theorem HeapInv.usedMem (inv : HeapInv heap segments) : UsedMem heap (usedBytes 29 segments) := by
  have total := used_add_free inv.tiles
  have endHigh := inv.endHigh
  have startLow := inv.startLow
  refine ⟨segments.length, fun fuel enough => ?_⟩
  rw [getUsedMem, ← inv.headAddr_start inv.nonempty, usedMemLoop_linked inv.linked inv.tiles
    inv.nonempty (by omega) enough (by omega), Nat.zero_add]

theorem UsedMem.unique {first second : Nat} (left : UsedMem heap first)
    (right : UsedMem heap second) : first = second := by
  obtain ⟨leftLeast, leftLater⟩ := left
  obtain ⟨rightLeast, rightLater⟩ := right
  have both := (leftLater (max leftLeast rightLeast) (by omega)).symm.trans
    (rightLater _ (by omega))
  exact Except.ok.inj both

/-! The blocks that stay live own the same segments. -/

/-- A run all of whose states have the blocks of `base` live. -/
inductive LiveRun (mapPage : σ → Nat → Except Fault σ) (base : List Block)
    (system : HeapSystem σ) : HeapSystem σ → Prop
  | start : LiveRun mapPage base system system
  | step {before after : HeapSystem σ} : LiveRun mapPage base system before →
      HeapStep mapPage before after → (∀ block ∈ base, block ∈ after.live) →
      LiveRun mapPage base system after

/-- The segment is allocated to one of the blocks. -/
def Owns (base : List Block) (owner : Segment) : Prop :=
  owner.free = false ∧ ∃ block ∈ base, owner.addr + 29 = block.ptr

def SameOwners (base : List Block) (segments segments' : List Segment) : Prop :=
  ∀ owner, Owns base owner → (owner ∈ segments' ↔ owner ∈ segments)

variable {system system' : HeapSystem σ} {base : List Block}

theorem HeapStep.end_le (step : HeapStep mapPage system system') :
    system.heap.heapEnd ≤ system'.heap.heapEnd := by
  cases step with
  | call call => exact call.end_le
  | write byte live inside => exact Nat.le_refl _

theorem LiveRun.live (run : LiveRun mapPage base system system')
    (live : ∀ block ∈ base, block ∈ system.live) : ∀ block ∈ base, block ∈ system'.live := by
  cases run with
  | start => exact live
  | step _ _ live => exact live

theorem SystemInv.release_owners (inv : SystemInv system segments) {freed : Block}
    {owner : Segment} (ownerPtr : owner.addr + 29 = freed.ptr) (freedLive : freed ∈ system.live)
    (live : ∀ block ∈ base, block ∈ system.live.erase freed) :
    SameOwners base segments (release 29 segments owner.addr) := by
  have nodup : system.live.Nodup := List.Nodup.of_map _ inv.distinct
  rintro holder ⟨used, block, member, holderPtr⟩
  rw [mem_release_allocated used, and_iff_left]
  intro same
  obtain ⟨different, blockLive⟩ := nodup.mem_erase_iff.mp (live block member)
  exact different (inv.eq_of_ptr blockLive freedLive (by omega))

theorem SystemInv.call_owners (inv : SystemInv system segments)
    (call : HeapCall mapPage system system') (noWrap : system'.heap.heapEnd < 2 ^ 64)
    (live : ∀ block ∈ base, block ∈ system.live)
    (live' : ∀ block ∈ base, block ∈ system'.live) :
    ∃ segments', SystemInv system' segments' ∧ SameOwners base segments segments' := by
  obtain ⟨segments', inv'⟩ := (inv.call call noWrap).1
  refine ⟨segments', inv', ?_⟩
  cases call with
  | malloc bound run =>
      rcases inv.inv.malloc bound run noWrap with ⟨_, _, rfl⟩ | ⟨other, allocation⟩
      · rw [inv'.inv.unique inv.inv]
        exact fun _ _ => Iff.rfl
      · obtain ⟨owner, _, _, ownerPtr, _, allocated, fresh⟩ := allocation.owner
        rw [inv'.inv.unique allocation.inv]
        rintro holder ⟨used, block, member, holderPtr⟩
        rw [allocated holder used, or_iff_left]
        rintro rfl
        obtain ⟨earlier, earlierMem, earlierUsed, earlierPtr, _⟩ := inv.owners block (live _ member)
        exact fresh earlier earlierMem earlierUsed (by omega)
  | @free freed freedLive =>
      obtain ⟨owner, member, _, ownerPtr, _⟩ := inv.owners freed freedLive
      have released := (inv.inv.free member).1
      rw [ownerPtr] at released
      generalize OkeOS.free system.heap freed.ptr = heap' at *
      rw [inv'.inv.unique released]
      exact inv.release_owners ownerPtr freedLive live'
  | @sfree freed size freedLive bound =>
      obtain ⟨owner, member, _, ownerPtr, _⟩ := inv.owners freed freedLive
      rw [inv.length_eq member ownerPtr] at bound
      have released := inv.inv.sfree member bound
      rw [ownerPtr] at released
      generalize OkeOS.sfree system.heap freed.ptr size = heap' at *
      rw [inv'.inv.unique released]
      exact inv.release_owners ownerPtr freedLive live'
  | expandHeap positive bound run =>
      obtain ⟨other, expansion⟩ := inv.inv.expandHeap positive bound run noWrap
      rw [inv'.inv.unique expansion.inv]
      exact fun owner owns => expansion.allocated owner owns.1

theorem LiveRun.owners (run : LiveRun mapPage base system system')
    (inv : SystemInv system segments) (live : ∀ block ∈ base, block ∈ system.live)
    (noWrap : system'.heap.heapEnd < 2 ^ 64) :
    ∃ segments', SystemInv system' segments' ∧ SameOwners base segments segments' := by
  induction run with
  | start => exact ⟨segments, inv, fun _ _ => Iff.rfl⟩
  | @step before after run step live' ih =>
      have ends := step.end_le
      obtain ⟨between, betweenInv, betweenSame⟩ := ih (by omega)
      cases step with
      | call call =>
          obtain ⟨segments', inv', same⟩ := betweenInv.call_owners call noWrap (run.live live) live'
          exact ⟨segments', inv', fun owner owns => (same owner owns).trans (betweenSame owner owns)⟩
      | write byte blockLive inside =>
          exact ⟨between, betweenInv.write byte blockLive inside, betweenSame⟩

/-! What a call adds to `getUsedMem` and takes from it. -/

variable {size need : Nat}

section

variable {front : List Segment} {previous : Segment} {fuel pointer : Nat}
  (inv : HeapInv heap (front ++ [previous])) (rounded : roundUp size 0x10 = need)
  (multiple : need % 0x10 = 0) (positive : 0 < need) (bound : need ≤ 2 ^ 64 - 0x1000)
  (unfit : ∀ other ∈ front ++ [previous], ¬Fits need other)
  (run : malloc mapPage fuel heap size = .ok (pointer, heap'))
  (endHigh : heap'.heapEnd < 2 ^ 64)

include inv rounded multiple positive bound unfit run endHigh

end

end

/-! The first block of a heap of any size. -/

theorem mapPages_mapAny (pageCount pos : Nat) (pages : Unit) :
    mapPages mapAny pageCount pos pages = .ok pages := by
  induction pageCount generalizing pos with
  | zero => rfl
  | succ pageCount ih => exact ih (pos + 0x1000)

theorem firstBlock_run {pageCount : Nat} (onePage : 1 ≤ pageCount)
    (noWrap : 0x1000 + pageCount * 0x1000 < 2 ^ 64) :
    ∃ heap fuel pointer heap', HeapRun mapAny { heap := heap, live := [] } ∧
      HeapInv heap [{ addr := 0x1000, length := pageCount * 0x1000 - 29, free := true }] ∧
      malloc mapAny fuel heap 16 = .ok (pointer, heap') ∧ pointer ≠ 0 ∧
      heap'.heapEnd < 2 ^ 64 := by
  cases boot : initHeap mapAny emptyHeap 0x1000 pageCount with
  | error fault =>
      simp only [initHeap, mapPages_mapAny, Bind.bind, Except.bind] at boot
      cases boot
  | ok heap =>
      have inv := initHeap_inv (by decide) (by decide) onePage noWrap boot
      have fit : FirstFit 16 [{ addr := 0x1000, length := pageCount * 0x1000 - 29, free := true }]
          [] { addr := 0x1000, length := pageCount * 0x1000 - 29, free := true } [] :=
        ⟨rfl, by simp, rfl, by simp only; omega⟩
      obtain ⟨heap', endEq, fuel, settled⟩ :
          ∃ heap', heap'.heapEnd = heap.heapEnd ∧ SettlesAfter mapAny heap 16 0
            (.ok (0x1000 + 29, heap')) :=
        settlesAfter_found (show roundUp 16 0x10 = 16 from rfl) (by decide) inv.toHeapChain fit
      refine ⟨heap, fuel, _, heap', .init (by decide) (by decide) onePage noWrap boot, inv,
        (settled fuel (Nat.le_refl _)).1, by decide, ?_⟩
      rw [endEq]
      exact inv.endHigh

end OkeOS
