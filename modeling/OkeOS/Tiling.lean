import Mathlib.Algebra.Ring.Nat
import Mathlib.Data.List.Chain
import Mathlib.Data.List.Perm.Basic

/-!
Address ranges cut into segments, each a header of fixed size followed by a
payload.  `Tiles` says that a list of segments covers a range exactly, and
`coalesce` merges neighbouring free segments into the one canonical list in
which no two neighbours are free.
-/

namespace Tiling

structure Segment where
  addr : Nat
  length : Nat
  free : Bool
deriving DecidableEq, Repr

/-- The segments follow one another without gaps from `start` up to `stop`. -/
def Tiles (header : Nat) : Nat → List Segment → Nat → Prop
  | start, [], stop => start = stop
  | start, segment :: rest, stop =>
      segment.addr = start ∧ Tiles header (start + header + segment.length) rest stop

/-- No two neighbouring segments are both free. -/
def NoFreePair (segments : List Segment) : Prop :=
  segments.IsChain fun first second => ¬(first.free = true ∧ second.free = true)

def merge (header : Nat) (first second : Segment) : Segment :=
  { addr := first.addr, length := first.length + second.length + header, free := first.free }

/-- Put a segment in front of a list, merging it with the head when both are free. -/
def push (header : Nat) (segment : Segment) : List Segment → List Segment
  | [] => [segment]
  | next :: rest =>
      if segment.free && next.free then merge header segment next :: rest
      else segment :: next :: rest

def coalesce (header : Nat) : List Segment → List Segment
  | [] => []
  | segment :: rest => push header segment (coalesce header rest)

def markOne (addr : Nat) (segment : Segment) : Segment :=
  { segment with free := segment.free || segment.addr == addr }

def markFree (addr : Nat) (segments : List Segment) : List Segment :=
  segments.map (markOne addr)

/-- Mark the segment at `addr` free and restore the canonical form. -/
def release (header : Nat) (segments : List Segment) (addr : Nat) : List Segment :=
  coalesce header (markFree addr segments)

section Tiles

variable {header : Nat}

theorem tiles_append {start stop : Nat} {first second : List Segment} :
    Tiles header start (first ++ second) stop ↔
      ∃ middle, Tiles header start first middle ∧ Tiles header middle second stop := by
  induction first generalizing start with
  | nil => simp [Tiles]
  | cons segment rest ih => simp [Tiles, ih, and_assoc]

theorem tiles_le {start stop : Nat} {segments : List Segment}
    (tiles : Tiles header start segments stop) : start ≤ stop := by
  induction segments generalizing start with
  | nil => exact Nat.le_of_eq tiles
  | cons segment rest ih =>
      have tail := ih tiles.2
      omega

theorem tiles_mem {start stop : Nat} {segments : List Segment} {segment : Segment}
    (tiles : Tiles header start segments stop) (member : segment ∈ segments) :
    start ≤ segment.addr ∧ segment.addr + header + segment.length ≤ stop := by
  induction segments generalizing start with
  | nil => simp at member
  | cons first rest ih =>
      rcases List.mem_cons.mp member with same | later
      · subst same
        have bound := tiles_le tiles.2
        have start := tiles.1
        omega
      · have bounds := ih tiles.2 later
        omega

/-- Around a chosen segment the earlier ones end before it and the later ones
start after it. -/
theorem tiles_split {start stop : Nat} {before after : List Segment} {segment : Segment}
    (tiles : Tiles header start (before ++ segment :: after) stop) :
    Tiles header start before segment.addr ∧
      Tiles header (segment.addr + header + segment.length) after stop := by
  obtain ⟨middle, front, back⟩ := tiles_append.mp tiles
  have middleEq : segment.addr = middle := back.1
  subst middleEq
  exact ⟨front, back.2⟩

theorem tiles_apart {start stop : Nat} {segments : List Segment} {first second : Segment}
    (tiles : Tiles header start segments stop)
    (firstMem : first ∈ segments) (secondMem : second ∈ segments) :
    first = second ∨ first.addr + header + first.length ≤ second.addr ∨
      second.addr + header + second.length ≤ first.addr := by
  obtain ⟨before, after, split⟩ := List.append_of_mem firstMem
  subst split
  obtain ⟨front, back⟩ := tiles_split tiles
  rcases List.mem_append.mp secondMem with earlier | rest
  · exact Or.inr (Or.inr (tiles_mem front earlier).2)
  · rcases List.mem_cons.mp rest with same | later
    · exact Or.inl same.symm
    · exact Or.inr (Or.inl (tiles_mem back later).1)

theorem push_tiles {start stop : Nat} {segment : Segment} {rest : List Segment}
    (tiles : Tiles header start (segment :: rest) stop) :
    Tiles header start (push header segment rest) stop := by
  cases rest with
  | nil => exact tiles
  | cons next rest =>
      rw [push]
      split
      · obtain ⟨startEq, nextEq, tail⟩ := tiles
        refine ⟨startEq, ?_⟩
        have length : start + header + (merge header segment next).length =
            start + header + segment.length + header + next.length := by
          simp only [merge]
          omega
        rw [length]
        exact tail
      · exact tiles

end Tiles

section Coalesce

variable {header : Nat}

/-- A pushed segment keeps its address and its mark at the head of the list. -/
theorem push_head (header : Nat) (segment : Segment) (rest : List Segment) :
    ∃ head tail, push header segment rest = head :: tail ∧
      head.addr = segment.addr ∧ head.free = segment.free ∧ segment.length ≤ head.length := by
  cases rest with
  | nil => exact ⟨segment, [], rfl, rfl, rfl, Nat.le_refl _⟩
  | cons next rest =>
      rw [push]
      split
      · refine ⟨merge header segment next, rest, rfl, rfl, rfl, ?_⟩
        simp only [merge]
        omega
      · exact ⟨segment, next :: rest, rfl, rfl, rfl, Nat.le_refl _⟩

theorem push_noFreePair {segment : Segment} {rest : List Segment} (noPair : NoFreePair rest) :
    NoFreePair (push header segment rest) := by
  cases rest with
  | nil => exact List.isChain_singleton _
  | cons next rest =>
      rw [push]
      split
      · rename_i both
        simp only [Bool.and_eq_true] at both
        cases rest with
        | nil => exact List.isChain_singleton _
        | cons third rest =>
            obtain ⟨pair, tail⟩ := List.isChain_cons_cons.mp noPair
            refine List.isChain_cons_cons.mpr ⟨?_, tail⟩
            intro bothFree
            exact pair ⟨both.2, bothFree.2⟩
      · rename_i notBoth
        simp only [Bool.and_eq_true] at notBoth
        exact List.isChain_cons_cons.mpr ⟨notBoth, noPair⟩

theorem coalesce_noFreePair (header : Nat) (segments : List Segment) :
    NoFreePair (coalesce header segments) := by
  induction segments with
  | nil => exact List.isChain_nil
  | cons segment rest ih => exact push_noFreePair ih

theorem push_of_noFreePair {segment : Segment} {rest : List Segment}
    (noPair : NoFreePair (segment :: rest)) :
    push header segment rest = segment :: rest := by
  cases rest with
  | nil => rfl
  | cons next rest =>
      have pair := (List.isChain_cons_cons.mp noPair).1
      rw [push, if_neg]
      simpa using pair

theorem coalesce_of_noFreePair (header : Nat) {segments : List Segment} (noPair : NoFreePair segments) :
    coalesce header segments = segments := by
  induction segments with
  | nil => rfl
  | cons segment rest ih =>
      rw [coalesce, ih noPair.tail, push_of_noFreePair noPair]

/-- Segments in front of a pair that is not merged stay as they are. -/
theorem coalesce_append_cons {before after : List Segment} {segment : Segment}
    (noPair : NoFreePair (before ++ [segment])) :
    coalesce header (before ++ segment :: after) =
      before ++ coalesce header (segment :: after) := by
  induction before with
  | nil => rfl
  | cons first before ih =>
      rw [List.cons_append, coalesce, ih noPair.tail]
      apply push_of_noFreePair
      cases before with
      | nil =>
          obtain ⟨head, tail, pushed, _, headFree, _⟩ :=
            push_head header segment (coalesce header after)
          have canonical := coalesce_noFreePair header (segment :: after)
          rw [coalesce, pushed] at canonical
          rw [List.nil_append, coalesce, pushed]
          refine List.isChain_cons_cons.mpr ⟨?_, canonical⟩
          have pair := (List.isChain_cons_cons.mp noPair).1
          rwa [headFree]
      | cons second before =>
          have pair := (List.isChain_cons_cons.mp noPair).1
          refine List.isChain_cons_cons.mpr ⟨pair, ?_⟩
          change NoFreePair (second :: before ++ coalesce header (segment :: after))
          rw [← ih noPair.tail]
          exact coalesce_noFreePair _ _

theorem push_merge (first second : Segment) (rest : List Segment)
    (firstFree : first.free = true) (secondFree : second.free = true) :
    push header (merge header first second) rest =
      push header first (push header second rest) := by
  cases rest with
  | nil => simp [push, firstFree, secondFree]
  | cons third rest =>
      by_cases thirdFree : third.free = true
      · simp only [push, merge, firstFree, secondFree, thirdFree, Bool.and_self, ↓reduceIte]
        congr 2
        omega
      · simp [push, merge, firstFree, secondFree, thirdFree]

theorem markOne_of_free {addr : Nat} {segment : Segment} (isFree : segment.free = true) :
    markOne addr segment = segment := by
  cases segment
  simp_all [markOne]

theorem markOne_of_ne {addr : Nat} {segment : Segment} (different : segment.addr ≠ addr) :
    markOne addr segment = segment := by
  cases segment
  simp_all [markOne]

theorem coalesce_mark_push (addr : Nat) (segment : Segment) (rest : List Segment) :
    coalesce header (markFree addr (push header segment rest)) =
      push header (markOne addr segment) (coalesce header (markFree addr rest)) := by
  cases rest with
  | nil => rfl
  | cons next rest =>
      rw [push]
      split
      · rename_i both
        simp only [Bool.and_eq_true] at both
        have merged : (merge header segment next).free = true := both.1
        simp only [markFree, List.map_cons, coalesce, markOne_of_free merged,
          markOne_of_free both.1, markOne_of_free both.2]
        exact push_merge segment next _ both.1 both.2
      · rfl

/-- Merging early or late gives the same canonical list. -/
theorem release_coalesce (addr : Nat) (segments : List Segment) :
    release header (coalesce header segments) addr = release header segments addr := by
  unfold release
  induction segments with
  | nil => rfl
  | cons segment rest ih =>
      rw [coalesce, coalesce_mark_push, ih]
      rfl

theorem markFree_comm (first second : Nat) (segments : List Segment) :
    markFree first (markFree second segments) = markFree second (markFree first segments) := by
  simp only [markFree, List.map_map]
  apply List.map_congr_left
  intro segment _
  simp [markOne, Bool.or_assoc, Bool.or_comm (segment.addr == first)]

/-- Releasing several addresses one after another is one pass of marking and one
of merging. -/
theorem foldl_release (addrs : List Nat) (segments : List Segment) :
    addrs.foldl (release header) (coalesce header segments) =
      coalesce header (addrs.foldl (fun marked addr => markFree addr marked) segments) := by
  induction addrs generalizing segments with
  | nil => rfl
  | cons addr addrs ih =>
      rw [List.foldl_cons, List.foldl_cons, release_coalesce]
      exact ih (markFree addr segments)

theorem foldl_release_perm {first second : List Nat} (permutation : first.Perm second)
    {segments : List Segment} (noPair : NoFreePair segments) :
    first.foldl (release header) segments = second.foldl (release header) segments := by
  have canonical := coalesce_of_noFreePair header noPair
  rw [← canonical, foldl_release, foldl_release]
  have commutes : RightCommutative fun marked addr => markFree addr marked :=
    ⟨fun segments first second => markFree_comm second first segments⟩
  rw [permutation.foldl_eq]

theorem mem_markFree_free {addr : Nat} {segments : List Segment} {segment : Segment}
    (member : segment ∈ markFree addr segments) (notFree : segment.free = false) :
    segment ∈ segments ∧ segment.addr ≠ addr := by
  obtain ⟨source, sourceMem, marked⟩ := List.mem_map.mp member
  subst marked
  simp only [markOne, Bool.or_eq_false_iff, beq_eq_false_iff_ne] at notFree
  rw [markOne_of_ne notFree.2]
  exact ⟨sourceMem, notFree.2⟩

theorem mem_markFree_of_ne {addr : Nat} {segments : List Segment} {segment : Segment}
    (member : segment ∈ segments) (different : segment.addr ≠ addr) :
    segment ∈ markFree addr segments :=
  List.mem_map.mpr ⟨segment, member, markOne_of_ne different⟩

theorem mem_coalesce_allocated {segments : List Segment} {segment : Segment}
    (notFree : segment.free = false) :
    segment ∈ coalesce header segments ↔ segment ∈ segments := by
  induction segments with
  | nil => rfl
  | cons first rest ih =>
      rw [coalesce, List.mem_cons, ← ih]
      cases coalesce header rest with
      | nil => simp [push]
      | cons next tail =>
          rw [push]
          split
          · rename_i both
            simp only [Bool.and_eq_true] at both
            have notFirst : segment ≠ first := by
              intro same
              rw [same, both.1] at notFree
              simp at notFree
            have notNext : segment ≠ next := by
              intro same
              rw [same, both.2] at notFree
              simp at notFree
            have notMerged : segment ≠ merge header first next := by
              intro same
              rw [same] at notFree
              simp [merge, both.1] at notFree
            simp [notFirst, notNext, notMerged]
          · simp

theorem mem_release_allocated {segments : List Segment} {segment : Segment} {addr : Nat}
    (notFree : segment.free = false) :
    segment ∈ release header segments addr ↔ segment ∈ segments ∧ segment.addr ≠ addr := by
  rw [release, mem_coalesce_allocated notFree]
  constructor
  · intro member
    exact mem_markFree_free member notFree
  · rintro ⟨member, different⟩
    exact mem_markFree_of_ne member different

theorem mem_push_addr {first segment : Segment} {rest : List Segment}
    (member : segment ∈ push header first rest) :
    segment.addr = first.addr ∨ segment ∈ rest := by
  cases rest with
  | nil =>
      rw [push, List.mem_singleton] at member
      exact Or.inl (congrArg Segment.addr member)
  | cons next others =>
      rw [push] at member
      split at member
      · rcases List.mem_cons.mp member with same | later
        · subst same
          exact Or.inl rfl
        · exact Or.inr (by simp [later])
      · rcases List.mem_cons.mp member with same | later
        · exact Or.inl (congrArg Segment.addr same)
        · exact Or.inr later

theorem mem_release_addr {segments : List Segment} {segment : Segment} {addr : Nat}
    (member : segment ∈ release header segments addr) :
    ∃ source ∈ segments, source.addr = segment.addr := by
  unfold release at member
  induction segments with
  | nil => simp [markFree, coalesce] at member
  | cons first rest ih =>
      rw [markFree, List.map_cons, coalesce] at member
      rcases mem_push_addr member with same | later
      · exact ⟨first, by simp, same.symm⟩
      · obtain ⟨source, sourceMem, sourceAddr⟩ := ih later
        exact ⟨source, by simp [sourceMem], sourceAddr⟩

theorem coalesce_length_le {segments : List Segment} {bound : Nat}
    (lengths : ∀ segment ∈ segments, bound ≤ segment.length) :
    ∀ segment ∈ coalesce header segments, bound ≤ segment.length := by
  induction segments with
  | nil => exact lengths
  | cons first rest ih =>
      have tail := ih fun segment member => lengths segment (by simp [member])
      have head := lengths first (by simp)
      rw [coalesce]
      cases restEq : coalesce header rest with
      | nil =>
          intro segment member
          rw [push, List.mem_singleton] at member
          rwa [member]
      | cons next others =>
          rw [restEq] at tail
          intro segment member
          rw [push] at member
          split at member
          · rcases List.mem_cons.mp member with same | later
            · subst same
              simp only [merge]
              omega
            · exact tail segment (by simp [later])
          · rcases List.mem_cons.mp member with same | later
            · rwa [same]
            · exact tail segment later

theorem release_length_le {segments : List Segment} {bound addr : Nat}
    (lengths : ∀ segment ∈ segments, bound ≤ segment.length) :
    ∀ segment ∈ release header segments addr, bound ≤ segment.length := by
  apply coalesce_length_le
  intro segment member
  obtain ⟨source, sourceMem, marked⟩ := List.mem_map.mp member
  have length : segment.length = source.length := by
    rw [← marked, markOne]
  rw [length]
  exact lengths source sourceMem

/-- A tiling without allocated segments merges into a single segment. -/
theorem coalesce_all_free {segments : List Segment} {start stop : Nat}
    (nonempty : segments ≠ []) (tiles : Tiles header start segments stop)
    (allFree : ∀ segment ∈ segments, segment.free = true) :
    coalesce header segments = [⟨start, stop - start - header, true⟩] := by
  induction segments generalizing start with
  | nil => exact absurd rfl nonempty
  | cons first rest ih =>
      have firstFree : first.free = true := allFree first (by simp)
      have startEq : first.addr = start := tiles.1
      cases rest with
      | nil =>
          have stopEq : start + header + first.length = stop := tiles.2
          have length : first.length = stop - start - header := by omega
          rw [coalesce, coalesce, push, ← length, ← startEq, ← firstFree]
      | cons next rest =>
          have merged := ih (by simp) tiles.2 fun segment member =>
            allFree segment (by simp [member])
          have bound := tiles_le tiles.2.2
          have length : first.length + (stop - (start + header + first.length) - header) + header =
              stop - start - header := by omega
          rw [coalesce, merged, push, firstFree, Bool.and_self, if_pos rfl, merge]
          simp only [length, startEq, firstFree]

end Coalesce

section Unique

variable {header : Nat}

theorem tiles_head_not_mem {start stop : Nat} {first : Segment} {rest : List Segment}
    (positive : 0 < header) (tiles : Tiles header start (first :: rest) stop) : first ∉ rest := by
  intro member
  have bounds := tiles_mem tiles.2 member
  have startEq : first.addr = start := tiles.1
  omega

theorem tiles_nodup {start stop : Nat} {segments : List Segment} (positive : 0 < header)
    (tiles : Tiles header start segments stop) : segments.Nodup := by
  induction segments generalizing start with
  | nil => exact List.nodup_nil
  | cons first rest ih =>
      exact List.nodup_cons.mpr ⟨tiles_head_not_mem positive tiles, ih tiles.2⟩

/-- What follows a free head is allocated, so another tiling with the same allocated
segments cannot have a longer head. -/
theorem head_length_le {start stop : Nat} {first second : Segment} {rest others : List Segment}
    (positive : 0 < header) (firstTiles : Tiles header start (first :: rest) stop)
    (secondTiles : Tiles header start (second :: others) stop)
    (noPair : NoFreePair (first :: rest)) (isFree : first.free = true)
    (allocated : ∀ segment ∈ rest, segment.free = false → segment ∈ second :: others) :
    second.length ≤ first.length := by
  cases rest with
  | nil =>
      have stopEq : start + header + first.length = stop := firstTiles.2
      have bound := tiles_le secondTiles.2
      omega
  | cons next more =>
      have nextAddr : next.addr = start + header + first.length := firstTiles.2.1
      have nextUsed : next.free = false := by
        have notBoth := (List.isChain_cons_cons.mp noPair).1
        rwa [isFree, eq_self, true_and, Bool.not_eq_true] at notBoth
      rcases List.mem_cons.mp (allocated next (by simp) nextUsed) with same | later
      · have startEq : second.addr = start := secondTiles.1
        rw [same] at nextAddr
        omega
      · have bounds := tiles_mem secondTiles.2 later
        omega

/-- Tilings of one range in canonical form are determined by their allocated segments. -/
theorem tiles_unique {start stop : Nat} {first second : List Segment} (positive : 0 < header)
    (firstTiles : Tiles header start first stop) (secondTiles : Tiles header start second stop)
    (firstPair : NoFreePair first) (secondPair : NoFreePair second)
    (same : ∀ segment : Segment, segment.free = false → (segment ∈ first ↔ segment ∈ second)) :
    first = second := by
  induction first generalizing start second with
  | nil =>
      cases second with
      | nil => rfl
      | cons right rights =>
          have bound := tiles_le secondTiles.2
          have startEq : start = stop := firstTiles
          omega
  | cons left lefts ih =>
      cases second with
      | nil =>
          have bound := tiles_le firstTiles.2
          have startEq : start = stop := secondTiles
          omega
      | cons right rights =>
          have leftAddr : left.addr = start := firstTiles.1
          have rightAddr : right.addr = start := secondTiles.1
          have heads : left = right := by
            cases leftFree : left.free with
            | false =>
                rcases tiles_apart secondTiles ((same left leftFree).mp (by simp))
                  (by simp : right ∈ right :: rights) with equal | earlier | later
                · exact equal
                · omega
                · omega
            | true =>
                cases rightFree : right.free with
                | false =>
                    rcases tiles_apart firstTiles ((same right rightFree).mpr (by simp))
                      (by simp : left ∈ left :: lefts) with equal | earlier | later
                    · exact equal.symm
                    · omega
                    · omega
                | true =>
                    have shorter := head_length_le positive firstTiles secondTiles firstPair
                      leftFree fun segment member used => (same segment used).mp (by simp [member])
                    have longer := head_length_le positive secondTiles firstTiles secondPair
                      rightFree fun segment member used =>
                        (same segment used).mpr (by simp [member])
                    have lengths : left.length = right.length := by omega
                    cases left
                    cases right
                    simp_all
          subst heads
          have tails : lefts = rights := by
            refine ih firstTiles.2 secondTiles.2 firstPair.tail secondPair.tail ?_
            intro segment used
            have whole := same segment used
            rw [List.mem_cons, List.mem_cons] at whole
            constructor
            · intro member
              refine (whole.mp (.inr member)).resolve_left ?_
              rintro rfl
              exact tiles_head_not_mem positive firstTiles member
            · intro member
              refine (whole.mpr (.inr member)).resolve_left ?_
              rintro rfl
              exact tiles_head_not_mem positive secondTiles member
          rw [tails]

/-- The bytes of the allocated segments, with their headers. -/
def usedBytes (header : Nat) (segments : List Segment) : Nat :=
  ((segments.filter fun segment => !segment.free).map fun segment => segment.length + header).sum

theorem usedBytes_cons (first : Segment) (rest : List Segment) :
    usedBytes header (first :: rest) =
      (if first.free = false then first.length + header else 0) + usedBytes header rest := by
  cases isFree : first.free <;> simp [usedBytes, isFree]

theorem usedBytes_eq {start start' stop stop' : Nat} {first second : List Segment}
    (positive : 0 < header) (firstTiles : Tiles header start first stop)
    (secondTiles : Tiles header start' second stop')
    (same : ∀ segment : Segment, segment.free = false → (segment ∈ first ↔ segment ∈ second)) :
    usedBytes header first = usedBytes header second := by
  have permutation : (first.filter fun segment => !segment.free).Perm
      (second.filter fun segment => !segment.free) := by
    refine (List.perm_ext_iff_of_nodup ((tiles_nodup positive firstTiles).filter _)
      ((tiles_nodup positive secondTiles).filter _)).mpr ?_
    intro segment
    simp only [List.mem_filter, Bool.not_eq_true']
    constructor
    · rintro ⟨member, used⟩
      exact ⟨(same segment used).mp member, used⟩
    · rintro ⟨member, used⟩
      exact ⟨(same segment used).mpr member, used⟩
  exact (permutation.map _).sum_nat

/-- The bytes of the free segments, with their headers. -/
def freeBytes (header : Nat) (segments : List Segment) : Nat :=
  ((segments.filter fun segment => segment.free).map fun segment => segment.length + header).sum

theorem used_add_free {start stop : Nat} {segments : List Segment}
    (tiles : Tiles header start segments stop) :
    start + usedBytes header segments + freeBytes header segments = stop := by
  induction segments generalizing start with
  | nil => exact tiles
  | cons first rest ih =>
      have tail := ih tiles.2
      cases isFree : first.free with
      | true =>
          have whole : freeBytes header (first :: rest) =
              first.length + header + freeBytes header rest := by simp [freeBytes, isFree]
          rw [usedBytes_cons, if_neg (by simp [isFree]), whole]
          omega
      | false =>
          have whole : freeBytes header (first :: rest) = freeBytes header rest := by
            simp [freeBytes, isFree]
          rw [usedBytes_cons, if_pos isFree, whole]
          omega

end Unique

end Tiling
