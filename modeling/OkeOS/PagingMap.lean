import OkeOS.PagingTree

/-!
`PageTable_MapMemory` as a step on the tree of page tables, and the map from virtual
pages to frames that the tables stand for.
-/

namespace OkeOS

open ByteMemory PathTree PageDirectoryEntry

/-! The path of a virtual address. -/

def indexAt (virt shift : Nat) : Fin 512 := ⟨virt / 2 ^ shift % 512, Nat.mod_lt _ (by decide)⟩

/-- The indices that lead to the last table. -/
def tablePath (virt : Nat) : TablePath := [indexAt virt 39, indexAt virt 30, indexAt virt 21]

def leafIndex (virt : Nat) : Fin 512 := indexAt virt 12

/-- The paths of the tables that a mapping of `virt` needs. -/
def prefixes (virt : Nat) : List TablePath :=
  [[indexAt virt 39], [indexAt virt 39, indexAt virt 30], tablePath virt]

theorem prefixes_length {virt : Nat} {path : TablePath} (member : path ∈ prefixes virt) :
    path.length ≤ 3 := by
  simp only [prefixes, tablePath, List.mem_cons, List.not_mem_nil, or_false] at member
  rcases member with rfl | rfl | rfl <;> simp

theorem samePage_path (first second : Nat) :
    SamePage first second ↔ tablePath first = tablePath second ∧ leafIndex first = leafIndex second := by
  rw [samePage_iff, indexer_eq, indexer_eq, PageMapIndexer.mk.injEq]
  simp only [tablePath, leafIndex, indexAt, List.cons.injEq, Fin.mk.injEq, and_true, and_assoc]

theorem child_none_entry {mem : Memory} {table index : Nat} (absent : child mem table index = none) :
    presentEntry (readEntry mem table index) = none := by
  simp only [child] at absent
  split at absent
  · simp at absent
  · rename_i missing
    rw [presentEntry, if_neg missing]

theorem child_some_entry {mem : Memory} {table index next : Nat}
    (present : child mem table index = some next) :
    presentEntry (readEntry mem table index) = some (readEntry mem table index) := by
  simp only [child] at present
  split at present
  · rename_i set
    rw [presentEntry, if_pos set]
  · simp at present

theorem walk_eq (mem : Memory) (root virt : Nat) :
    walk mem root virt = leaf mem root (tablePath virt) (leafIndex virt) := by
  simp only [walk, indexer_eq, PageMapIndexer.path, walkEntries, leaf, tableAt, tablePath, follow,
    edge, indexAt, leafIndex]
  cases child mem root (virt / 2 ^ 39 % 512) with
  | none => rfl
  | some pdp =>
      simp only [Option.bind_some]
      cases child mem pdp (virt / 2 ^ 30 % 512) with
      | none => rfl
      | some pd =>
          simp only [Option.bind_some]
          cases child mem pd (virt / 2 ^ 21 % 512) with
          | none => rfl
          | some pt =>
              simp only [Option.bind_some]
              cases last : child mem pt (virt / 2 ^ 12 % 512) with
              | none =>
                  rw [child_none_entry last]
                  rfl
              | some frame =>
                  rw [child_some_entry last]
                  rfl

theorem walk_samePage {mem : Memory} {root first second : Nat} (same : SamePage first second) :
    walk mem root first = walk mem root second := by
  obtain ⟨samePath, sameIndex⟩ := (samePage_path first second).mp same
  rw [walk_eq, walk_eq, samePath, sameIndex]

/-! Sequences of calls. -/

/-- The physical address that the last of the calls for the page of `virt` passed. -/
def lastCall : List (Nat × Nat) → Nat → Option Nat
  | [], _ => none
  | call :: rest, virt =>
      (lastCall rest virt).or (if SamePage virt call.1 then some call.2 else none)

theorem lastCall_append (first second : List (Nat × Nat)) (virt : Nat) :
    lastCall (first ++ second) virt = (lastCall second virt).or (lastCall first virt) := by
  induction first with
  | nil => rw [List.nil_append, lastCall, Option.or_none]
  | cons call rest ih => rw [List.cons_append, lastCall, ih, lastCall, Option.or_assoc]

/-- What `calls` change: new tables on the way to their pages, and the pages themselves. -/
structure MapSteps (root : Nat) (calls : List (Nat × Nat)) (mem : Memory) (handed : List Nat)
    (mem' : Memory) (handed' : List Nat) : Prop where
  suffix : handed <:+ handed'
  keeps : ∀ path table, path.length ≤ 3 → tableAt mem root path = some table →
    tableAt mem' root path = some table
  fresh : ∀ path table, path.length ≤ 3 → tableAt mem' root path = some table →
    tableAt mem root path = some table ∨ table ∉ handed
  cost : ∀ paths : List TablePath, (∀ path ∈ paths, path.length ≤ 3) →
    (∀ call ∈ calls, ∀ target ∈ prefixes call.1, target ∈ paths) →
    handed'.length + missing mem' root paths ≤ handed.length + missing mem root paths
  mapped : ∀ virt phys, lastCall calls virt = some phys →
    ∃ entry, walk mem' root virt = some (linkEntry entry phys)
  others : ∀ virt, lastCall calls virt = none → walk mem' root virt = walk mem root virt

theorem MapSteps.refl (root : Nat) (mem : Memory) (handed : List Nat) :
    MapSteps root [] mem handed mem handed where
  suffix := List.suffix_refl handed
  keeps := fun _ _ _ reached => reached
  fresh := fun _ _ _ reached => Or.inl reached
  cost := fun _ _ _ => Nat.le_refl _
  mapped := by simp [lastCall]
  others := fun _ _ => rfl

theorem MapSteps.trans {root : Nat} {calls calls' : List (Nat × Nat)} {mem mem' mem'' : Memory}
    {handed handed' handed'' : List Nat} (left : MapSteps root calls mem handed mem' handed')
    (right : MapSteps root calls' mem' handed' mem'' handed'') :
    MapSteps root (calls ++ calls') mem handed mem'' handed'' where
  suffix := left.suffix.trans right.suffix
  keeps := fun path table length reached =>
    right.keeps path table length (left.keeps path table length reached)
  fresh := by
    intro path table length reached
    rcases right.fresh path table length reached with old | new
    · exact left.fresh path table length old
    · exact Or.inr fun member => new (left.suffix.subset member)
  cost := by
    intro paths lengths needed
    have leftCost := left.cost paths lengths fun call member => needed call (by simp [member])
    have rightCost := right.cost paths lengths fun call member => needed call (by simp [member])
    omega
  mapped := by
    intro virt phys last
    rw [lastCall_append] at last
    cases later : lastCall calls' virt with
    | none =>
        rw [later] at last
        rw [right.others virt later]
        exact left.mapped virt phys last
    | some found =>
        rw [later] at last
        exact right.mapped virt phys (later.trans last)
  others := by
    intro virt last
    rw [lastCall_append] at last
    cases later : lastCall calls' virt with
    | none =>
        rw [later] at last
        rw [right.others virt later]
        exact left.others virt last
    | some found =>
        rw [later] at last
        simp at last

/-- Calls whose tables all exist make no new ones. -/
theorem MapSteps.same_tables {root : Nat} {calls : List (Nat × Nat)} {mem mem' : Memory}
    {handed handed' : List Nat} (steps : MapSteps root calls mem handed mem' handed')
    (tree : TableTree mem' root handed')
    (present : ∀ call ∈ calls, ∀ path ∈ prefixes call.1, (tableAt mem root path).isSome)
    {path : TablePath} (length : path.length ≤ 3) :
    tableAt mem' root path = tableAt mem root path := by
  have cost := steps.cost (calls.flatMap fun call => prefixes call.1)
    (fun path member => by
      obtain ⟨call, _, inPrefixes⟩ := List.mem_flatMap.mp member
      exact prefixes_length inPrefixes)
    (fun call member path inPrefixes => List.mem_flatMap.mpr ⟨call, member, inPrefixes⟩)
  have none : missing mem root (calls.flatMap fun call => prefixes call.1) = 0 := by
    refine missing_eq_zero fun path member => ?_
    obtain ⟨call, inCalls, inPrefixes⟩ := List.mem_flatMap.mp member
    exact present call inCalls path inPrefixes
  have same : handed = handed' := steps.suffix.eq_of_length_le (by omega)
  cases before : tableAt mem root path with
  | some table => exact steps.keeps path table length before
  | none =>
      cases after : tableAt mem' root path with
      | none => rfl
      | some table =>
          rcases steps.fresh path table length after with old | new
          · rw [before] at old
            simp at old
          · exact absurd (same ▸ tree.handed path table length after) new

section Leaf

variable {mem : Memory} {root table : Nat} {handed : List Nat} {path : TablePath} {index : Fin 512}

/-- Writing an entry of a last table leaves the tree as it is. -/
theorem tableAt_writeLeaf (tree : TableTree mem root handed)
    (aligned : ∀ frame ∈ handed, frame % 4096 = 0) (reached : tableAt mem root path = some table)
    (length : path.length = 3) (entry : BitVec 64) {target : TablePath}
    (targetLength : target.length ≤ 3) :
    tableAt (writeEntry mem table index entry) root target = tableAt mem root target := by
  apply follow_congr
  intro front j back other split otherReached
  have lengths := congrArg List.length split
  rw [List.length_append, List.length_cons] at lengths
  have otherMem := tree.handed front other (by omega) otherReached
  have tableMem := tree.handed path table (by omega) reached
  apply edge_congr
  apply readEntry_writeEntry_other _ (aligned table tableMem) (aligned other otherMem)
  rintro ⟨rfl, _⟩
  have same := tree.unique front path other (by omega) (by omega) otherReached reached
  rw [same] at lengths
  omega

theorem TableTree.writeLeaf (tree : TableTree mem root handed)
    (aligned : ∀ frame ∈ handed, frame % 4096 = 0) (reached : tableAt mem root path = some table)
    (length : path.length = 3) {entry : BitVec 64} (writable : Writable entry) :
    TableTree (writeEntry mem table index entry) root handed := by
  have same (target : TablePath) (targetLength : target.length ≤ 3) :
      tableAt (writeEntry mem table index entry) root target = tableAt mem root target :=
    tableAt_writeLeaf tree aligned reached length entry targetLength
  refine ⟨?_, tree.unique.of_congr same, ?_⟩
  · intro target other targetLength otherReached
    rw [same target targetLength] at otherReached
    exact tree.handed target other targetLength otherReached
  · intro target other j targetLength otherReached present
    rw [same target targetLength] at otherReached
    by_cases here : other = table ∧ j = index
    · obtain ⟨rfl, rfl⟩ := here
      rw [readEntry_writeEntry]
      exact writable
    · have otherAligned := aligned other (tree.handed target other targetLength otherReached)
      have tableAligned := aligned table (tree.handed path table (by omega) reached)
      rw [readEntry_writeEntry_other _ tableAligned otherAligned here] at present ⊢
      exact tree.writable target other j targetLength otherReached present

theorem leaf_writeLeaf (tree : TableTree mem root handed)
    (aligned : ∀ frame ∈ handed, frame % 4096 = 0) (reached : tableAt mem root path = some table)
    (length : path.length = 3) {entry : BitVec 64} {target : TablePath} {j : Fin 512}
    (targetLength : target.length = 3) (different : ¬(target = path ∧ j = index)) :
    leaf (writeEntry mem table index entry) root target j = leaf mem root target j := by
  refine leaf_congr (tableAt_writeLeaf tree aligned reached length entry (by omega)) ?_
  intro other otherReached
  have otherAligned := aligned other (tree.handed target other (by omega) otherReached)
  have tableAligned := aligned table (tree.handed path table (by omega) reached)
  apply readEntry_writeEntry_other _ tableAligned otherAligned
  rintro ⟨rfl, sameIndex⟩
  exact different ⟨tree.unique target path other (by omega) (by omega) otherReached reached, sameIndex⟩

theorem tableAt_of_same {mem' : Memory}
    (same : ∀ path table, path.length ≤ 3 → tableAt mem root path = some table →
      ∀ address, InFrame table address → mem' address = mem address) {target : TablePath}
    (length : target.length ≤ 4) : tableAt mem' root target = tableAt mem root target := by
  apply follow_congr
  intro front j back other split otherReached
  have lengths := congrArg List.length split
  rw [List.length_append, List.length_cons] at lengths
  have bound := j.isLt
  apply edge_congr
  apply readEntry_congr
  intro address lower upper
  exact same front other (by omega) otherReached address ⟨by omega, by omega⟩

theorem TableTree.of_same (tree : TableTree mem root handed) {mem' : Memory}
    (same : ∀ path table, path.length ≤ 3 → tableAt mem root path = some table →
      ∀ address, InFrame table address → mem' address = mem address) :
    TableTree mem' root handed ∧ ∀ virt, walk mem' root virt = walk mem root virt := by
  have tables (target : TablePath) (length : target.length ≤ 4) :
      tableAt mem' root target = tableAt mem root target := tableAt_of_same same length
  have entries (target : TablePath) (other : Nat) (j : Fin 512) (length : target.length ≤ 3)
      (reached : tableAt mem root target = some other) :
      readEntry mem' other j = readEntry mem other j := by
    have bound := j.isLt
    apply readEntry_congr
    intro address lower upper
    exact same target other length reached address ⟨by omega, by omega⟩
  refine ⟨⟨?_, ?_, ?_⟩, ?_⟩
  · intro target other length reached
    rw [tables target (by omega)] at reached
    exact tree.handed target other length reached
  · exact tree.unique.of_congr fun target length => tables target (by omega)
  · intro target other j length reached present
    rw [tables target (by omega)] at reached
    rw [entries target other j length reached] at present ⊢
    exact tree.writable target other j length reached present
  · intro virt
    rw [walk_eq, walk_eq]
    exact leaf_congr (tables (tablePath virt) (by simp [tablePath])) fun other reached =>
      entries (tablePath virt) other (leafIndex virt) (Nat.le_refl 3) reached

theorem TableTree.mono (tree : TableTree mem root handed) {handed' : List Nat}
    (subset : handed ⊆ handed') : TableTree mem root handed' :=
  ⟨fun path other length reached => subset (tree.handed path other length reached), tree.unique,
    tree.writable⟩

end Leaf

section Call

variable {α : Type} {requestPage : Phys α → Except Fault (Nat × Phys α)}
  {Owned : Phys α → List Nat → Prop} {state state' : Phys α} {root virt phys : Nat}
  {handed : List Nat}

theorem Mapped.request {frame : Nat} (contract : FrameContract requestPage Owned)
    (mapped : Mapped Owned state root handed)
    (run : requestPage state = .ok (frame, state')) :
    Mapped Owned state' root (frame :: handed) ∧
      (∀ path, path.length ≤ 3 → tableAt state'.mem root path = tableAt state.mem root path) ∧
      ∀ virt, walk state'.mem root virt = walk state.mem root virt := by
  have same : ∀ path table, path.length ≤ 3 → tableAt state.mem root path = some table →
      ∀ address, InFrame table address → state'.mem address = state.mem address :=
    fun path table length reached address inside => contract.keeps mapped.owned run table
      (mapped.tree.handed path table length reached) address inside
  obtain ⟨tree, walks⟩ := mapped.tree.of_same same
  exact ⟨⟨contract.request mapped.owned run, tree.mono (List.subset_cons_self _ _)⟩,
    fun path length => tableAt_of_same same (by omega), walks⟩

theorem mapMemory_ok (run : mapMemory requestPage state root virt phys = .ok state') :
    ∃ pdp first pd second pt third,
      nextTable requestPage state root (indexAt virt 39) = .ok (pdp, first) ∧
      nextTable requestPage first pdp (indexAt virt 30) = .ok (pd, second) ∧
      nextTable requestPage second pd (indexAt virt 21) = .ok (pt, third) ∧
      state' = { third with
        mem := writeEntry third.mem pt (leafIndex virt)
          (linkEntry (readEntry third.mem pt (leafIndex virt)) phys) } := by
  simp only [mapMemory, indexer_eq] at run
  obtain ⟨⟨pdp, first⟩, firstRun, run⟩ := Fault.peel run
  obtain ⟨⟨pd, second⟩, secondRun, run⟩ := Fault.peel run
  obtain ⟨⟨pt, third⟩, thirdRun, run⟩ := Fault.peel run
  simp only [readEntry_writeEntry, (linkEntry_flags _ _).1, Bool.true_eq_false, if_false,
    Except.ok.injEq] at run
  exact ⟨pdp, first, pd, second, pt, third, firstRun, secondRun, thirdRun, run.symm⟩

/-- A call that returns extends the tree and maps one page. -/
theorem Mapped.mapMemory (contract : FrameContract requestPage Owned)
    (mapped : Mapped Owned state root handed)
    (run : mapMemory requestPage state root virt phys = .ok state') :
    ∃ handed', Mapped Owned state' root handed' ∧
      MapSteps root [(virt, phys)] state.mem handed state'.mem handed' := by
  obtain ⟨pdp, first, pd, second, pt, third, firstRun, secondRun, thirdRun, stateEq⟩ :=
    mapMemory_ok run
  obtain ⟨firstHanded, firstMapped, firstExtends, firstReached⟩ :=
    mapped.nextTable contract (show tableAt state.mem root [] = some root from rfl) (by decide)
      firstRun
  obtain ⟨secondHanded, secondMapped, secondExtends, secondReached⟩ :=
    firstMapped.nextTable contract firstReached (by simp) secondRun
  obtain ⟨thirdHanded, thirdMapped, thirdExtends, thirdReached⟩ :=
    secondMapped.nextTable contract secondReached (by simp) thirdRun
  have extended := (firstExtends.trans secondExtends).trans thirdExtends
  have reached : tableAt third.mem root (tablePath virt) = some pt := thirdReached
  have aligned := contract.aligned thirdMapped.owned
  have same (target : TablePath) (targetLength : target.length ≤ 3) :
      tableAt (writeEntry third.mem pt (leafIndex virt)
        (linkEntry (readEntry third.mem pt (leafIndex virt)) phys)) root target =
        tableAt third.mem root target :=
    tableAt_writeLeaf thirdMapped.tree aligned reached rfl _ targetLength
  subst stateEq
  refine ⟨thirdHanded, ⟨?_, ?_⟩, ⟨extended.suffix, ?_, ?_, ?_, ?_, ?_⟩⟩
  · apply contract.write thirdMapped.owned
    intro address changed
    exact ⟨pt, thirdMapped.tree.handed (tablePath virt) pt (Nat.le_refl 3) reached, writeEntry_inFrame _ changed⟩
  · exact thirdMapped.tree.writeLeaf aligned reached rfl (linkEntry_flags _ _)
  · intro path table length old
    rw [same path length]
    exact extended.keeps path table length old
  · intro path table length new
    rw [same path length] at new
    exact extended.fresh path table length new
  · intro paths lengths needed
    have cost := extended.cost paths lengths (needed (virt, phys) (by simp))
    have equal : missing (writeEntry third.mem pt (leafIndex virt)
        (linkEntry (readEntry third.mem pt (leafIndex virt)) phys)) root paths =
          missing third.mem root paths := by
      apply List.countP_congr
      intro path member
      rw [same path (lengths path member)]
    rw [equal]
    exact cost
  · intro other found last
    simp only [lastCall] at last
    by_cases same' : SamePage other virt
    · simp only [same', if_true, Option.none_or, Option.some.injEq] at last
      subst last
      refine ⟨readEntry third.mem pt (leafIndex virt), ?_⟩
      rw [walk_samePage same', walk_eq, leaf_some _ ((same (tablePath virt) (Nat.le_refl 3)).trans
        reached), readEntry_writeEntry, presentEntry, if_pos (linkEntry_flags _ _).1]
    · simp [same'] at last
  · intro other last
    have different : ¬SamePage other virt := by
      intro same'
      simp [lastCall, same'] at last
    have notHere : ¬(tablePath other = tablePath virt ∧ leafIndex other = leafIndex virt) :=
      fun same => different ((samePage_path other virt).mpr same)
    rw [walk_eq, walk_eq, ← extended.leaf (tablePath other) (leafIndex other) rfl]
    exact leaf_writeLeaf thirdMapped.tree aligned reached rfl rfl notHere

theorem Mapped.mapAll (contract : FrameContract requestPage Owned) {calls : List (Nat × Nat)}
    (mapped : Mapped Owned state root handed)
    (run : mapAll requestPage state root calls = .ok state') :
    ∃ handed', Mapped Owned state' root handed' ∧
      MapSteps root calls state.mem handed state'.mem handed' := by
  induction calls generalizing state handed with
  | nil =>
      rw [OkeOS.mapAll, Except.ok.injEq] at run
      subst run
      exact ⟨handed, mapped, MapSteps.refl _ _ _⟩
  | cons call rest ih =>
      obtain ⟨between, first, later⟩ := Fault.peel run
      obtain ⟨handed', mapped', step⟩ := mapped.mapMemory contract first
      obtain ⟨handed'', mapped'', steps⟩ := ih mapped' later
      exact ⟨handed'', mapped'', step.trans steps⟩

/-! Calls return as long as the allocator has frames for the missing tables. -/

variable {supply : Nat} {paths : List TablePath}

theorem missing_pos {mem : Memory} {path : TablePath} (member : path ∈ paths)
    (absent : tableAt mem root path = none) : 0 < missing mem root paths := by
  rw [missing, List.countP_pos_iff]
  exact ⟨path, member, by rw [absent]; rfl⟩

theorem Mapped.nextTable_total (path : TablePath) (index : Fin 512)
    (contract : FrameContract requestPage Owned) {table : Nat}
    (supplied : ∀ state handed, Owned state handed → handed.length < supply →
      ∃ frame between, requestPage state = .ok (frame, between))
    (lengths : ∀ path ∈ paths, path.length ≤ 3) (needed : path ++ [index] ∈ paths)
    (mapped : Mapped Owned state root handed)
    (enough : handed.length + missing state.mem root paths ≤ supply)
    (reached : tableAt state.mem root path = some table) (shorter : path.length < 3) :
    ∃ next after handed', OkeOS.nextTable requestPage state table index = .ok (next, after) ∧
      Mapped Owned after root handed' ∧ handed'.length + missing after.mem root paths ≤ supply ∧
      tableAt after.mem root (path ++ [index]) = some next := by
  have returns : ∃ next after, OkeOS.nextTable requestPage state table index = .ok (next, after) := by
    cases present : edge state.mem table index with
    | some next =>
        have set := (edge_present present).1
        simp only [OkeOS.nextTable]
        rw [if_neg (by rw [set]; simp)]
        exact ⟨_, _, rfl⟩
    | none =>
        have absent : tableAt state.mem root (path ++ [index]) = none := by
          rw [tableAt, follow_snoc, show follow (edge state.mem) root path = some table from reached]
          exact present
        have positive := missing_pos needed absent
        exact OkeOS.nextTable_total (supplied state handed mapped.owned (by omega))
  obtain ⟨next, after, run⟩ := returns
  obtain ⟨handed', mapped', extended, reached'⟩ := mapped.nextTable contract reached shorter run
  have cost := extended.cost paths lengths (by simpa using needed)
  exact ⟨next, after, handed', run, mapped', by omega, reached'⟩

theorem Mapped.mapMemory_total (virt phys : Nat) (contract : FrameContract requestPage Owned)
    (supplied : ∀ state handed, Owned state handed → handed.length < supply →
      ∃ frame between, requestPage state = .ok (frame, between))
    (lengths : ∀ path ∈ paths, path.length ≤ 3) (needed : ∀ path ∈ prefixes virt, path ∈ paths)
    (mapped : Mapped Owned state root handed)
    (enough : handed.length + missing state.mem root paths ≤ supply) :
    ∃ after, OkeOS.mapMemory requestPage state root virt phys = .ok after := by
  obtain ⟨pdp, first, handed1, firstRun, mapped1, enough1, reached1⟩ :=
    mapped.nextTable_total [] (indexAt virt 39) contract supplied lengths
      (needed _ (by simp [prefixes])) enough rfl (by decide)
  obtain ⟨pd, second, handed2, secondRun, mapped2, enough2, reached2⟩ :=
    mapped1.nextTable_total _ (indexAt virt 30) contract supplied lengths
      (needed _ (by simp [prefixes])) enough1 reached1 (by simp)
  obtain ⟨pt, third, handed3, thirdRun, _, _, _⟩ :=
    mapped2.nextTable_total _ (indexAt virt 21) contract supplied lengths
      (needed _ (by simp [prefixes, tablePath])) enough2 reached2 (by simp)
  simp only [indexAt] at firstRun secondRun thirdRun
  simp only [OkeOS.mapMemory, indexer_eq, firstRun, secondRun, thirdRun, Bind.bind, Except.bind,
    readEntry_writeEntry, (linkEntry_flags _ _).1, Bool.true_eq_false, if_false]
  exact ⟨_, rfl⟩

theorem Mapped.mapAll_total (contract : FrameContract requestPage Owned) {calls : List (Nat × Nat)}
    (supplied : ∀ state handed, Owned state handed → handed.length < supply →
      ∃ frame between, requestPage state = .ok (frame, between))
    (lengths : ∀ path ∈ paths, path.length ≤ 3)
    (needed : ∀ call ∈ calls, ∀ path ∈ prefixes call.1, path ∈ paths)
    (mapped : Mapped Owned state root handed)
    (enough : handed.length + missing state.mem root paths ≤ supply) :
    ∃ after, OkeOS.mapAll requestPage state root calls = .ok after := by
  induction calls generalizing state handed with
  | nil => exact ⟨state, rfl⟩
  | cons call rest ih =>
      obtain ⟨between, first⟩ := mapped.mapMemory_total call.1 call.2 contract supplied lengths
        (needed call (by simp)) enough
      obtain ⟨handed', mapped', step⟩ := mapped.mapMemory contract first
      have cost := step.cost paths lengths (by simpa using needed call (by simp))
      obtain ⟨after, later⟩ := ih (fun other member => needed other (by simp [member])) mapped'
        (by omega)
      refine ⟨after, ?_⟩
      rw [OkeOS.mapAll, first]
      exact later

end Call

end OkeOS
