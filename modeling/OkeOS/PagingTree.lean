import OkeOS.FrameContract
import OkeOS.PagingEntries
import OkeOS.PathTree

/-!
The page tables as a tree in memory.  Every table within three steps of the root is a
frame of its own, so writing one entry changes nothing that is read through another.
-/

namespace OkeOS

open ByteMemory PathTree PageDirectoryEntry

/-- A path of indices from the root. -/
abbrev TablePath := List (Fin 512)

def edge (mem : Memory) (table : Nat) (index : Fin 512) : Option Nat := child mem table index.val

def tableAt (mem : Memory) (root : Nat) (path : TablePath) : Option Nat :=
  follow (edge mem) root path

def presentEntry (entry : BitVec 64) : Option (BitVec 64) :=
  if getFlag entry .present = true then some entry else none

/-- The entry at `index` of the table at `path`, if it is present. -/
def leaf (mem : Memory) (root : Nat) (path : TablePath) (index : Fin 512) : Option (BitVec 64) :=
  (tableAt mem root path).bind fun table => presentEntry (readEntry mem table index)

def Writable (entry : BitVec 64) : Prop :=
  getFlag entry .present = true ∧ getFlag entry .readWrite = true ∧ getFlag entry .nx = false

structure TableTree (mem : Memory) (root : Nat) (handed : List Nat) : Prop where
  handed : ∀ path table, path.length ≤ 3 → tableAt mem root path = some table → table ∈ handed
  unique : Unique (edge mem) root 3
  writable : ∀ path table (index : Fin 512), path.length ≤ 3 → tableAt mem root path = some table →
    getFlag (readEntry mem table index) .present = true → Writable (readEntry mem table index)

section Entries

variable {mem : Memory} {first second : Nat} {i j : Fin 512}

theorem readEntry_writeEntry_other (entry : BitVec 64) (firstAligned : first % 4096 = 0)
    (secondAligned : second % 4096 = 0) (different : ¬(second = first ∧ j = i)) :
    readEntry (writeEntry mem first i entry) second j = readEntry mem second j := by
  have iBound := i.isLt
  have jBound := j.isLt
  have apart : ¬(second = first ∧ j.val = i.val) := by
    rintro ⟨sameTable, sameIndex⟩
    exact different ⟨sameTable, Fin.ext sameIndex⟩
  apply readEntry_congr
  intro address lower upper
  apply writeEntry_outside
  omega

theorem readEntry_memset_other (firstAligned : first % 4096 = 0) (secondAligned : second % 4096 = 0)
    (different : second ≠ first) :
    readEntry (memset mem first 0 0x1000) second j = readEntry mem second j := by
  have jBound := j.isLt
  apply readEntry_congr
  intro address lower upper
  apply memset_outside
  omega

theorem readEntry_memset_same : readEntry (memset mem first 0 0x1000) first j = 0#64 := by
  have jBound := j.isLt
  apply readEntry_zeros
  intro address lower upper
  rw [memset_apply, if_pos (by omega)]
  rfl

theorem writeEntry_inFrame (entry : BitVec 64) {address : Nat}
    (changed : writeEntry mem first i entry address ≠ mem address) : InFrame first address := by
  have iBound := i.isLt
  by_contra outside
  apply changed
  apply writeEntry_outside
  unfold InFrame at outside
  omega

end Entries

theorem edge_present {mem : Memory} {table next : Nat} {index : Fin 512}
    (present : edge mem table index = some next) :
    getFlag (readEntry mem table index) .present = true ∧
      (getAddress (readEntry mem table index) <<< 12).toNat = next := by
  simp only [edge, child] at present
  split at present
  · rename_i set
    exact ⟨set, Option.some.inj present⟩
  · simp at present

theorem edge_of_entry {mem : Memory} {table frame : Nat} {index : Fin 512} (entry : BitVec 64)
    (stored : readEntry mem table index = linkEntry entry frame) (aligned : frame % 4096 = 0)
    (bound : frame < 2 ^ 52) : edge mem table index = some frame := by
  have address := linkEntry_address entry bound
  simp only [edge, child, stored, (linkEntry_flags entry frame).1, if_true]
  rw [frame_toNat, address]
  congr 1
  omega

theorem edge_congr {mem mem' : Memory} {table : Nat} {index : Fin 512}
    (same : readEntry mem' table index = readEntry mem table index) :
    edge mem' table index = edge mem table index :=
  child_congr same

theorem leaf_some {mem : Memory} {root table : Nat} {path : TablePath} (index : Fin 512)
    (reached : tableAt mem root path = some table) :
    leaf mem root path index = presentEntry (readEntry mem table index) := by
  rw [leaf, reached, Option.bind_some]

theorem leaf_none {mem : Memory} {root : Nat} {path : TablePath} (index : Fin 512)
    (missing : tableAt mem root path = none) : leaf mem root path index = none := by
  rw [leaf, missing, Option.bind_none]

theorem leaf_congr {mem mem' : Memory} {root : Nat} {path : TablePath} {index : Fin 512}
    (same : tableAt mem' root path = tableAt mem root path)
    (entries : ∀ table, tableAt mem root path = some table →
      readEntry mem' table index = readEntry mem table index) :
    leaf mem' root path index = leaf mem root path index := by
  cases reached : tableAt mem root path with
  | none => rw [leaf_none index reached, leaf_none index (same.trans reached)]
  | some table =>
      rw [leaf_some index reached, leaf_some index (same.trans reached), entries table reached]

/-- The memory with a zeroed table at `next`, linked at entry `index` of `table`. -/
def linkMem (mem : Memory) (table : Nat) (index : Fin 512) (entry : BitVec 64) (next : Nat) :
    Memory :=
  writeEntry (memset mem next 0 0x1000) table index (linkEntry entry next)

section Step

variable {α : Type} {requestPage : Phys α → Except Fault (Nat × Phys α)}
  {state state' : Phys α} {table next : Nat} {index : Fin 512}

/-- `nextTable` follows a present entry, or links a new table. -/
theorem nextTable_ok (run : nextTable requestPage state table index = .ok (next, state')) :
    (edge state.mem table index = some next ∧ state' = state) ∨
      (edge state.mem table index = none ∧ ∃ between, requestPage state = .ok (next, between) ∧
        state' = { between with
          mem := linkMem between.mem table index (readEntry state.mem table index) next }) := by
  simp only [nextTable] at run
  split at run
  · rename_i absent
    have none : edge state.mem table index = none := by
      simp [edge, child, absent]
    cases request : requestPage state with
    | error fault => simp [request, Bind.bind, Except.bind] at run
    | ok result =>
        obtain ⟨frame, between⟩ := result
        simp only [request, Bind.bind, Except.bind, readEntry_writeEntry,
          (linkEntry_flags _ _).1] at run
        simp only [Bool.true_eq_false, if_false, Except.ok.injEq, Prod.mk.injEq] at run
        obtain ⟨rfl, rfl⟩ := run
        exact Or.inr ⟨none, between, rfl, rfl⟩
  · rename_i present
    simp only [Except.ok.injEq, Prod.mk.injEq] at run
    refine Or.inl ⟨?_, run.2.symm⟩
    rw [Bool.not_eq_false] at present
    simp only [edge, child, present, if_true, run.1]

theorem nextTable_total (total : ∃ frame between, requestPage state = .ok (frame, between)) :
    ∃ frame after, nextTable requestPage state table index = .ok (frame, after) := by
  obtain ⟨frame, between, request⟩ := total
  simp only [nextTable]
  split
  · simp only [request, Bind.bind, Except.bind, readEntry_writeEntry, (linkEntry_flags _ _).1]
    exact ⟨_, _, rfl⟩
  · exact ⟨_, _, rfl⟩

end Step

/-- The number of paths of a list that lead to no table. -/
def missing (mem : Memory) (root : Nat) (paths : List TablePath) : Nat :=
  paths.countP fun path => (tableAt mem root path).isNone

/-- The tables only grow: with frames that were not handed out before, at `targets`, and
without a change to what is mapped. -/
structure Extends (root : Nat) (targets : List TablePath) (mem : Memory) (handed : List Nat)
    (mem' : Memory) (handed' : List Nat) : Prop where
  suffix : handed <:+ handed'
  keeps : ∀ path table, path.length ≤ 3 → tableAt mem root path = some table →
    tableAt mem' root path = some table
  fresh : ∀ path table, path.length ≤ 3 → tableAt mem' root path = some table →
    tableAt mem root path = some table ∨ table ∉ handed
  leaf : ∀ path index, path.length = 3 → leaf mem' root path index = leaf mem root path index
  cost : ∀ paths : List TablePath, (∀ path ∈ paths, path.length ≤ 3) →
    (∀ target ∈ targets, target ∈ paths) →
    handed'.length + missing mem' root paths ≤ handed.length + missing mem root paths

theorem Extends.refl (root : Nat) (targets : List TablePath) (mem : Memory) (handed : List Nat) :
    Extends root targets mem handed mem handed where
  suffix := List.suffix_refl handed
  keeps := fun _ _ _ reached => reached
  fresh := fun _ _ _ reached => Or.inl reached
  leaf := fun _ _ _ => rfl
  cost := fun _ _ _ => Nat.le_refl _

theorem Extends.trans {root : Nat} {targets targets' : List TablePath} {mem mem' mem'' : Memory}
    {handed handed' handed'' : List Nat} (left : Extends root targets mem handed mem' handed')
    (right : Extends root targets' mem' handed' mem'' handed'') :
    Extends root (targets ++ targets') mem handed mem'' handed'' where
  suffix := left.suffix.trans right.suffix
  keeps := fun path table length reached =>
    right.keeps path table length (left.keeps path table length reached)
  fresh := by
    intro path table length reached
    rcases right.fresh path table length reached with old | new
    · exact left.fresh path table length old
    · exact Or.inr fun member => new (left.suffix.subset member)
  leaf := fun path index length => (right.leaf path index length).trans (left.leaf path index length)
  cost := by
    intro paths lengths needed
    have leftCost := left.cost paths lengths fun target member => needed target (by simp [member])
    have rightCost := right.cost paths lengths fun target member => needed target (by simp [member])
    omega

theorem missing_eq_zero {mem : Memory} {root : Nat} {paths : List TablePath}
    (present : ∀ path ∈ paths, (tableAt mem root path).isSome) : missing mem root paths = 0 := by
  rw [missing, List.countP_eq_zero]
  intro path member
  rw [Bool.not_eq_true, Option.isNone_eq_false_iff]
  exact present path member

theorem missing_le {mem mem' : Memory} {root : Nat} (paths : List TablePath)
    (keeps : ∀ path ∈ paths, ∀ table, tableAt mem root path = some table →
      tableAt mem' root path = some table) :
    missing mem' root paths ≤ missing mem root paths := by
  apply List.countP_mono_left
  intro path member absent
  cases before : tableAt mem root path with
  | none => rfl
  | some table =>
      rw [keeps path member table before] at absent
      exact absent

theorem missing_lt {mem mem' : Memory} {root next : Nat} {paths : List TablePath}
    {target : TablePath} (member : target ∈ paths) (before : tableAt mem root target = none)
    (after : tableAt mem' root target = some next)
    (keeps : ∀ path ∈ paths, ∀ table, tableAt mem root path = some table →
      tableAt mem' root path = some table) :
    missing mem' root paths < missing mem root paths := by
  obtain ⟨front, back, split⟩ := List.append_of_mem member
  subst split
  have frontLe := missing_le front fun path inFront => keeps path (by simp [inFront])
  have backLe := missing_le back fun path inBack => keeps path (by simp [inBack])
  simp only [missing, List.countP_append, List.countP_cons, before, after] at *
  simp
  omega

section Contract

variable {α : Type} {requestPage : Phys α → Except Fault (Nat × Phys α)}
  {Owned : Phys α → List Nat → Prop} {state state' : Phys α} {root table next : Nat}
  {handed : List Nat} {path : TablePath} {index : Fin 512}

/-- The page tables of a state whose callers own `handed`. -/
structure Mapped (Owned : Phys α → List Nat → Prop) (state : Phys α) (root : Nat)
    (handed : List Nat) : Prop where
  owned : Owned state handed
  tree : TableTree state.mem root handed

/-- The entries of the old tables survive the linking of a new one. -/
theorem readEntry_linkMem {between : Phys α} (contract : FrameContract requestPage Owned)
    (owned : Owned state handed) (request : requestPage state = .ok (next, between))
    (entry : BitVec 64) (tableMem : table ∈ handed) {other : Nat} {j : Fin 512}
    (otherMem : other ∈ handed) (different : ¬(other = table ∧ j = index)) :
    readEntry (linkMem between.mem table index entry next) other j =
      readEntry state.mem other j := by
  have nextAligned := contract.aligned (contract.request owned request) next (by simp)
  have otherAligned := contract.aligned owned other otherMem
  have apart : other ≠ next := by
    rintro rfl
    exact contract.fresh owned request otherMem
  have jBound := j.isLt
  rw [linkMem, readEntry_writeEntry_other _ (contract.aligned owned table tableMem) otherAligned
    different, readEntry_memset_other nextAligned otherAligned apart]
  apply readEntry_congr
  intro address lower upper
  exact contract.keeps owned request other otherMem address ⟨by omega, by omega⟩

theorem readEntry_linkMem_next (mem : Memory) (entry : BitVec 64) (tableAligned : table % 4096 = 0)
    (nextAligned : next % 4096 = 0) (different : next ≠ table) (j : Fin 512) :
    readEntry (linkMem mem table index entry next) next j = 0#64 := by
  rw [linkMem, readEntry_writeEntry_other _ tableAligned nextAligned (by tauto)]
  exact readEntry_memset_same

theorem Mapped.grown {between : Phys α} (contract : FrameContract requestPage Owned)
    (mapped : Mapped Owned state root handed) (reached : tableAt state.mem root path = some table)
    (shorter : path.length < 3) (absent : edge state.mem table index = none)
    (request : requestPage state = .ok (next, between)) (entry : BitVec 64) :
    Grown (edge state.mem) (edge (linkMem between.mem table index entry next)) root 3 path index
      table next := by
  have tableMem := mapped.tree.handed path table (by omega) reached
  have requested := contract.request mapped.owned request
  have nextAligned := contract.aligned requested next (by simp)
  have nextBound := contract.bound requested next (by simp)
  have notHanded := contract.fresh mapped.owned request
  refine ⟨reached, shorter, absent, ?_, ?_, ?_, ?_⟩
  · refine edge_of_entry entry ?_ nextAligned nextBound
    rw [linkMem, readEntry_writeEntry]
  · intro j
    apply child_zero
    refine readEntry_linkMem_next _ _ (contract.aligned mapped.owned table tableMem) nextAligned ?_ j
    rintro rfl
    exact notHanded tableMem
  · rintro ⟨other, length, otherReached⟩
    exact notHanded (mapped.tree.handed other next length otherReached)
  · rintro other j ⟨otherPath, length, otherReached⟩ different
    apply edge_congr
    exact readEntry_linkMem contract mapped.owned request entry tableMem
      (mapped.tree.handed otherPath other length otherReached) different

theorem Mapped.link {between : Phys α} (contract : FrameContract requestPage Owned)
    (mapped : Mapped Owned state root handed) (reached : tableAt state.mem root path = some table)
    (shorter : path.length < 3) (absent : edge state.mem table index = none)
    (request : requestPage state = .ok (next, between)) (entry : BitVec 64) :
    Mapped Owned { between with mem := linkMem between.mem table index entry next } root
        (next :: handed) ∧
      Extends root [path ++ [index]] state.mem handed
        (linkMem between.mem table index entry next) (next :: handed) ∧
      tableAt (linkMem between.mem table index entry next) root (path ++ [index]) = some next := by
  have grown := mapped.grown contract reached shorter absent request entry
  have unique := mapped.tree.unique
  have tableMem := mapped.tree.handed path table (by omega) reached
  have requested := contract.request mapped.owned request
  have nextAligned := contract.aligned requested next (by simp)
  have tableAligned := contract.aligned mapped.owned table tableMem
  have notHanded := contract.fresh mapped.owned request
  have apart : next ≠ table := by
    rintro rfl
    exact notHanded tableMem
  have before : tableAt state.mem root (path ++ [index]) = none := by
    rw [tableAt, follow_snoc, show follow (edge state.mem) root path = some table from reached]
    exact absent
  have keeps : ∀ target other, target.length ≤ 3 → tableAt state.mem root target = some other →
      tableAt (linkMem between.mem table index entry next) root target = some other := by
    intro target other length otherReached
    have different : target ≠ path ++ [index] := by
      rintro rfl
      rw [before] at otherReached
      simp at otherReached
    rw [tableAt, grown.follow_other unique length different]
    exact otherReached
  refine ⟨⟨?_, ?_, grown.unique unique, ?_⟩, ⟨List.suffix_cons next handed, keeps, ?_, ?_, ?_⟩,
    grown.follow_new unique⟩
  · apply contract.write requested
    intro address changed
    by_cases inTable : InFrame table address
    · exact ⟨table, by simp [tableMem], inTable⟩
    · refine ⟨next, by simp, ?_⟩
      by_contra outside
      apply changed
      rw [linkMem]
      by_contra different
      by_cases written : writeEntry (memset between.mem next 0 0x1000) table index
          (linkEntry entry next) address = memset between.mem next 0 0x1000 address
      · rw [written] at different
        exact different (memset_outside _ (by unfold InFrame at outside; omega))
      · exact inTable (writeEntry_inFrame _ written)
  · intro target other length otherReached
    rcases grown.follow_cases unique length otherReached with ⟨_, isNext⟩ | ⟨_, old⟩
    · simp [isNext]
    · exact List.mem_cons_of_mem _ (mapped.tree.handed target other length old)
  · intro target other j length otherReached present
    rcases grown.follow_cases unique length otherReached with ⟨_, isNext⟩ | ⟨_, old⟩
    · rw [isNext, readEntry_linkMem_next _ _ tableAligned nextAligned apart] at present
      exact absurd present (by decide)
    · have otherMem := mapped.tree.handed target other length old
      by_cases same : other = table ∧ j = index
      · obtain ⟨rfl, rfl⟩ := same
        rw [linkMem, readEntry_writeEntry]
        exact linkEntry_flags _ _
      · rw [readEntry_linkMem contract mapped.owned request entry tableMem otherMem same] at present ⊢
        exact mapped.tree.writable target other j length old present
  · intro target other length otherReached
    rcases grown.follow_cases unique length otherReached with ⟨_, isNext⟩ | ⟨_, old⟩
    · exact Or.inr (isNext ▸ notHanded)
    · exact Or.inl old
  · intro target j length
    by_cases same : target = path ++ [index]
    · rw [same, leaf_none j before, leaf_some j (grown.follow_new unique),
        readEntry_linkMem_next _ _ tableAligned nextAligned apart]
      decide
    · refine leaf_congr (grown.follow_other unique (by omega) same) ?_
      intro other old
      have otherMem := mapped.tree.handed target other (by omega) old
      refine readEntry_linkMem contract mapped.owned request entry tableMem otherMem ?_
      rintro ⟨rfl, _⟩
      have samePath := unique target path other (by omega) (by omega) old reached
      rw [samePath] at length
      omega
  · intro paths lengths needed
    have less := missing_lt (needed _ (by simp)) before (grown.follow_new unique)
      fun target member other otherReached => keeps target other (lengths target member) otherReached
    rw [List.length_cons]
    omega

/-- One level down: the table at `path ++ [index]` exists afterwards. -/
theorem Mapped.nextTable (contract : FrameContract requestPage Owned)
    (mapped : Mapped Owned state root handed) (reached : tableAt state.mem root path = some table)
    (shorter : path.length < 3)
    (run : nextTable requestPage state table index = .ok (next, state')) :
    ∃ handed', Mapped Owned state' root handed' ∧
      Extends root [path ++ [index]] state.mem handed state'.mem handed' ∧
      tableAt state'.mem root (path ++ [index]) = some next := by
  rcases nextTable_ok run with ⟨present, rfl⟩ | ⟨absent, between, request, rfl⟩
  · refine ⟨handed, mapped, Extends.refl _ _ _ _, ?_⟩
    rw [tableAt, follow_snoc, show follow (edge state'.mem) root path = some table from reached]
    exact present
  · exact ⟨_, mapped.link contract reached shorter absent request _⟩

end Contract

end OkeOS
