import OkeOS.FramePool
import OkeOS.PagingRun

/-!
The page tables without their memory.  An address space is a partial function from pages to
frames; the tables are the paths of the tree that have one, and each of them takes the lowest free
frame from the same allocator as everybody else.
-/

namespace OkeOS

open ByteMemory PathTree PageDirectoryEntry PageFrameAllocator Session

instance (entry : BitVec 64) : Decidable (Writable entry) := inferInstanceAs (Decidable (_ ∧ _ ∧ _))

/-- The address that a walk of the tables as they stand gives for `virt`, if every entry on the way
is present and lets the kernel write and execute.  A processor may still hold an older translation
of a page that was mapped before; the source never invalidates one. -/
def access (mem : Memory) (root virt : Nat) : Option Nat :=
  (walkEntries mem root (pageMapIndexerFrom virt).path).bind fun entries =>
    if entries.all fun entry => decide (Writable entry) then
      entries.getLast?.map fun entry => (getAddress entry).toNat * 4096 + virt % 4096
    else none

/-- Bits 12 to 47. -/
def pageNumber (virt : Nat) : Nat := virt / 4096 % 2 ^ 36

inductive PageRequest
  | mapMemory (virt phys : Nat)
  | access (virt : Nat)
  | requestPage
  | freePage (frame : Nat)
  | getFreeRAM

/-- `pool` holds all frames that are handed out and `clients` those that are not page tables;
`tables` are the paths of the tables below the root. -/
structure AddressSpace where
  pool : Finset Nat
  clients : Finset Nat
  tables : Finset TablePath
  pages : Nat → Option Nat

namespace AddressSpace

section

variable (memmap : List MemmapEntry) (space : AddressSpace)

/-- The table at `path`, which takes a frame if it is new. -/
def link (path : TablePath) : Option AddressSpace :=
  if path ∈ space.tables then some space
  else
    (FramePool.serve memmap space.pool .requestPage).map fun served =>
      { space with pool := served.2, tables := insert path space.tables }

def setPage (virt phys : Nat) : AddressSpace :=
  { space with pages := Function.update space.pages (pageNumber virt) (some (phys / 4096 % 2 ^ 40)) }

def mapMemory (virt phys : Nat) : Option AddressSpace :=
  ((prefixes virt).foldlM (link memmap) space).map (setPage · virt phys)

/-- With a zeroed table at `root` and the frames of `clients`. -/
def zeroed (root : Nat) (clients : Finset Nat) : AddressSpace where
  pool := insert root clients
  clients := clients
  tables := ∅
  pages := fun _ => none

/-- A request that panics ends the session. -/
def serve : PageRequest → Option (Option Nat × AddressSpace)
  | .mapMemory virt phys => (space.mapMemory memmap virt phys).map (none, ·)
  | .access virt => some ((space.pages (pageNumber virt)).map (· * 4096 + virt % 4096), space)
  | .requestPage =>
      (FramePool.serve memmap space.pool .requestPage).map fun served =>
        (some served.1, { space with pool := served.2, clients := insert served.1 space.clients })
  | .freePage frame =>
      if frame ∈ space.clients then
        some (none, { space with pool := space.pool.erase frame, clients := space.clients.erase frame })
      else none
  | .getFreeRAM => some (some (FramePool.left memmap space.pool), space)

end

end AddressSpace

/-- The memory, with the frames that callers of the allocator other than the page tables hold. -/
structure PagedState where
  state : Phys Globals
  clients : Finset Nat

/-- A call that returns, or an access through the tables, after any number of writes of callers into
their frames. -/
inductive PageServes (root : Nat) : PagedState → PageRequest → Option Nat → PagedState → Prop
  | write {first last : PagedState} {request : PageRequest} {reply : Option Nat}
      {frame address : Nat} (byte : UInt8) (member : frame ∈ first.clients)
      (inside : InFrame frame address) :
      PageServes root { first with state :=
          { first.state with mem := writeByte first.state.mem address byte } } request reply last →
      PageServes root first request reply last
  | mapMemory {first : PagedState} {virt phys : Nat} {state : Phys Globals}
      (run : mapMemory requestPage first.state root virt phys = .ok state) :
      PageServes root first (.mapMemory virt phys) none { first with state := state }
  | access (first : PagedState) (virt : Nat) :
      PageServes root first (.access virt) (access first.state.mem root virt) first
  | requestPage {first : PagedState} {frame : Nat} {state : Phys Globals}
      (run : requestPage first.state = .ok (frame, state)) :
      PageServes root first .requestPage (some frame)
        { state := state, clients := insert frame first.clients }
  | freePage {first : PagedState} {frame : Nat} (member : frame ∈ first.clients) :
      PageServes root first (.freePage frame) none
        { state := freePage first.state frame, clients := first.clients.erase frame }
  | getFreeRAM (first : PagedState) :
      PageServes root first .getFreeRAM (some (getFreeRAM first.state)) first

/-- The tables in memory are those of the address space, in frames that no caller holds. -/
structure SpaceInv (memmap : List MemmapEntry) (root : Nat) (state : Phys Globals)
    (handed : List Nat) (space : AddressSpace) : Prop extends
    Pooled memmap state handed space.pool where
  tree : TableTree state.mem root handed
  held : ∀ frame ∈ space.clients, frame ∈ handed
  apart : ∀ path table, path.length ≤ 3 → tableAt state.mem root path = some table →
    table ∉ space.clients
  present : ∀ path : TablePath, path.length ≤ 3 → path ≠ [] →
    (path ∈ space.tables ↔ (tableAt state.mem root path).isSome)
  pages : ∀ virt, (walk state.mem root virt).map (fun entry => (getAddress entry).toNat) =
    space.pages (pageNumber virt)

section

variable {memmap : List MemmapEntry} {root : Nat} {state state' : Phys Globals}
  {handed handed' : List Nat} {space space' : AddressSpace} {pool clients : Finset Nat}

theorem SpaceInv.mapped (inv : SpaceInv memmap root state handed space) :
    Mapped (FrameInv memmap) state root handed := ⟨inv.inv, inv.tree⟩

/-! Steps that leave the tables alone. -/

theorem SpaceInv.kept (inv : SpaceInv memmap root state handed space)
    (pooled : Pooled memmap state' handed' pool) (held : ∀ frame ∈ clients, frame ∈ handed')
    (same : ∀ path table, path.length ≤ 3 → tableAt state.mem root path = some table →
      table ∈ handed' ∧ table ∉ clients ∧
        ∀ address, InFrame table address → state'.mem address = state.mem address) :
    SpaceInv memmap root state' handed' { space with pool := pool, clients := clients } := by
  have bytes : ∀ path table, path.length ≤ 3 → tableAt state.mem root path = some table →
      ∀ address, InFrame table address → state'.mem address = state.mem address :=
    fun path table length reached => (same path table length reached).2.2
  have tables (path : TablePath) (length : path.length ≤ 3) :
      tableAt state'.mem root path = tableAt state.mem root path :=
    tableAt_of_same bytes (by omega)
  obtain ⟨tree, walks⟩ := inv.tree.of_same bytes
  refine ⟨pooled, ⟨?_, tree.unique, tree.writable⟩, held, ?_, ?_, ?_⟩
  · intro path table length reached
    rw [tables path length] at reached
    exact (same path table length reached).1
  · intro path table length reached
    rw [tables path length] at reached
    exact (same path table length reached).2.1
  · intro path length below
    rw [inv.present path length below, tables path length]
  · intro virt
    rw [walks virt]
    exact inv.pages virt

theorem SpaceInv.write {frame address : Nat} (inv : SpaceInv memmap root state handed space)
    (valid : ValidMap memmap) (byte : UInt8) (member : frame ∈ space.clients)
    (inside : InFrame frame address) :
    SpaceInv memmap root { state with mem := writeByte state.mem address byte } handed space := by
  have aligned := (FrameInv.contract valid).aligned inv.inv
  have changed : ∀ other, writeByte state.mem address byte other ≠ state.mem other →
      other = address := by
    intro other different
    by_contra elsewhere
    exact different (writeByte_other _ _ elsewhere)
  refine inv.kept ⟨inv.inv.write valid fun other different => ?_, inv.frames⟩ inv.held ?_
  · rw [changed other different]
    exact ⟨frame, inv.held frame member, inside⟩
  · intro path table length reached
    have tableMem := inv.tree.handed path table length reached
    refine ⟨tableMem, inv.apart path table length reached, fun other inTable => ?_⟩
    by_contra different
    rw [changed other different] at inTable
    have same := inFrame_unique (aligned table tableMem) (aligned frame (inv.held frame member))
      inTable inside
    exact inv.apart path table length reached (same ▸ member)

theorem SpaceInv.requestPage {frame : Nat} (inv : SpaceInv memmap root state handed space)
    (valid : ValidMap memmap) (run : requestPage state = .ok (frame, state')) :
    SpaceInv memmap root state' (frame :: handed)
      { space with pool := insert frame space.pool, clients := insert frame space.clients } := by
  refine inv.kept (inv.request valid run) ?_ ?_
  · intro other member
    rcases Finset.mem_insert.mp member with rfl | old
    · exact List.mem_cons_self
    · exact List.mem_cons_of_mem _ (inv.held other old)
  · intro path table length reached
    have tableMem := inv.tree.handed path table length reached
    refine ⟨List.mem_cons_of_mem _ tableMem, ?_,
      fun address inside => inv.inv.owned.keeps run tableMem inside⟩
    rw [Finset.mem_insert, not_or]
    constructor
    · rintro rfl
      exact inv.inv.owned.fresh run tableMem
    · exact inv.apart path table length reached

/-- The bit of a frame lies outside the frames that are handed out. -/
theorem PageFrameAllocator.Owned.freePage_keeps {frame other address : Nat}
    (owned : Owned state handed) (freed : frame ∈ handed) (member : other ∈ handed)
    (inside : InFrame other address) : (freePage state frame).mem address = state.mem address := by
  have limitEq := owned.limit_eq
  obtain ⟨freedSlot, freedBelow, freedEq, set, _⟩ := owned.frames frame freed
  obtain ⟨slot, below, frameEq, _, apart⟩ := owned.frames other member
  obtain ⟨lower, upper⟩ := inside
  rw [show freedSlot = frame / 4096 by omega] at set
  rw [freePage_eq state frame set]
  refine Bitmap.set_outside _ _ _ fun same => apart ?_
  constructor
  · omega
  · omega

theorem SpaceInv.freePage {frame : Nat} (inv : SpaceInv memmap root state handed space)
    (valid : ValidMap memmap) (member : frame ∈ space.clients) :
    SpaceInv memmap root (freePage state frame) (handed.erase frame)
      { space with pool := space.pool.erase frame, clients := space.clients.erase frame } := by
  have freed := inv.held frame member
  refine inv.kept (inv.free valid freed) ?_ ?_
  · intro other left
    obtain ⟨different, old⟩ := Finset.mem_erase.mp left
    exact (List.mem_erase_of_ne different).mpr (inv.held other old)
  · intro path table length reached
    have tableMem := inv.tree.handed path table length reached
    have notClient := inv.apart path table length reached
    have different : table ≠ frame := by
      rintro rfl
      exact notClient member
    exact ⟨(List.mem_erase_of_ne different).mpr tableMem,
      fun left => notClient (Finset.mem_of_mem_erase left),
      fun address inside => inv.inv.owned.freePage_keeps freed tableMem inside⟩

/-! One table on the way of `PageTable_MapMemory`. -/

theorem SpaceInv.link {table next : Nat} {path : TablePath} {index : Fin 512}
    {between : Phys Globals} (inv : SpaceInv memmap root state handed space)
    (valid : ValidMap memmap) (reached : tableAt state.mem root path = some table)
    (shorter : path.length < 3) (absent : edge state.mem table index = none)
    (request : PageFrameAllocator.requestPage state = .ok (next, between)) (entry : BitVec 64) :
    SpaceInv memmap root { between with mem := linkMem between.mem table index entry next }
      (next :: handed)
      { space with pool := insert next space.pool, tables := insert (path ++ [index]) space.tables } := by
  have contract := FrameInv.contract valid
  have grown := inv.mapped.grown contract reached shorter absent request entry
  have unique := inv.tree.unique
  obtain ⟨mapped, extends_, found⟩ := inv.mapped.link contract reached shorter absent request entry
  have notHanded := contract.fresh inv.inv request
  refine ⟨⟨mapped.owned, (inv.request valid request).frames⟩, mapped.tree, ?_, ?_, ?_, ?_⟩
  · intro other member
    exact List.mem_cons_of_mem _ (inv.held other member)
  · intro target other length otherReached
    rcases grown.follow_cases unique length otherReached with ⟨_, isNext⟩ | ⟨_, old⟩
    · rw [isNext]
      exact fun member => notHanded (inv.held next member)
    · exact inv.apart target other length old
  · intro target length below
    rw [Finset.mem_insert]
    by_cases new : target = path ++ [index]
    · rw [new, found]
      simp
    · rw [inv.present target length below, tableAt, tableAt,
        grown.follow_other unique length new]
      simp [new]
  · intro virt
    rw [walk_eq, extends_.leaf (tablePath virt) (leafIndex virt) rfl, ← walk_eq]
    exact inv.pages virt

/-- The allocator and its model give a frame together. -/
theorem PageFrameAllocator.Pooled.together (pooled : Pooled memmap state handed pool)
    (valid : ValidMap memmap) :
    Together (fun (result : Nat × Phys Globals) served => served = (result.1, insert result.1 pool))
      (requestPage state) (FramePool.serve memmap pool .requestPage) := by
  cases request : requestPage state with
  | ok result => exact Or.inl ⟨result, _, rfl, pooled.requested valid request, rfl⟩
  | error fault =>
      refine Or.inr ⟨⟨fault, rfl⟩, ?_⟩
      rw [FramePool.serve, if_pos]
      by_contra enough
      obtain ⟨result, run⟩ := pooled.returns valid (by omega)
      rw [run] at request
      cases request

/-- What holds after a table: the tree is that of the address space, and leads there. -/
def Leads (memmap : List MemmapEntry) (root : Nat) (path : TablePath) (clients : Finset Nat)
    (result : Nat × Phys Globals) (space : AddressSpace) : Prop :=
  space.clients = clients ∧ tableAt result.2.mem root path = some result.1 ∧
    ∃ handed, SpaceInv memmap root result.2 handed space

theorem SpaceInv.nextTable {table : Nat} {path : TablePath} (index : Fin 512)
    (inv : SpaceInv memmap root state handed space) (valid : ValidMap memmap)
    (reached : tableAt state.mem root path = some table) (shorter : path.length < 3) :
    Together (Leads memmap root (path ++ [index]) space.clients)
      (OkeOS.nextTable PageFrameAllocator.requestPage state table index)
      (space.link memmap (path ++ [index])) := by
  have below : tableAt state.mem root (path ++ [index]) = edge state.mem table index := by
    rw [tableAt, follow_snoc, show follow (edge state.mem) root path = some table from reached]
    rfl
  have known := inv.present (path ++ [index])
    (by rw [List.length_append, List.length_singleton]; omega) (by simp)
  rw [below] at known
  cases present : edge state.mem table index with
  | some next =>
      have set := edge_present present
      have member : path ++ [index] ∈ space.tables := by
        rw [known, present]
        rfl
      refine Or.inl ⟨(next, state), space, ?_, if_pos member, rfl, below.trans present, handed, inv⟩
      simp only [OkeOS.nextTable, set.1, set.2, Bool.true_eq_false, if_false]
  | none =>
      have new : path ++ [index] ∉ space.tables := by
        rw [known, present]
        simp
      have clear : getFlag (readEntry state.mem table index) .present = false := by
        by_contra set
        rw [Bool.not_eq_false] at set
        simp [edge, child, set] at present
      rw [AddressSpace.link, if_neg new]
      rcases inv.together valid with ⟨result, served, request, serve, rfl⟩ | ⟨⟨fault, failed⟩, refused⟩
      · obtain ⟨next, state', run⟩ : ∃ next state',
            OkeOS.nextTable PageFrameAllocator.requestPage state table index = .ok (next, state') :=
          nextTable_total ⟨result.1, result.2, request⟩
        rcases nextTable_ok run with ⟨old, _⟩ | ⟨_, between, request', rfl⟩
        · rw [present] at old
          cases old
        · rw [request, Except.ok.injEq] at request'
          rw [request'] at request serve
          have linked := inv.link valid reached shorter present request
            (readEntry state.mem table index)
          refine Or.inl ⟨_, _, run, by rw [serve, Option.map_some], ?_, ?_, _, linked⟩
          · rfl
          · exact (inv.mapped.link (FrameInv.contract valid) reached shorter present request
              (readEntry state.mem table index)).2.2
      · refine Or.inr ⟨⟨fault, ?_⟩, by rw [refused]; rfl⟩
        simp only [OkeOS.nextTable, clear, if_true, failed]
        rfl

/-! The page itself. -/

theorem linkEntry_frame (entry : BitVec 64) (address : Nat) :
    (getAddress (linkEntry entry address)).toNat = address / 4096 % 2 ^ 40 := by
  have low : (BitVec.ofNat 64 address >>> 12).toNat = address % 2 ^ 64 / 4096 := by
    rw [BitVec.toNat_ushiftRight, BitVec.toNat_ofNat, Nat.shiftRight_eq_div_pow]
  have mask : (0x000000ffffffffff#64).toNat = 2 ^ 40 - 1 := by decide
  simp only [linkEntry]
  rw [getAddress_setFlag _ _ _ (by decide), getAddress_setFlag _ _ _ (by decide),
    getAddress_setFlag _ _ _ (by decide), getAddress_setAddress, BitVec.toNat_and, low, mask,
    Nat.and_two_pow_sub_one_eq_mod]
  omega

theorem SpaceInv.setPage {virt pt : Nat} (inv : SpaceInv memmap root state handed space)
    (valid : ValidMap memmap) (reached : tableAt state.mem root (tablePath virt) = some pt)
    (phys : Nat) :
    SpaceInv memmap root { state with
        mem := writeEntry state.mem pt (leafIndex virt)
          (linkEntry (readEntry state.mem pt (leafIndex virt)) phys) } handed
      (space.setPage virt phys) := by
  have aligned := (FrameInv.contract valid).aligned inv.inv
  have same (path : TablePath) (length : path.length ≤ 3) :=
    @tableAt_writeLeaf state.mem root pt handed (tablePath virt) (leafIndex virt) inv.tree aligned
      reached rfl (linkEntry (readEntry state.mem pt (leafIndex virt)) phys) path length
  refine ⟨⟨inv.inv.write valid fun address changed => ?_, inv.frames⟩,
    inv.tree.writeLeaf aligned reached rfl (linkEntry_flags _ _), inv.held, ?_, ?_, ?_⟩
  · exact ⟨pt, inv.tree.handed (tablePath virt) pt (Nat.le_refl 3) reached,
      writeEntry_inFrame _ changed⟩
  · intro path table length found
    rw [same path length] at found
    exact inv.apart path table length found
  · intro path length below
    rw [same path length]
    exact inv.present path length below
  · intro other
    rw [walk_eq, AddressSpace.setPage]
    by_cases samePage : SamePage other virt
    · obtain ⟨samePath, sameIndex⟩ := (samePage_path other virt).mp samePage
      rw [samePath, sameIndex, leaf_some _ ((same (tablePath virt) (Nat.le_refl 3)).trans reached),
        readEntry_writeEntry, presentEntry, if_pos (linkEntry_flags _ _).1, Option.map_some,
        linkEntry_frame, show pageNumber other = pageNumber virt from samePage]
      simp only [Function.update_self]
    · have different : ¬(tablePath other = tablePath virt ∧ leafIndex other = leafIndex virt) :=
        fun both => samePage ((samePage_path other virt).mpr both)
      rw [leaf_writeLeaf inv.tree aligned reached rfl rfl different, ← walk_eq, inv.pages other]
      simp only [Function.update_of_ne (show pageNumber other ≠ pageNumber virt from samePage)]

/-- A call maps its page in the address space, or both fail. -/
theorem SpaceInv.mapMemory (virt phys : Nat) (inv : SpaceInv memmap root state handed space)
    (valid : ValidMap memmap) :
    Together (fun state' space' => space'.clients = space.clients ∧
        ∃ handed', SpaceInv memmap root state' handed' space')
      (OkeOS.mapMemory PageFrameAllocator.requestPage state root virt phys)
      (space.mapMemory memmap virt phys) := by
  have code : OkeOS.mapMemory PageFrameAllocator.requestPage state root virt phys = (do
      let pdp ←
        OkeOS.nextTable PageFrameAllocator.requestPage state root (indexAt virt 39 : Fin 512)
      let pd ←
        OkeOS.nextTable PageFrameAllocator.requestPage pdp.2 pdp.1 (indexAt virt 30 : Fin 512)
      let pt ←
        OkeOS.nextTable PageFrameAllocator.requestPage pd.2 pd.1 (indexAt virt 21 : Fin 512)
      .ok { pt.2 with
        mem := writeEntry pt.2.mem pt.1 (leafIndex virt)
          (linkEntry (readEntry pt.2.mem pt.1 (leafIndex virt)) phys) }) := by
    simp only [OkeOS.mapMemory, indexer_eq, readEntry_writeEntry, (linkEntry_flags _ _).1,
      Bool.true_eq_false, if_false]
    rfl
  have model : space.mapMemory memmap virt phys = (do
      let space ← space.link memmap ([] ++ [indexAt virt 39])
      let space ← space.link memmap (([] ++ [indexAt virt 39]) ++ [indexAt virt 30])
      let space ← space.link memmap ((([] ++ [indexAt virt 39]) ++ [indexAt virt 30]) ++
        [indexAt virt 21])
      some (space.setPage virt phys)) := by
    simp only [AddressSpace.mapMemory, prefixes, List.foldlM_cons, List.foldlM_nil,
      Option.bind_eq_bind, Option.map_bind, Function.comp_def, Option.pure_def, Option.map_some,
      List.nil_append, List.cons_append, tablePath]
  rw [code, model]
  refine (inv.nextTable (indexAt virt 39) valid
    (show tableAt state.mem root [] = some root from rfl) (by decide)).bind ?_
  rintro ⟨pdp, first⟩ space1 ⟨clients1, reached1, handed1, inv1⟩
  refine (inv1.nextTable (indexAt virt 30) valid reached1 (by simp)).bind ?_
  rintro ⟨pd, second⟩ space2 ⟨clients2, reached2, handed2, inv2⟩
  refine (inv2.nextTable (indexAt virt 21) valid reached2 (by simp)).bind ?_
  rintro ⟨pt, third⟩ space3 ⟨clients3, reached3, handed3, inv3⟩
  exact Or.inl ⟨_, _, rfl, rfl, (clients3.trans clients2).trans clients1, handed3,
    inv3.setPage valid reached3 phys⟩

/-- What the processor gets is what the address space says. -/
theorem SpaceInv.access (inv : SpaceInv memmap root state handed space) (virt : Nat) :
    OkeOS.access state.mem root virt =
      (space.pages (pageNumber virt)).map (· * 4096 + virt % 4096) := by
  rw [← inv.pages virt]
  cases found : walk state.mem root virt with
  | none =>
      rw [walk] at found
      rw [OkeOS.access]
      cases along : walkEntries state.mem root (pageMapIndexerFrom virt).path with
      | none => rfl
      | some entries =>
          rw [along, Option.bind_some] at found
          simp [found]
  | some entry =>
      obtain ⟨entries, along, _, last, writable⟩ := walk_entries inv.tree found
      have all : entries.all (fun entry => decide (Writable entry)) = true :=
        List.all_eq_true.mpr fun entry member => decide_eq_true (writable entry member)
      rw [OkeOS.access, along, Option.bind_some, if_pos all, last]
      rfl

/-- The table that `_start` makes. -/
theorem SpaceInv.zeroed (valid : ValidMap memmap) (inv : FrameInv memmap state handed)
    (made : newTable PageFrameAllocator.requestPage state = .ok (root, state')) :
    SpaceInv memmap root state' (root :: handed) (.zeroed root handed.toFinset) := by
  obtain ⟨mapped, notHanded, zero⟩ := newTable_mapped (FrameInv.contract valid) inv made
  have empty (index : Fin 512) : edge state'.mem root index = none := by
    have bound := index.isLt
    refine child_zero (readEntry_zeros fun address lower upper => zero address ⟨by omega, by omega⟩)
  have none (path : TablePath) (below : path ≠ []) : tableAt state'.mem root path = none := by
    cases path with
    | nil => exact absurd rfl below
    | cons index rest =>
        rw [tableAt, follow, empty]
        rfl
  refine ⟨⟨mapped.owned, List.toFinset_cons⟩, mapped.tree, ?_, ?_, ?_, ?_⟩
  · intro frame member
    exact List.mem_cons_of_mem _ (List.mem_toFinset.mp member)
  · intro path table _ reached
    by_cases below : path = []
    · rw [below] at reached
      rw [← Option.some.inj reached]
      exact fun member => notHanded (List.mem_toFinset.mp member)
    · rw [none path below] at reached
      cases reached
  · intro path _ below
    rw [none path below]
    exact iff_of_false (Finset.notMem_empty path) Bool.false_ne_true
  · intro virt
    rw [walk_zeroed zero virt]
    rfl

end

/-! Sessions. -/

def SpaceModels (memmap : List MemmapEntry) (root : Nat) (first : PagedState) (space : AddressSpace) :
    Prop :=
  first.clients = space.clients ∧ ∃ handed, SpaceInv memmap root first.state handed space

section

variable {memmap : List MemmapEntry} {root : Nat} {first last : PagedState}
  {space space' : AddressSpace} {request : PageRequest} {reply : Option Nat}

theorem PageServes.forth (valid : ValidMap memmap) (models : SpaceModels memmap root first space)
    (served : PageServes root first request reply last) :
    ∃ space', space.serve memmap request = some (reply, space') ∧
      SpaceModels memmap root last space' := by
  obtain ⟨clients, handed, inv⟩ := models
  induction served generalizing handed with
  | write byte member inside _ ih => exact ih clients _ (inv.write valid byte (clients ▸ member) inside)
  | mapMemory run =>
      obtain ⟨space', mapped, kept, handed', inv'⟩ := (inv.mapMemory _ _ valid).forth run
      exact ⟨space', by rw [AddressSpace.serve, mapped]; rfl, clients.trans kept.symm, handed', inv'⟩
  | access first virt => exact ⟨space, by rw [AddressSpace.serve, inv.access], clients, handed, inv⟩
  | requestPage run =>
      refine ⟨_, by rw [AddressSpace.serve, inv.requested valid run]; rfl, ?_, _,
        inv.requestPage valid run⟩
      rw [clients]
  | freePage member =>
      refine ⟨_, if_pos (clients ▸ member), ?_, _, inv.freePage valid (clients ▸ member)⟩
      rw [clients]
  | getFreeRAM first =>
      exact ⟨space, by rw [AddressSpace.serve, inv.freeRAM], clients, handed, inv⟩

theorem PageServes.back (valid : ValidMap memmap) (models : SpaceModels memmap root first space)
    (served : space.serve memmap request = some (reply, space')) :
    ∃ last, PageServes root first request reply last ∧ SpaceModels memmap root last space' := by
  have step {reply' : Option Nat} {last : PagedState}
      (step : PageServes root first request reply' last) :
      ∃ last, PageServes root first request reply last ∧ SpaceModels memmap root last space' := by
    obtain ⟨space'', served', models'⟩ := step.forth valid models
    rw [served, Option.some.injEq, Prod.mk.injEq] at served'
    obtain ⟨rfl, rfl⟩ := served'
    exact ⟨last, step, models'⟩
  obtain ⟨clients, handed, inv⟩ := models
  cases request with
  | mapMemory virt phys =>
      obtain ⟨_, mapped, _⟩ := Option.map_eq_some_iff.mp served
      obtain ⟨state, run, _⟩ := (inv.mapMemory virt phys valid).back mapped
      exact step (.mapMemory run)
  | access virt => exact step (.access first virt)
  | requestPage =>
      obtain ⟨_, requested, _⟩ := Option.map_eq_some_iff.mp served
      obtain ⟨result, run, _⟩ := (inv.together valid).back requested
      exact step (.requestPage run)
  | freePage frame =>
      rw [AddressSpace.serve] at served
      split at served
      · rename_i member
        exact step (.freePage (clients ▸ member))
      · cases served
  | getFreeRAM => exact step (.getFreeRAM first)

/-- From its first table on, the page tables and the callers of the allocator together serve the
sessions that the address space serves, with the same replies. -/
theorem addressSpace_session {state state' : Phys Globals} {handed : List Nat}
    (valid : ValidMap memmap) (run : FrameRun memmap state handed)
    (made : newTable requestPage state = .ok (root, state')) (requests : List PageRequest)
    (replies : List (Option Nat)) :
    (∃ last, Session.Run (PageServes root) { state := state', clients := handed.toFinset } requests
        replies last) ↔
      ∃ space, Session.replay (AddressSpace.serve memmap) (.zeroed root handed.toFinset) requests =
        some (replies, space) := by
  have refines : Session.Refines (PageServes root) (AddressSpace.serve memmap)
      (SpaceModels memmap root) := ⟨PageServes.forth valid, PageServes.back valid⟩
  have models : SpaceModels memmap root { state := state', clients := handed.toFinset }
      (.zeroed root handed.toFinset) := ⟨rfl, _, .zeroed valid (run.inv valid) made⟩
  constructor
  · rintro ⟨last, session⟩
    obtain ⟨space, replayed, _⟩ := refines.run_forth models session
    exact ⟨space, replayed⟩
  · rintro ⟨space, replayed⟩
    obtain ⟨last, session, _⟩ := refines.run_back models replayed
    exact ⟨last, session⟩

end

/-- Three tables for the first page, none for the page beside it, and a frame in between. -/
theorem addressSpace_session_smallMap : ∃ root state last, Session.Run (PageServes root)
    { state := state, clients := ∅ }
    [.access 0x800123, .mapMemory 0x800000 0xb8000, .requestPage, .mapMemory 0x801000 0xfee00000,
      .access 0x800123, .access 0x801fff, .access 0x802000, .freePage 0x6000, .requestPage,
      .mapMemory 0x800000 0x6000, .access 0x800123, .getFreeRAM]
    [none, none, some 0x6000, none, some 0xb8123, some 0xfee00fff, none, none, some 0x6000, none,
      some 0x6123, some 0xa000] last := by
  obtain ⟨booted, boot⟩ := init_succeeds smallMap poweredOn (by decide)
  have run := FrameRun.init (by decide) boot
  have inv := run.inv smallMap_valid
  obtain ⟨root, state, made⟩ := newTable_total smallMap_valid inv (by decide)
  obtain ⟨⟨table, between⟩, request, result⟩ := Fault.peel made
  have first := Pooled.requested ⟨inv, rfl⟩ smallMap_valid request
  have rootEq : root = 0x2000 := by
    rw [List.toFinset_nil, show FramePool.serve smallMap ∅ .requestPage =
      some (0x2000, insert 0x2000 ∅) by decide] at first
    cases result
    exact (congrArg Prod.fst (Option.some.inj first)).symm
  obtain ⟨⟨_, space⟩, replayed, repliesEq⟩ := Option.map_eq_some_iff.mp
    (show (Session.replay (AddressSpace.serve smallMap) (.zeroed 0x2000 ∅)
      [.access 0x800123, .mapMemory 0x800000 0xb8000, .requestPage, .mapMemory 0x801000 0xfee00000,
        .access 0x800123, .access 0x801fff, .access 0x802000, .freePage 0x6000, .requestPage,
        .mapMemory 0x800000 0x6000, .access 0x800123, .getFreeRAM]).map Prod.fst =
      some [none, none, some 0x6000, none, some 0xb8123, some 0xfee00fff, none, none, some 0x6000,
        none, some 0x6123, some 0xa000] by decide +kernel)
  subst rootEq repliesEq
  obtain ⟨last, session⟩ := (addressSpace_session smallMap_valid run made _ _).mpr ⟨space, replayed⟩
  exact ⟨_, state, last, session⟩

end OkeOS
