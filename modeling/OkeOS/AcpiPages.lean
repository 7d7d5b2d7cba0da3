import OkeOS.AcpiTables
import OkeOS.BootMap

/-!
The pages that `findTable` reads.  It maps the page in which a table starts and no other one, so
a table that reaches into the next page is read there only if something else has mapped it.
-/

namespace OkeOS

open ByteMemory PageDirectoryEntry

/-- The page of `address` is mapped to itself. -/
def IdentityMapped (mem : Memory) (root address : Nat) : Prop :=
  ∃ entry, walk mem root address = some entry ∧ (getAddress entry).toNat = address / 4096

def identityCalls (pages : List Nat) : List (Nat × Nat) := pages.map fun page => (page, page)

/-- The address lies on a page of the list, or on one that was mapped to itself before. -/
def PageCovered (mem : Memory) (root : Nat) (pages : List Nat) (address : Nat) : Prop :=
  (∃ page ∈ pages, page / 4096 = address / 4096) ∨ IdentityMapped mem root address

theorem PageCovered.append {mem : Memory} {root : Nat} {pages : List Nat} {address : Nat}
    (covered : PageCovered mem root pages address) (more : List Nat) :
    PageCovered mem root (pages ++ more) address := by
  rcases covered with ⟨page, member, same⟩ | before
  · exact .inl ⟨page, by simp [member], same⟩
  · exact .inr before

theorem identityMapped_iff {mem mem' : Memory} {root address : Nat} {pages handed handed' : List Nat}
    (steps : MapSteps root (identityCalls pages) mem handed mem' handed')
    (small : ∀ page ∈ pages, page < 2 ^ 48) (bound : address < 2 ^ 48) :
    IdentityMapped mem' root address ↔ PageCovered mem root pages address := by
  cases last : lastCall (identityCalls pages) address with
  | none =>
      have notHere : ¬∃ page ∈ pages, page / 4096 = address / 4096 := by
        rintro ⟨page, member, same⟩
        have call : (page, page) ∈ identityCalls pages := List.mem_map.mpr ⟨page, member, rfl⟩
        obtain ⟨phys, found⟩ := @lastCall_of_mem _ address _ call (by unfold SamePage; omega)
        rw [last] at found
        simp at found
      rw [IdentityMapped, steps.others address last, PageCovered, or_iff_right notHere]
      rfl
  | some phys =>
      obtain ⟨call, member, same, rfl⟩ := lastCall_some last
      obtain ⟨page, inPages, rfl⟩ := List.mem_map.mp member
      have pageBound := small page inPages
      obtain ⟨entry, found⟩ := steps.mapped address page last
      have samePage : page / 4096 = address / 4096 := by
        unfold SamePage at same
        omega
      refine iff_of_true ⟨_, found, ?_⟩ (.inl ⟨page, inPages, samePage⟩)
      rw [linkEntry_address entry (by omega), samePage]

theorem mapAll_snoc {α : Type} {requestPage : Phys α → Except Fault (Nat × Phys α)}
    {state between : Phys α} {root : Nat} {calls : List (Nat × Nat)}
    (run : mapAll requestPage state root calls = .ok between) (call : Nat × Nat) :
    mapAll requestPage state root (calls ++ [call]) =
      mapMemory requestPage between root call.1 call.2 := by
  induction calls generalizing state with
  | nil =>
      rw [mapAll, Except.ok.injEq] at run
      subst run
      rw [List.nil_append, mapAll]
      cases mapMemory requestPage state root call.1 call.2 <;> rfl
  | cons first rest ih =>
      obtain ⟨next, made, later⟩ := Fault.peel run
      rw [List.cons_append, mapAll, made]
      exact ih later

theorem mapAll_first {α : Type} {requestPage : Phys α → Except Fault (Nat × Phys α)}
    {state after : Phys α} {root : Nat} {calls more : List (Nat × Nat)}
    (run : mapAll requestPage state root (calls ++ more) = .ok after) :
    ∃ between, mapAll requestPage state root calls = .ok between := by
  induction calls generalizing state with
  | nil => exact ⟨state, rfl⟩
  | cons first rest ih =>
      obtain ⟨next, made, later⟩ := Fault.peel run
      obtain ⟨between, reached⟩ := ih later
      exact ⟨between, by rw [mapAll, made]; exact reached⟩

theorem strncmpReads_range {mem : Memory} {str1 num address : Nat} {str2 : List UInt8}
    (member : address ∈ strncmpReads mem str1 str2 num) : str1 ≤ address ∧ address < str1 + num := by
  induction num generalizing str1 str2 with
  | zero => simp [strncmpReads] at member
  | succ num ih =>
      rw [strncmpReads, List.mem_cons] at member
      rcases member with rfl | later
      · omega
      · split at later
        · have range := ih later
          omega
        · simp at later

namespace ACPI

section

variable {α : Type} (requestPage : Phys α → Except Fault (Nat × Phys α)) (firmware : Memory)
  (state : Phys α) (globalPageTable rsdt : Nat)

/-- What `findTable` has mapped before round `i`. -/
def pagesBefore (i : Nat) : List Nat := rsdt :: pointers firmware rsdt 0 i

/-- `PageTable_MapMemory` returns for all of the pages. -/
def Maps (pages : List Nat) : Prop :=
  ∃ state', mapAll requestPage state globalPageTable (identityCalls pages) = .ok state'

/-- The reads of round `i`: the bytes of the entry are covered by what is mapped before the
round, those of the signature by that and the page of the table. -/
structure RoundCovered (i : Nat) : Prop where
  entry : ∀ offset < 4, PageCovered state.mem globalPageTable (pagesBefore firmware rsdt i)
    (rsdt + sizeofACPISDTHeader + 4 * i + offset)
  signature : Maps requestPage state globalPageTable (pagesBefore firmware rsdt (i + 1)) →
    ∀ address ∈ strncmpReads firmware (RSDT.pointerToOtherSDT firmware rsdt i) (text "FACP") 4,
      PageCovered state.mem globalPageTable (pagesBefore firmware rsdt (i + 1)) address

/-- The rounds that take place: no earlier table has the signature, and their pages were mapped. -/
def RoundTaken (i : Nat) : Prop :=
  (∀ earlier < i, ¬HasSignature firmware (text "FACP") (RSDT.pointerToOtherSDT firmware rsdt earlier)) ∧
    Maps requestPage state globalPageTable (pagesBefore firmware rsdt i)

/-- The `Length` lies on the page of the header, and the reads of every round are covered. -/
structure LayoutCovered : Prop where
  length : ∀ offset < 4, PageCovered state.mem globalPageTable [rsdt] (rsdt + 4 + offset)
  rounds : ∀ i < (ACPISDTHeader.length firmware rsdt - sizeofACPISDTHeader) / 4,
    RoundTaken requestPage firmware state globalPageTable rsdt i →
      RoundCovered requestPage firmware state globalPageTable rsdt i

end

/-- Every byte is read from a page that is mapped to itself at that moment. -/
def ReadsMapped (root : Nat) (reads : List TableRead) : Prop :=
  ∀ read ∈ reads, IdentityMapped read.mem root read.address

theorem readsMapped_append {root : Nat} (first second : List TableRead) :
    ReadsMapped root (first ++ second) ↔ ReadsMapped root first ∧ ReadsMapped root second := by
  rw [ReadsMapped, List.forall_mem_append]
  rfl

theorem readsMapped_tableReads {root : Nat} (mem : Memory) (address width : Nat) :
    ReadsMapped root (tableReads mem address width) ↔
      ∀ offset < width, IdentityMapped mem root (address + offset) := by
  simp [ReadsMapped, tableReads]

theorem readsMapped_map {root : Nat} (mem : Memory) (addresses : List Nat) :
    ReadsMapped root (addresses.map fun address => { address := address, mem := mem }) ↔
      ∀ address ∈ addresses, IdentityMapped mem root address := by
  simp [ReadsMapped]

theorem entries_toNat (firmware : Memory) (rsdt : Nat) :
    (entries (ACPISDTHeader.length firmware rsdt)).toNat =
      (ACPISDTHeader.length firmware rsdt - sizeofACPISDTHeader) / 4 := by
  have small : ACPISDTHeader.length firmware rsdt < 2 ^ 32 := load_lt firmware (rsdt + 4) 4
  by_cases long : sizeofACPISDTHeader ≤ ACPISDTHeader.length firmware rsdt
  · exact entries_eq long
  · have wrapped : 2 ^ 31 ≤ sub64 (ACPISDTHeader.length firmware rsdt) sizeofACPISDTHeader / 4 %
        2 ^ 32 := by
      rw [sub64, sizeofACPISDTHeader] at *
      omega
    rw [entries, toInt32, if_neg (by omega)]
    omega

theorem pagesBefore_succ (firmware : Memory) (rsdt i : Nat) :
    pagesBefore firmware rsdt (i + 1) =
      pagesBefore firmware rsdt i ++ [RSDT.pointerToOtherSDT firmware rsdt i] := by
  rw [pagesBefore, pagesBefore, pointers, pointers, List.range'_concat, List.map_append]
  simp

theorem pagesBefore_small {firmware : Memory} {rsdt i page : Nat} (word : rsdt < 2 ^ 32)
    (member : page ∈ pagesBefore firmware rsdt i) : page < 2 ^ 32 := by
  rcases List.mem_cons.mp member with rfl | inPointers
  · exact word
  · obtain ⟨j, _, rfl⟩ := List.mem_map.mp inPointers
    exact load_lt firmware _ 4

section

variable {α : Type} {requestPage : Phys α → Except Fault (Nat × Phys α)}
  {Owned : Phys α → List Nat → Prop} {firmware : Memory} {state between : Phys α}
  {globalPageTable rsdt : Nat} {handed : List Nat}

theorem pagesBefore_maps {i j : Nat} (le : i ≤ j)
    (maps : Maps requestPage state globalPageTable (pagesBefore firmware rsdt j)) :
    Maps requestPage state globalPageTable (pagesBefore firmware rsdt i) := by
  induction j, le using Nat.le_induction with
  | base => exact maps
  | succ j _ ih =>
      obtain ⟨after, run⟩ := maps
      rw [pagesBefore_succ, identityCalls, List.map_append] at run
      exact ih (mapAll_first run)

/-- After the mapping of the pages, exactly the covered addresses are mapped to themselves. -/
theorem mapped_iff (contract : FrameContract requestPage Owned)
    (mapped : Mapped Owned state globalPageTable handed) (word : rsdt < 2 ^ 32) {i address : Nat}
    (run : mapAll requestPage state globalPageTable (identityCalls (pagesBefore firmware rsdt i)) =
      .ok between) (bound : address < 2 ^ 48) :
    IdentityMapped between.mem globalPageTable address ↔
      PageCovered state.mem globalPageTable (pagesBefore firmware rsdt i) address := by
  obtain ⟨handed', _, steps⟩ := mapped.mapAll contract run
  refine identityMapped_iff steps (fun page member => ?_) bound
  have small := pagesBefore_small word member
  omega

theorem round_mapped_iff (contract : FrameContract requestPage Owned)
    (mapped : Mapped Owned state globalPageTable handed) (word : rsdt < 2 ^ 32) {i : Nat}
    {after : Phys α} (few : i < 2 ^ 30)
    (run : mapAll requestPage state globalPageTable (identityCalls (pagesBefore firmware rsdt i)) =
      .ok between)
    (next : mapAll requestPage state globalPageTable
      (identityCalls (pagesBefore firmware rsdt (i + 1))) = .ok after) :
    ReadsMapped globalPageTable
        (tableReads between.mem (rsdt + sizeofACPISDTHeader + 4 * i) 4 ++
          (tableReads after.mem (rsdt + sizeofACPISDTHeader + 4 * i) 4 ++
            (strncmpReads firmware (RSDT.pointerToOtherSDT firmware rsdt i) (text "FACP") 4).map
              fun address => { address := address, mem := after.mem })) ↔
      RoundCovered requestPage firmware state globalPageTable rsdt i := by
  have entryBound (offset : Nat) (less : offset < 4) :
      rsdt + sizeofACPISDTHeader + 4 * i + offset < 2 ^ 48 := by
    rw [sizeofACPISDTHeader]
    omega
  have letterBound (address : Nat) (member : address ∈ strncmpReads firmware
      (RSDT.pointerToOtherSDT firmware rsdt i) (text "FACP") 4) : address < 2 ^ 48 := by
    have range := strncmpReads_range member
    have small : RSDT.pointerToOtherSDT firmware rsdt i < 2 ^ 32 := load_lt firmware _ 4
    omega
  rw [readsMapped_append, readsMapped_append, readsMapped_tableReads, readsMapped_tableReads,
    readsMapped_map]
  constructor
  · rintro ⟨entry, _, signature⟩
    constructor
    · intro offset less
      exact (mapped_iff contract mapped word run (entryBound offset less)).mp (entry offset less)
    · intro _ address member
      exact (mapped_iff contract mapped word next (letterBound address member)).mp
        (signature address member)
  · rintro ⟨entry, signature⟩
    refine ⟨?_, ?_, ?_⟩
    · intro offset less
      exact (mapped_iff contract mapped word run (entryBound offset less)).mpr (entry offset less)
    · intro offset less
      rw [mapped_iff contract mapped word next (entryBound offset less), pagesBefore_succ]
      exact (entry offset less).append _
    · intro address member
      exact (mapped_iff contract mapped word next (letterBound address member)).mpr
        (signature ⟨after, next⟩ address member)

/-- The loop from round `i` on reads mapped memory only, exactly when its rounds are covered. -/
theorem findLoop_mapped_iff (contract : FrameContract requestPage Owned)
    (mapped : Mapped Owned state globalPageTable handed) (word : rsdt < 2 ^ 32) {rounds i : Nat}
    (reads : List TableRead) (few : i + rounds ≤ 2 ^ 30)
    (unmatched : ∀ earlier < i,
      ¬HasSignature firmware (text "FACP") (RSDT.pointerToOtherSDT firmware rsdt earlier))
    (run : mapAll requestPage state globalPageTable (identityCalls (pagesBefore firmware rsdt i)) =
      .ok between) :
    ReadsMapped globalPageTable
        (findLoop requestPage firmware globalPageTable rsdt rounds i reads between).reads ↔
      ReadsMapped globalPageTable reads ∧ ∀ j, i ≤ j → j < i + rounds →
        RoundTaken requestPage firmware state globalPageTable rsdt j →
          RoundCovered requestPage firmware state globalPageTable rsdt j := by
  induction rounds generalizing i reads between with
  | zero =>
      rw [findLoop]
      refine ⟨fun good => ⟨good, ?_⟩, And.left⟩
      intro j lower upper
      omega
  | succ rounds ih =>
      have here : RoundTaken requestPage firmware state globalPageTable rsdt i :=
        ⟨unmatched, between, run⟩
      have next := mapAll_snoc run
        (RSDT.pointerToOtherSDT firmware rsdt i, RSDT.pointerToOtherSDT firmware rsdt i)
      rw [show identityCalls (pagesBefore firmware rsdt i) ++
          [(RSDT.pointerToOtherSDT firmware rsdt i, RSDT.pointerToOtherSDT firmware rsdt i)] =
            identityCalls (pagesBefore firmware rsdt (i + 1)) by
        rw [pagesBefore_succ, identityCalls, identityCalls, List.map_append]; rfl] at next
      rw [findLoop]
      cases made : mapMemory requestPage between globalPageTable
          (RSDT.pointerToOtherSDT firmware rsdt i) (RSDT.pointerToOtherSDT firmware rsdt i) with
      | error fault =>
          have stuck : ¬Maps requestPage state globalPageTable (pagesBefore firmware rsdt (i + 1)) := by
            rintro ⟨after, returned⟩
            rw [next, made] at returned
            cases returned
          have entryMapped : ReadsMapped globalPageTable
              (tableReads between.mem (rsdt + sizeofACPISDTHeader + 4 * i) 4) ↔
                RoundCovered requestPage firmware state globalPageTable rsdt i := by
            rw [readsMapped_tableReads]
            constructor
            · intro entry
              refine ⟨fun offset less => ?_, fun maps => absurd maps stuck⟩
              exact (mapped_iff contract mapped word run
                (by rw [sizeofACPISDTHeader]; omega)).mp (entry offset less)
            · intro covered offset less
              exact (mapped_iff contract mapped word run
                (by rw [sizeofACPISDTHeader]; omega)).mpr (covered.entry offset less)
          simp only [readsMapped_append, entryMapped]
          refine and_congr_right fun _ => ⟨fun covered j lower upper taken => ?_, fun all => ?_⟩
          · rcases Nat.eq_or_lt_of_le lower with rfl | later
            · exact covered
            · exact absurd (pagesBefore_maps later taken.2) stuck
          · exact all i (Nat.le_refl i) (by omega) here
      | ok after =>
          rw [made] at next
          have round := round_mapped_iff contract mapped word (by omega) run next
          by_cases found : HasSignature firmware (text "FACP")
              (RSDT.pointerToOtherSDT firmware rsdt i)
          · simp only [if_pos ((strncmp_signature _).mpr found), List.append_assoc]
            rw [readsMapped_append, round]
            refine and_congr_right fun _ => ⟨fun covered j lower upper taken => ?_, fun all => ?_⟩
            · rcases Nat.eq_or_lt_of_le lower with rfl | later
              · exact covered
              · exact absurd found (taken.1 i later)
            · exact all i (Nat.le_refl i) (by omega) here
          · have unmatched' : ∀ earlier < i + 1, ¬HasSignature firmware (text "FACP")
                (RSDT.pointerToOtherSDT firmware rsdt earlier) := by
              intro earlier less
              rcases Nat.lt_succ_iff_lt_or_eq.mp less with before | rfl
              · exact unmatched earlier before
              · exact found
            simp only [if_neg (mt (strncmp_signature _).mp found), List.append_assoc]
            rw [ih _ (by omega) unmatched' next, readsMapped_append, round, and_assoc]
            refine and_congr_right fun _ => ⟨fun both j lower upper taken => ?_, fun all => ?_⟩
            · rcases Nat.eq_or_lt_of_le lower with rfl | later
              · exact both.1
              · exact both.2 j later (by omega) taken
            · exact ⟨all i (Nat.le_refl i) (by omega) here,
                fun j lower upper taken => all j (by omega) (by omega) taken⟩

theorem findTable_mapped (contract : FrameContract requestPage Owned)
    (mapped : Mapped Owned state globalPageTable handed) (word : rsdt < 2 ^ 32) (sig : List UInt8)
    (call : mapMemory requestPage state globalPageTable rsdt rsdt = .ok between) :
    ReadsMapped globalPageTable
        (findTable requestPage firmware globalPageTable rsdt sig state).reads ↔
      (∀ offset < 4, PageCovered state.mem globalPageTable [rsdt] (rsdt + 4 + offset)) ∧
        ∀ i < (ACPISDTHeader.length firmware rsdt - sizeofACPISDTHeader) / 4,
          RoundTaken requestPage firmware state globalPageTable rsdt i →
            RoundCovered requestPage firmware state globalPageTable rsdt i := by
  have start : mapAll requestPage state globalPageTable
      (identityCalls (pagesBefore firmware rsdt 0)) = .ok between := by
    rw [show identityCalls (pagesBefore firmware rsdt 0) = [(rsdt, rsdt)] from rfl, mapAll, call]
    rfl
  have small : ACPISDTHeader.length firmware rsdt < 2 ^ 32 := load_lt firmware (rsdt + 4) 4
  simp only [findTable, call]
  rw [findLoop_mapped_iff contract mapped word _ (by rw [entries_toNat]; omega) (by simp) start,
    entries_toNat, readsMapped_tableReads]
  refine and_congr ?_ (by simp)
  refine forall₂_congr fun offset less => ?_
  exact mapped_iff contract mapped word start (by omega)

/-- Every byte that `findTable` reads is on a mapped page, exactly when the tables lie within the
pages that it maps and those that were mapped before. -/
theorem findTable_mapped_iff (contract : FrameContract requestPage Owned)
    (mapped : Mapped Owned state globalPageTable handed) (word : rsdt < 2 ^ 32) (sig : List UInt8) :
    ReadsMapped globalPageTable
        (findTable requestPage firmware globalPageTable rsdt sig state).reads ↔
      (Maps requestPage state globalPageTable [rsdt] →
        LayoutCovered requestPage firmware state globalPageTable rsdt) := by
  cases call : mapMemory requestPage state globalPageTable rsdt rsdt with
  | error fault =>
      refine iff_of_true (by simp [findTable, call, ReadsMapped]) ?_
      rintro ⟨after, run⟩
      obtain ⟨_, made, _⟩ := Fault.peel run
      rw [call] at made
      cases made
  | ok between =>
      have maps : Maps requestPage state globalPageTable [rsdt] := by
        refine ⟨between, ?_⟩
        rw [identityCalls, List.map_singleton, mapAll, call]
        rfl
      rw [findTable_mapped contract mapped word sig call]
      exact ⟨fun both _ => ⟨both.1, both.2⟩, fun covered => ⟨(covered maps).length, (covered maps).rounds⟩⟩

end

section

open PageFrameAllocator

theorem newRoot_map {root : Nat} {state : Phys Globals}
    (mapped : Mapped (FrameInv smallMap) state root [root]) (virt phys : Nat) :
    ∃ state', mapMemory PageFrameAllocator.requestPage state root virt phys = .ok state' := by
  have room : [root].length + missing state.mem root (prefixes virt) ≤ supply smallMap := by
    have few : missing state.mem root (prefixes virt) ≤ 3 := List.countP_le_length
    have total : supply smallMap = 12 := by decide
    rw [total, List.length_singleton]
    omega
  exact mapped.mapMemory_total virt phys (FrameInv.contract smallMap_valid)
    (fun _ _ inv few => inv.supplied smallMap_valid few) (fun _ member => prefixes_length member)
    (fun _ member => member) room

theorem findTable_mapped_facp : ∃ root state, ReadsMapped root
    (findTable PageFrameAllocator.requestPage (oneTable (text "FACP")) root 0x7000 (text "FACP")
      state).reads := by
  obtain ⟨root, state, mapped, _⟩ := newRoot
  refine ⟨root, state, (findTable_mapped_iff (FrameInv.contract smallMap_valid) mapped
    (by decide) _).mpr fun _ => ⟨?_, ?_⟩⟩
  · intro offset less
    exact .inl ⟨0x7000, by simp, by omega⟩
  · have single : (ACPISDTHeader.length (oneTable (text "FACP")) 0x7000 - sizeofACPISDTHeader) / 4 =
        1 := by decide
    have table : RSDT.pointerToOtherSDT (oneTable (text "FACP")) 0x7000 0 = 0x7100 := by decide
    intro i less _
    obtain rfl : i = 0 := by omega
    constructor
    · intro offset less
      exact .inl ⟨0x7000, by simp [pagesBefore], by rw [sizeofACPISDTHeader]; omega⟩
    · intro _ address member
      have range := strncmpReads_range member
      exact .inl ⟨0x7000, by simp [pagesBefore], by omega⟩

/-- The same table list 16 bytes before the end of a page. -/
def crossing : Memory :=
  writeBytes (store (store (fun _ => 0) 0x7ff4 4 40) 0x8014 4 0x7100) 0x7100 (text "FACP")

/-- The only entry is on a page that nobody has mapped. -/
theorem findTable_unmapped : ∃ root state, ¬ReadsMapped root
    (findTable PageFrameAllocator.requestPage crossing root 0x7ff0 (text "FACP") state).reads := by
  obtain ⟨root, state, mapped, empty⟩ := newRoot
  obtain ⟨between, call⟩ := newRoot_map mapped 0x7ff0 0x7ff0
  refine ⟨root, state, ?_⟩
  rw [findTable_mapped (FrameInv.contract smallMap_valid) mapped (by decide) _ call]
  rintro ⟨_, rounds⟩
  have taken : RoundTaken PageFrameAllocator.requestPage crossing state root 0x7ff0 0 := by
    refine ⟨by simp, between, ?_⟩
    rw [show identityCalls (pagesBefore crossing 0x7ff0 0) = [(0x7ff0, 0x7ff0)] from rfl, mapAll, call]
    rfl
  rcases (rounds 0 (by decide) taken).entry 0 (by decide) with ⟨page, member, same⟩ | ⟨entry, found, _⟩
  · rw [List.mem_singleton.mp member, sizeofACPISDTHeader] at same
    omega
  · rw [empty] at found
    cases found

end

end ACPI

end OkeOS
