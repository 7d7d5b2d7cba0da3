import OkeOS.AcpiCore
import OkeOS.PagingRun

/-!
What `findTable` finds and when `ACPI::init` goes on.  The search compares every signature with
the same four letters, and the wait loop looks at no bit of what it reads.
-/

namespace OkeOS

open ByteMemory

theorem strncmp_eq_zero {mem : Memory} {str1 : Nat} {chars : List UInt8} (noNul : 0 ∉ chars) :
    strncmp mem str1 chars chars.length = 0 ↔ BytesAt mem str1 chars := by
  induction chars generalizing str1 with
  | nil => exact iff_of_true rfl trivial
  | cons c rest ih =>
      rw [List.mem_cons, not_or] at noNul
      rw [List.length_cons, strncmp, BytesAt, List.headD_cons, List.tail_cons]
      by_cases same : mem str1 = c
      · rw [if_pos ⟨same ▸ Ne.symm noNul.1, same⟩, ih noNul.2]
        simp [same]
      · rw [if_neg fun both => same both.2]
        refine iff_of_false ?_ fun both => same both.1
        intro zero
        exact same (UInt8.toNat.inj (by omega))

namespace ACPI

/-- The four bytes at the start of a table. -/
def HasSignature (firmware : Memory) (sig : List UInt8) (table : Nat) : Prop :=
  BytesAt firmware table sig

instance (firmware : Memory) (sig : List UInt8) : DecidablePred (HasSignature firmware sig) :=
  fun table => decidableBytesAt firmware table sig

/-- The tables that the entries point to. -/
def listed (firmware : Memory) (rsdt : Nat) : List Nat :=
  (List.range ((ACPISDTHeader.length firmware rsdt - sizeofACPISDTHeader) / 4)).map
    (RSDT.pointerToOtherSDT firmware rsdt)

def first (firmware : Memory) (rsdt : Nat) (sig : List UInt8) : Option Nat :=
  (listed firmware rsdt).find? (HasSignature firmware sig)

/-- The result of a search that honours its argument. -/
def Honours (firmware : Memory) (rsdt : Nat) (sig : List UInt8) (result : Nat) : Prop :=
  (∀ table, first firmware rsdt sig = some table → result = table) ∧
    (result = 0 ↔ ∀ table ∈ listed firmware rsdt, ¬HasSignature firmware sig table)

section

variable {α : Type} {requestPage : Phys α → Except Fault (Nat × Phys α)} {firmware : Memory}
  {globalPageTable rsdt : Nat}

theorem strncmp_signature (table : Nat) :
    strncmp firmware table (text "FACP") 4 = 0 ↔ HasSignature firmware (text "FACP") table :=
  strncmp_eq_zero (show 0 ∉ text "FACP" by decide)

/-- The pointers that the loop meets from round `i` on. -/
def pointers (firmware : Memory) (rsdt i rounds : Nat) : List Nat :=
  (List.range' i rounds).map (RSDT.pointerToOtherSDT firmware rsdt)

theorem pointers_succ (firmware : Memory) (rsdt i rounds : Nat) :
    pointers firmware rsdt i (rounds + 1) =
      RSDT.pointerToOtherSDT firmware rsdt i :: pointers firmware rsdt (i + 1) rounds := by
  rw [pointers, List.range'_succ, List.map_cons]
  rfl

theorem findLoop_result {rounds i result : Nat} {reads : List TableRead} {state state' : Phys α}
    (returned : (findLoop requestPage firmware globalPageTable rsdt rounds i reads state).result =
      .ok (result, state')) :
    result = ((pointers firmware rsdt i rounds).find?
      (HasSignature firmware (text "FACP"))).getD 0 := by
  induction rounds generalizing i reads state with
  | zero =>
      rw [findLoop, Except.ok.injEq, Prod.mk.injEq] at returned
      exact returned.1.symm
  | succ rounds ih =>
      rw [findLoop] at returned
      rw [pointers_succ, List.find?_cons]
      cases mapped : mapMemory requestPage state globalPageTable
          (RSDT.pointerToOtherSDT firmware rsdt i) (RSDT.pointerToOtherSDT firmware rsdt i) with
      | error fault => simp [mapped] at returned
      | ok between =>
          simp only [mapped] at returned
          by_cases found : HasSignature firmware (text "FACP")
              (RSDT.pointerToOtherSDT firmware rsdt i)
          · rw [if_pos ((strncmp_signature _).mpr found), Except.ok.injEq, Prod.mk.injEq] at returned
            rw [decide_eq_true found]
            exact returned.1.symm
          · rw [if_neg (mt (strncmp_signature _).mp found)] at returned
            rw [decide_eq_false found]
            exact ih returned

theorem findLoop_error {rounds i : Nat} {reads : List TableRead} {state : Phys α} {fault : Fault}
    (failed : (findLoop requestPage firmware globalPageTable rsdt rounds i reads state).result =
      .error fault) :
    ∃ state page, mapMemory requestPage state globalPageTable page page = .error fault := by
  induction rounds generalizing i reads state with
  | zero => simp [findLoop] at failed
  | succ rounds ih =>
      rw [findLoop] at failed
      cases mapped : mapMemory requestPage state globalPageTable
          (RSDT.pointerToOtherSDT firmware rsdt i) (RSDT.pointerToOtherSDT firmware rsdt i) with
      | error other =>
          simp only [mapped, Except.error.injEq] at failed
          exact ⟨state, _, failed ▸ mapped⟩
      | ok between =>
          simp only [mapped] at failed
          split at failed
          · simp at failed
          · exact ih failed

theorem entries_eq (long : sizeofACPISDTHeader ≤ ACPISDTHeader.length firmware rsdt) :
    (entries (ACPISDTHeader.length firmware rsdt)).toNat =
      (ACPISDTHeader.length firmware rsdt - sizeofACPISDTHeader) / 4 := by
  have small : ACPISDTHeader.length firmware rsdt < 2 ^ 32 := load_lt firmware (rsdt + 4) 4
  rw [entries, sub64_of_le long (by omega), Nat.mod_eq_of_lt (by omega), toInt32_of_lt (by omega),
    Int.toNat_natCast]

theorem findTable_result {sig : List UInt8} {result : Nat} {state state' : Phys α}
    (long : sizeofACPISDTHeader ≤ ACPISDTHeader.length firmware rsdt)
    (returned : (findTable requestPage firmware globalPageTable rsdt sig state).result =
      .ok (result, state')) :
    result = (first firmware rsdt (text "FACP")).getD 0 := by
  rw [findTable] at returned
  cases mapped : mapMemory requestPage state globalPageTable rsdt rsdt with
  | error fault => simp [mapped] at returned
  | ok between =>
      simp only [mapped] at returned
      have found := findLoop_result returned
      rw [entries_eq long, pointers, ← List.range_eq_range'] at found
      exact found

theorem findTable_error {sig : List UInt8} {state : Phys α} {fault : Fault}
    (failed : (findTable requestPage firmware globalPageTable rsdt sig state).result =
      .error fault) :
    ∃ state page, mapMemory requestPage state globalPageTable page page = .error fault := by
  rw [findTable] at failed
  cases mapped : mapMemory requestPage state globalPageTable rsdt rsdt with
  | error other =>
      simp only [mapped, Except.error.injEq] at failed
      exact ⟨state, rsdt, failed ▸ mapped⟩
  | ok between =>
      simp only [mapped] at failed
      exact findLoop_error failed

theorem honours_iff {sig : List UInt8} (four : sig.length = 4) :
    Honours firmware rsdt sig ((first firmware rsdt (text "FACP")).getD 0) ↔
      (sig = text "FACP" ∧ first firmware rsdt sig ≠ some 0) ∨
        ((∀ table ∈ listed firmware rsdt, ¬HasSignature firmware sig table) ∧
          ∀ table, first firmware rsdt (text "FACP") = some table → table = 0) := by
  have absent (letters : List UInt8) : first firmware rsdt letters = none ↔
      ∀ table ∈ listed firmware rsdt, ¬HasSignature firmware letters table := by
    rw [first, List.find?_eq_none]
    simp only [decide_eq_true_eq]
  have present {letters : List UInt8} {table : Nat} (found : first firmware rsdt letters = some table) :
      table ∈ listed firmware rsdt ∧ HasSignature firmware letters table := by
    rw [first] at found
    have signature := List.find?_some found
    exact ⟨List.mem_of_find?_eq_some found, of_decide_eq_true signature⟩
  constructor
  · rintro ⟨isFirst, isNull⟩
    cases found : first firmware rsdt sig with
    | none =>
        have none := (absent sig).mp found
        refine .inr ⟨none, fun table fixed => ?_⟩
        have zero := isNull.mpr none
        rwa [fixed, Option.getD_some] at zero
    | some table =>
        obtain ⟨member, signature⟩ := present found
        have same := isFirst table found
        have nonzero : table ≠ 0 := by
          intro zero
          exact isNull.mp (same.trans zero) table member signature
        cases fixed : first firmware rsdt (text "FACP") with
        | none =>
            rw [fixed, Option.getD_none] at same
            exact absurd same.symm nonzero
        | some other =>
            rw [fixed, Option.getD_some] at same
            have letters := bytesAt_unique signature (same ▸ (present fixed).2)
              (four.trans (by decide))
            exact .inl ⟨letters, by simpa using nonzero⟩
  · rintro (⟨rfl, notNull⟩ | ⟨none, onlyNull⟩)
    · cases found : first firmware rsdt (text "FACP") with
      | none => exact ⟨by simp [found], iff_of_true rfl ((absent _).mp found)⟩
      | some table =>
          obtain ⟨member, signature⟩ := present found
          have nonzero : table ≠ 0 := by
            rintro rfl
            exact notNull found
          refine ⟨by simp [found], ?_⟩
          rw [Option.getD_some]
          exact iff_of_false nonzero fun absent => absent table member signature
    · have zero : (first firmware rsdt (text "FACP")).getD 0 = 0 := by
        cases found : first firmware rsdt (text "FACP") with
        | none => rfl
        | some table => exact onlyNull table found
      refine ⟨fun table found => ?_, iff_of_true zero none⟩
      rw [(absent sig).mpr none] at found
      simp at found

/-- `findTable` ends in a panic of `PageTable_MapMemory` or returns, and then it honours its
argument exactly when that is the fixed signature or neither of the two is listed. -/
theorem findTable_honours_iff {sig : List UInt8} (four : sig.length = 4)
    (long : sizeofACPISDTHeader ≤ ACPISDTHeader.length firmware rsdt) (state : Phys α) :
    (∀ fault, (findTable requestPage firmware globalPageTable rsdt sig state).result =
        .error fault →
      ∃ state page, mapMemory requestPage state globalPageTable page page = .error fault) ∧
    ∀ result state', (findTable requestPage firmware globalPageTable rsdt sig state).result =
        .ok (result, state') →
      (Honours firmware rsdt sig result ↔
        (sig = text "FACP" ∧ first firmware rsdt sig ≠ some 0) ∨
          ((∀ table ∈ listed firmware rsdt, ¬HasSignature firmware sig table) ∧
            ∀ table, first firmware rsdt (text "FACP") = some table → table = 0)) := by
  refine ⟨fun fault => findTable_error, fun result state' returned => ?_⟩
  rw [findTable_result long returned]
  exact honours_iff four

/-! The search returns as long as the allocator has frames for the page tables. -/

variable {Owned : Phys α → List Nat → Prop} {handed : List Nat} {supply : Nat}
  {paths : List TablePath} {state : Phys α} (contract : FrameContract requestPage Owned)
  (supplied : ∀ state handed, Owned state handed → handed.length < supply →
    ∃ frame between, requestPage state = .ok (frame, between))
  (lengths : ∀ path ∈ paths, path.length ≤ 3)

include contract supplied lengths

theorem findLoop_returns {rounds i : Nat} (reads : List TableRead)
    (needed : ∀ table ∈ pointers firmware rsdt i rounds, ∀ path ∈ prefixes table, path ∈ paths)
    (mapped : Mapped Owned state globalPageTable handed)
    (enough : handed.length + missing state.mem globalPageTable paths ≤ supply) :
    ∃ result state', (findLoop requestPage firmware globalPageTable rsdt rounds i reads state).result =
      .ok (result, state') := by
  induction rounds generalizing i reads state handed with
  | zero => exact ⟨0, state, rfl⟩
  | succ rounds ih =>
      rw [pointers_succ] at needed
      obtain ⟨between, call⟩ := mapped.mapMemory_total (RSDT.pointerToOtherSDT firmware rsdt i)
        (RSDT.pointerToOtherSDT firmware rsdt i) contract supplied lengths (needed _ (by simp)) enough
      obtain ⟨handed', mapped', step⟩ := mapped.mapMemory contract call
      have cost := step.cost paths lengths (by simpa using needed _ (by simp))
      rw [findLoop, call]
      simp only
      split
      · exact ⟨_, _, rfl⟩
      · exact ih _ (fun table member => needed table (by simp [member])) mapped' (by omega)

theorem findTable_returns (sig : List UInt8)
    (long : sizeofACPISDTHeader ≤ ACPISDTHeader.length firmware rsdt)
    (needed : ∀ table ∈ rsdt :: listed firmware rsdt, ∀ path ∈ prefixes table, path ∈ paths)
    (mapped : Mapped Owned state globalPageTable handed)
    (enough : handed.length + missing state.mem globalPageTable paths ≤ supply) :
    ∃ result state', (findTable requestPage firmware globalPageTable rsdt sig state).result =
      .ok (result, state') := by
  obtain ⟨between, call⟩ := mapped.mapMemory_total rsdt rsdt contract supplied lengths
    (needed rsdt (by simp)) enough
  obtain ⟨handed', mapped', step⟩ := mapped.mapMemory contract call
  have cost := step.cost paths lengths (by simpa using needed rsdt (by simp))
  have same : pointers firmware rsdt 0 (entries (ACPISDTHeader.length firmware rsdt)).toNat =
      listed firmware rsdt := by
    rw [entries_eq long, pointers, ← List.range_eq_range']
    rfl
  rw [findTable, call]
  refine findLoop_returns contract supplied lengths _ ?_ mapped' (by omega)
  rw [same]
  exact fun table member => needed table (by simp [member])

end

/-! A table for one entry, on a machine with a new root table. -/

section

open PageFrameAllocator

/-- An `RSDT` at `0x7000` whose only entry points to a table with the signature. -/
def oneTable (sig : List UInt8) : Memory :=
  writeBytes (store (store (fun _ => 0) 0x7004 4 40) 0x7024 4 0x7100) 0x7100 sig

theorem newRoot : ∃ root state, Mapped (FrameInv smallMap) state root [root] ∧
    ∀ virt, walk state.mem root virt = none := by
  obtain ⟨booted, boot⟩ := init_succeeds smallMap poweredOn (by decide)
  have inv := FrameInv.init smallMap_valid (by decide) boot
  obtain ⟨root, state, made⟩ := newTable_total smallMap_valid inv (by decide)
  obtain ⟨mapped, _, zero⟩ := newTable_mapped (FrameInv.contract smallMap_valid) inv made
  exact ⟨root, state, mapped, walk_zeroed zero⟩

/-- There are frames for the tables of one region of two megabytes. -/
theorem newRoot_returns {firmware : Memory} {rsdt root : Nat} {state : Phys Globals}
    (sig : List UInt8) (long : sizeofACPISDTHeader ≤ ACPISDTHeader.length firmware rsdt)
    (region : ∀ table ∈ listed firmware rsdt, prefixes table = prefixes rsdt)
    (mapped : Mapped (FrameInv smallMap) state root [root]) :
    ∃ result state', (findTable PageFrameAllocator.requestPage firmware root rsdt sig state).result =
      .ok (result, state') := by
  have room : [root].length + missing state.mem root (prefixes rsdt) ≤ supply smallMap := by
    have few : missing state.mem root (prefixes rsdt) ≤ 3 := List.countP_le_length
    have total : supply smallMap = 12 := by decide
    rw [total, List.length_singleton]
    omega
  refine findTable_returns (FrameInv.contract smallMap_valid)
    (fun _ _ inv few => inv.supplied smallMap_valid few) (fun _ member => prefixes_length member) sig
    long ?_ mapped room
  intro table member path inPrefixes
  rcases List.mem_cons.mp member with rfl | inListed
  · exact inPrefixes
  · rwa [← region table inListed]

theorem findTable_honours_facp : ∃ root state result state',
    (findTable PageFrameAllocator.requestPage (oneTable (text "FACP")) root 0x7000 (text "FACP")
      state).result = .ok (result, state') ∧
    Honours (oneTable (text "FACP")) 0x7000 (text "FACP") result := by
  obtain ⟨root, state, mapped, _⟩ := newRoot
  obtain ⟨result, state', returned⟩ := newRoot_returns (text "FACP")
    (show sizeofACPISDTHeader ≤ ACPISDTHeader.length (oneTable (text "FACP")) 0x7000 by decide)
    (by decide) mapped
  refine ⟨root, state, result, state', returned, ?_⟩
  exact ((findTable_honours_iff (by decide) (by decide) state).2 result state' returned).mpr
    (.inl ⟨rfl, by decide⟩)

/-- A table that is listed is not found. -/
theorem findTable_apic : ∃ root state result state',
    (findTable PageFrameAllocator.requestPage (oneTable (text "APIC")) root 0x7000 (text "APIC")
      state).result = .ok (result, state') ∧
    ¬Honours (oneTable (text "APIC")) 0x7000 (text "APIC") result := by
  obtain ⟨root, state, mapped, _⟩ := newRoot
  obtain ⟨result, state', returned⟩ := newRoot_returns (text "APIC")
    (show sizeofACPISDTHeader ≤ ACPISDTHeader.length (oneTable (text "APIC")) 0x7000 by decide)
    (by decide) mapped
  refine ⟨root, state, result, state', returned, ?_⟩
  rintro ⟨isFirst, _⟩
  have fixed := findTable_result (by decide) returned
  have missing : (first (oneTable (text "APIC")) 0x7000 (text "FACP")).getD 0 = 0 := by decide
  have found := isFirst 0x7100 (by decide)
  omega

end

/-! The wait loop. -/

/-- The values that were read from a port. -/
def valuesRead (accesses : List PortAccess) : List UInt16 :=
  accesses.filterMap fun
    | .inw _ returnVal => some returnVal
    | .outb _ _ => none

/-- The last value has `SCI_EN` set, and those before it do not. -/
def Waited (values : List UInt16) : Prop :=
  ∃ earlier last, values = earlier ++ [last] ∧ last &&& 1 = 1 ∧ ∀ value ∈ earlier, value &&& 1 = 0

/-- The condition is zero for every answer, so the loop reads once. -/
theorem waitLoop_once (answers : Nat → UInt16) (port : UInt16) (fuel count : Nat)
    (accesses : List PortAccess) :
    waitLoop answers port (fuel + 1) count accesses = .ok (accesses ++ [.inw port (answers count)]) := by
  rw [waitLoop]
  simp

section

variable {α : Type} {requestPage : Phys α → Except Fault (Nat × Phys α)} {firmware : Memory}
  {globalPageTable rsdt : Nat} {answers : Nat → UInt16} {state state' : Phys α} {facp : Nat}

theorem init_ok {fuel : Nat} {accesses : List PortAccess}
    (run : init answers requestPage firmware globalPageTable rsdt fuel state =
      .ok (facp, accesses, state')) : valuesRead accesses = [answers 0] := by
  obtain ⟨⟨facp', between⟩, _, run⟩ := Fault.peel run
  simp only at run
  split at run
  · cases run
  · obtain ⟨accesses', waited, result⟩ := Fault.peel run
    simp only [Except.ok.injEq, Prod.mk.injEq] at result
    rw [← result.2.1]
    cases fuel with
    | zero => cases waited
    | succ fuel =>
        rw [waitLoop_once, Except.ok.injEq] at waited
        rw [← waited]
        rfl

theorem init_returns (fuel : Nat) {sig : List UInt8}
    (found : (findTable requestPage firmware globalPageTable rsdt sig state).result =
      .ok (facp, state')) (nonzero : facp ≠ 0) :
    ∃ accesses, init answers requestPage firmware globalPageTable rsdt (fuel + 1) state =
      .ok (facp, accesses, state') := by
  have search : (findTable requestPage firmware globalPageTable rsdt (text "FACP") state).result =
      .ok (facp, state') := found
  refine ⟨[.outb (UInt16.ofNat (FADT.smiCommandPort firmware facp)) (FADT.acpiEnable firmware facp)] ++
    [.inw (UInt16.ofNat (FADT.pm1aControlBlock firmware facp)) (answers 0)], ?_⟩
  rw [init, search]
  simp only [Bind.bind, Except.bind, nonzero, if_false, waitLoop_once]

/-- `ACPI::init` goes on after the first answer, so the handshake is complete exactly when that
answer has the bit set. -/
theorem init_waited_iff {fuel : Nat} {accesses : List PortAccess}
    (run : init answers requestPage firmware globalPageTable rsdt fuel state =
      .ok (facp, accesses, state')) :
    Waited (valuesRead accesses) ↔ answers 0 &&& 1 = 1 := by
  rw [init_ok run]
  constructor
  · rintro ⟨earlier, last, split, set, _⟩
    have only := List.append_inj_right' (show [] ++ [answers 0] = earlier ++ [last] from split) rfl
    rw [List.singleton_inj.mp only]
    exact set
  · intro set
    exact ⟨[], answers 0, rfl, set, by simp⟩

end

open PageFrameAllocator in
theorem newRoot_init (answers : Nat → UInt16) : ∃ root state facp accesses state',
    init answers PageFrameAllocator.requestPage (oneTable (text "FACP")) root 0x7000 1 state =
      .ok (facp, accesses, state') := by
  obtain ⟨root, state, mapped, _⟩ := newRoot
  obtain ⟨result, state', returned⟩ := newRoot_returns (text "FACP")
    (show sizeofACPISDTHeader ≤ ACPISDTHeader.length (oneTable (text "FACP")) 0x7000 by decide)
    (by decide) mapped
  have found := findTable_result (by decide) returned
  rw [show (first (oneTable (text "FACP")) 0x7000 (text "FACP")).getD 0 = 0x7100 by decide] at found
  obtain ⟨accesses, run⟩ := @init_returns _ _ _ _ _ answers _ _ _ 0 _ returned (by omega)
  exact ⟨root, state, result, accesses, state', run⟩

/-- A device that answers at once. -/
theorem init_waited_enabled : ∃ root state facp accesses state',
    init (fun _ => 1) PageFrameAllocator.requestPage (oneTable (text "FACP")) root 0x7000 1 state =
      .ok (facp, accesses, state') ∧ Waited (valuesRead accesses) := by
  obtain ⟨root, state, facp, accesses, state', run⟩ := newRoot_init fun _ => 1
  exact ⟨root, state, facp, accesses, state', run, (init_waited_iff run).mpr rfl⟩

/-- A device that needs two reads to answer is not waited for. -/
theorem init_not_waited : ∃ root state facp accesses state',
    init (fun count => if count < 2 then 0 else 1) PageFrameAllocator.requestPage
        (oneTable (text "FACP")) root 0x7000 1 state = .ok (facp, accesses, state') ∧
      ¬Waited (valuesRead accesses) := by
  obtain ⟨root, state, facp, accesses, state', run⟩ :=
    newRoot_init fun count => if count < 2 then 0 else 1
  refine ⟨root, state, facp, accesses, state', run, ?_⟩
  rw [init_ok run]
  rintro ⟨earlier, last, split, set, _⟩
  have only := List.append_inj_right' (show [] ++ [(0 : UInt16)] = earlier ++ [last] from split) rfl
  rw [← List.singleton_inj.mp only] at set
  exact absurd set (by decide)

end ACPI

end OkeOS
