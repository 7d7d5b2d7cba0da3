import OkeOS.ConsoleOutput
import OkeOS.StringBuilderLife

/-!
The ledger of a builder: which of its blocks are allocated after the events of a trace, and
what a trace must look like for memory to be used properly.
-/

namespace OkeOS

open ByteMemory Tiling

namespace FastStringBuilder

/-- The pointers that `malloc` returned and that were not freed since. -/
def enter (owned : List Nat) : BuilderEvent → List Nat
  | .malloc ptr => if ptr = 0 then owned else ptr :: owned
  | .free ptr => owned.erase ptr
  | .store _ => owned
  | .deref _ => owned

def ownedAfter (trace : List BuilderEvent) : List Nat := trace.foldl enter []

/-- What may follow a trace: only live pointers are freed, and only stored entries are used. -/
def Allowed (before : List BuilderEvent) : BuilderEvent → Prop
  | .free ptr => ptr ≠ 0 ∧ ptr ∈ ownedAfter before
  | .deref index => .store index ∈ before
  | .malloc _ => True
  | .store _ => True

def Disciplined (trace : List BuilderEvent) : Prop :=
  ∀ before event after, trace = before ++ event :: after → Allowed before event

theorem disciplined_nil : Disciplined [] := by
  intro before event after split
  cases before <;> simp at split

theorem disciplined_concat {trace : List BuilderEvent} {event : BuilderEvent}
    (disciplined : Disciplined trace) (allowed : Allowed trace event) :
    Disciplined (trace ++ [event]) := by
  intro before other after split
  rcases List.eq_nil_or_concat after with rfl | ⟨front, last, rfl⟩
  · obtain ⟨rfl, same⟩ := List.append_inj' split rfl
    rw [List.cons.injEq] at same
    rwa [← same.1]
  · rw [List.concat_eq_append, ← List.cons_append, ← List.append_assoc] at split
    exact disciplined before other front (List.append_inj' split rfl).1

theorem ownedAfter_concat (trace : List BuilderEvent) (event : BuilderEvent) :
    ownedAfter (trace ++ [event]) = enter (ownedAfter trace) event := by
  rw [ownedAfter, List.foldl_append]
  rfl

theorem disciplined_derefs {trace : List BuilderEvent} {start count : Nat}
    (disciplined : Disciplined trace)
    (stored : ∀ index, start ≤ index → index < start + count → .store index ∈ trace) :
    Disciplined (trace ++ derefs start count) ∧
      ownedAfter (trace ++ derefs start count) = ownedAfter trace := by
  induction count generalizing trace start with
  | zero => simpa [derefs] using disciplined
  | succ count ih =>
      have first : Disciplined (trace ++ [.deref start]) :=
        disciplined_concat disciplined (stored start (by omega) (by omega))
      have later : ∀ index, start + 1 ≤ index → index < start + 1 + count →
          .store index ∈ trace ++ [.deref start] := fun index lower upper =>
        List.mem_append_left _ (stored index (by omega) (by omega))
      obtain ⟨rest, owned⟩ := ih first later
      rw [List.append_assoc, List.singleton_append, ← derefs_cons] at rest owned
      rw [ownedAfter_concat, enter] at owned
      exact ⟨rest, owned⟩

section

variable {σ : Type} {mapPage : σ → Nat → Except Fault σ} {literal : String → Nat} {fuel : Nat}
  {base : List Block} {limit : Nat} {heap : Heap σ} {builder : Builder}
  {texts : List (List UInt8)} {trace : List BuilderEvent} {onHeap : Bool} {state : Traced σ}

/-- The pointers a builder owns. -/
def ownedPtrs (onHeap : Bool) (builder : Builder) : List Nat :=
  builder.output.toList.map Block.ptr ++ builder.parts ::
    if onHeap then [builder.this] else []

structure LedgerInv (onHeap : Bool) (builder : Builder) (trace : List BuilderEvent) : Prop where
  disciplined : Disciplined trace
  owned : ownedAfter trace = ownedPtrs onHeap builder
  stored : ∀ index < builder.entries.length, .store index ∈ trace

theorem LedgerInv.append (ledger : LedgerInv onHeap builder trace) (message ptr : Nat) :
    LedgerInv onHeap (builder.append message ptr) (trace ++ [.store builder.slot]) := by
  refine ⟨disciplined_concat ledger.disciplined trivial, ?_, ?_⟩
  · rw [ownedAfter_concat, enter, ledger.owned]
    unfold Builder.append
    split <;> rfl
  · intro index less
    by_cases old : index < builder.entries.length
    · exact List.mem_append_left _ (ledger.stored index old)
    · have here : builder.slot = index := by
        unfold Builder.append at less
        unfold Builder.slot
        split at less
        · simp only [List.length_append, List.length_singleton] at less
          omega
        · simp only [List.length_set] at less
          omega
      rw [here]
      exact List.mem_append_right _ (by simp)

/-- Freeing a pointer that is owned, and only once. -/
theorem free_entry {owned : List Nat} {ptr : Nat} (disciplined : Disciplined trace)
    (isOwned : ownedAfter trace = owned) (nonzero : ptr ≠ 0) (member : ptr ∈ owned) :
    Disciplined (trace ++ [.free ptr]) ∧ ownedAfter (trace ++ [.free ptr]) = owned.erase ptr := by
  refine ⟨disciplined_concat disciplined ⟨nonzero, isOwned ▸ member⟩, ?_⟩
  rw [ownedAfter_concat, enter, isOwned]

theorem LedgerInv.release (ledger : LedgerInv onHeap builder trace)
    (nonzero : ∀ out ∈ builder.output, out.ptr ≠ 0) :
    Disciplined (trace ++ releaseEvents builder) ∧
      ownedAfter (trace ++ releaseEvents builder) =
        builder.parts :: if onHeap then [builder.this] else [] := by
  have owned := ledger.owned
  unfold releaseEvents ownedPtrs at *
  cases isOutput : builder.output with
  | none =>
      rw [isOutput] at owned
      simpa using ⟨ledger.disciplined, owned⟩
  | some out =>
      rw [isOutput] at owned
      obtain ⟨later, rest⟩ := free_entry ledger.disciplined owned (nonzero out isOutput) (by simp)
      refine ⟨later, rest.trans ?_⟩
      simp

theorem LedgerInv.derefs (ledger : LedgerInv onHeap builder trace) {count : Nat}
    (few : count ≤ builder.entries.length) :
    LedgerInv onHeap builder (trace ++ FastStringBuilder.derefs 0 count) := by
  obtain ⟨disciplined, owned⟩ := disciplined_derefs ledger.disciplined
    fun index (_ : 0 ≤ index) (upper : index < 0 + count) => ledger.stored index (by omega)
  exact ⟨disciplined, owned.trans ledger.owned, fun index less =>
    List.mem_append_left _ (ledger.stored index less)⟩

theorem LedgerInv.build (ledger : LedgerInv onHeap builder trace) {count ptr size : Nat}
    (few : count ≤ builder.entries.length) (outputs : ∀ out ∈ builder.output, out.ptr ≠ 0)
    (nonzero : ptr ≠ 0) :
    LedgerInv onHeap { builder with output := some { ptr := ptr, size := size } }
      (trace ++ FastStringBuilder.derefs 0 count ++ releaseEvents builder ++ [.malloc ptr] ++
        FastStringBuilder.derefs 0 count) := by
  have read := ledger.derefs few
  obtain ⟨disciplined, owned⟩ := read.release outputs
  have allocated : LedgerInv onHeap { builder with output := some { ptr := ptr, size := size } }
      (trace ++ FastStringBuilder.derefs 0 count ++ releaseEvents builder ++ [.malloc ptr]) := by
    refine ⟨disciplined_concat disciplined trivial, ?_, ?_⟩
    · rw [ownedAfter_concat, enter, if_neg nonzero, owned]
      rfl
    · intro index less
      exact List.mem_append_left _ (List.mem_append_left _ (read.stored index less))
  exact allocated.derefs few

theorem BuilderInv.nonzero (inv : BuilderInv base limit heap builder) :
    builder.parts ≠ 0 ∧ ∀ out ∈ builder.output, out.ptr ≠ 0 := by
  obtain ⟨segments, system⟩ := inv.system
  have partsBounds := system.block_bounds (BuilderInv.partsLive builder base)
  refine ⟨?_, fun out isOutput => ?_⟩
  · simp only [Builder.partsBlock] at partsBounds
    omega
  · have bounds := system.block_bounds
      (show out ∈ builder.live base by simp [Builder.live, Option.mem_def.mp isOutput])
    omega

theorem LedgerInv.of_new {this parts ptr : Nat} (thisNonzero : this ≠ 0) (nonzero : ptr ≠ 0) :
    LedgerInv true ⟨this, parts, ptr, [], none⟩ [.malloc this, .malloc ptr] := by
  refine ⟨?_, ?_, by simp⟩
  · have first : Disciplined ([] ++ [.malloc this]) := disciplined_concat disciplined_nil trivial
    exact disciplined_concat first trivial
  · simp [ownedAfter, enter, ownedPtrs, thisNonzero, nonzero]

theorem LedgerInv.of_construct {this parts ptr : Nat} (nonzero : ptr ≠ 0) :
    LedgerInv false ⟨this, parts, ptr, [], none⟩ [.malloc ptr] := by
  refine ⟨disciplined_concat disciplined_nil trivial, ?_, by simp⟩
  simp [ownedAfter, enter, ownedPtrs, nonzero]

theorem BuilderRun.ledger (noWrap : limit < 2 ^ 64)
    (messageWord : literal "FastStringBuilder OutOfBounds" < 2 ^ 64)
    (run : BuilderRun mapPage literal limit onHeap base state builder) :
    LedgerInv onHeap builder state.trace := by
  induction run with
  | construct run positive few held call below =>
      have ends := construct_end_le call
      simp only at ends
      obtain ⟨segments, system⟩ := run.inv (by omega)
      obtain ⟨ptr, inv, _, traceEq⟩ := construct_spec system noWrap positive few held call below
      rw [traceEq, show FastStringBuilder.parts _ _ = ptr from inv.reads.2.2.1]
      exact .of_construct inv.nonzero.1
  | new run positive few call below =>
      have ends := new_end_le call
      simp only at ends
      obtain ⟨segments, system⟩ := run.inv (by omega)
      obtain ⟨thisNonzero, ptr, inv, _, traceEq⟩ := new_spec system noWrap positive few call below
      rw [traceEq, show FastStringBuilder.parts _ _ = ptr from inv.reads.2.2.1]
      exact .of_new thisNonzero inv.nonzero.1
  | append run word ih =>
      obtain ⟨heap', appended, _⟩ := append_spec _ (run.inv noWrap messageWord) word messageWord
      rw [appended]
      exact ih.append _ _
  | build run full strings noWrap' call below ih =>
      have inv := run.inv noWrap messageWord
      obtain ⟨_, _, built, traceEq⟩ := build_ok inv full strings noWrap' call below
      have lengths := strings.length_eq
      rw [traceEq]
      exact ih.build (by omega) inv.nonzero.2 (built.inv.nonzero.2 _ rfl)
  | call _ _ _ _ _ _ ih => exact ih
  | write _ _ _ _ _ ih => exact ih

/-- The end of a builder: `delete`, or the destructor alone. -/
def destroy (onHeap : Bool) (state : Traced σ) (this : Nat) : Traced σ :=
  if onHeap then delete state this else destruct state this

/-- The builder's blocks are freed one by one, and nothing is left over. -/
theorem LedgerInv.destroy {out : Block} (ledger : LedgerInv onHeap builder trace)
    (isOutput : builder.output = some out) (different : out.ptr ≠ builder.parts)
    (nonzero : builder.parts ≠ 0 ∧ out.ptr ≠ 0) (thisNonzero : onHeap = true → builder.this ≠ 0) :
    Disciplined (trace ++ [.free builder.parts, .free out.ptr] ++
        if onHeap then [.free builder.this] else []) ∧
      ownedAfter (trace ++ [.free builder.parts, .free out.ptr] ++
        if onHeap then [.free builder.this] else []) = [] := by
  have owned := ledger.owned
  rw [ownedPtrs, isOutput] at owned
  obtain ⟨first, owned1⟩ := free_entry ledger.disciplined owned nonzero.1 (by simp)
  have erased : (Option.toList (some out)).map Block.ptr ++
      builder.parts :: (if onHeap then [builder.this] else []) =
        out.ptr :: builder.parts :: (if onHeap then [builder.this] else []) := rfl
  rw [erased, List.erase_cons_tail (by simpa using different), List.erase_cons_head] at owned1
  obtain ⟨second, owned2⟩ := free_entry first owned1 nonzero.2 (by simp)
  rw [List.erase_cons_head] at owned2
  rw [List.append_assoc, List.singleton_append] at second owned2
  cases onHeap with
  | false =>
      rw [if_neg (by simp), List.append_nil]
      exact ⟨second, owned2⟩
  | true =>
      obtain ⟨third, owned3⟩ := free_entry second owned2 (thisNonzero rfl) (by simp)
      exact ⟨third, owned3.trans (by simp)⟩

theorem destroy_spec {out : Block}
    (inv : BuilderInv (others onHeap builder.this base) limit heap builder)
    (isOutput : builder.output = some out) (trace : List BuilderEvent) :
    ∃ heap', FastStringBuilder.destroy onHeap ⟨heap, trace⟩ builder.this =
        ⟨heap', trace ++ [.free builder.parts, .free out.ptr] ++
          if onHeap then [.free builder.this] else []⟩ ∧
      ∃ segments, SystemInv { heap := heap', live := base } segments := by
  cases onHeap with
  | false =>
      obtain ⟨heap', destroyed, system, _⟩ := destruct_spec inv isOutput trace
      refine ⟨heap', ?_, system⟩
      rw [FastStringBuilder.destroy, if_neg (by simp), if_neg (by simp), List.append_nil, destroyed]
  | true =>
      obtain ⟨heap', deleted, system, _⟩ := delete_spec inv isOutput trace
      refine ⟨heap', ?_, system⟩
      rw [FastStringBuilder.destroy, if_pos rfl, if_pos rfl, deleted, List.append_assoc]
      rfl

/-- A builder whose every `build` comes after `nParts` appends uses its memory properly in
every state, and once it has been built its end leaves the heap to the others. -/
theorem builder_disciplined (noWrap : limit < 2 ^ 64)
    (messageWord : literal "FastStringBuilder OutOfBounds" < 2 ^ 64)
    (run : BuilderRun mapPage literal limit onHeap base state builder) :
    Disciplined state.trace ∧
      (builder.output ≠ none →
        Disciplined (destroy onHeap state builder.this).trace ∧
        ownedAfter (destroy onHeap state builder.this).trace = [] ∧
        ∃ segments, SystemInv
          { heap := (destroy onHeap state builder.this).heap, live := base } segments) := by
  have ledger := run.ledger noWrap messageWord
  have inv := run.inv noWrap messageWord
  refine ⟨ledger.disciplined, fun built => ?_⟩
  obtain ⟨out, isOutput⟩ := Option.ne_none_iff_exists'.mp built
  have thisNonzero : onHeap = true → builder.this ≠ 0 := by
    rintro rfl
    obtain ⟨segments, system⟩ := inv.system
    have bounds := system.block_bounds
      (BuilderInv.baseLive (show objectBlock builder.this ∈ _ from List.mem_cons_self))
    simp only [objectBlock] at bounds
    omega
  obtain ⟨heap, trace⟩ := state
  obtain ⟨heap', destroyed, system⟩ := destroy_spec inv isOutput trace
  rw [destroyed]
  obtain ⟨disciplined, owned⟩ := ledger.destroy isOutput (inv.ptrs.2 out isOutput).1
    ⟨inv.nonzero.1, inv.nonzero.2 out isOutput⟩ thisNonzero
  exact ⟨disciplined, owned, system⟩

end

theorem builder_disciplined_oneLetter : ∃ (state : Traced Unit) (builder : Builder),
    BuilderRun mapAny noLiteral 0x803000 true [] state builder ∧ Disciplined state.trace ∧
      Disciplined (destroy true state builder.this).trace ∧
      ownedAfter (destroy true state builder.this).trace = [] ∧
      ∃ segments, SystemInv
        { heap := (destroy true state builder.this).heap, live := [] } segments := by
  obtain ⟨state, after, builder, ptr, letter⟩ := freshLetter_run
  have run := letter.run.build letter.full letter.strings (by simp [NoWrap]) letter.called
    letter.below
  obtain ⟨disciplined, built⟩ := builder_disciplined (by decide) (by decide) run
  exact ⟨_, _, run, disciplined, built (by simp)⟩

/-- A message to nobody, with the same string for the namespace, the tag and the text. -/
def silentLog : Except Fault (List BuilderEvent) := do
  let heap ← initHeap mapAny letterHeap 0x800000 1
  let (state, _) ← Logger.info mapAny noLiteral 3 ⟨0x2000, 0x2000, .none⟩ 0x2000 [] ⟨heap, []⟩
    freshConsole
  return state.trace

/-- The builder of a `Logger` with the target `NONE` is deleted without a `build`. -/
theorem silentLog_undisciplined : ∃ (system : HeapSystem Unit) (state : Traced Unit)
    (console : Console), HeapRun mapAny system ∧
      Logger.info mapAny noLiteral 3 ⟨0x2000, 0x2000, .none⟩ 0x2000 [] ⟨system.heap, []⟩
        freshConsole = .ok (state, console) ∧
      .free 0 ∈ state.trace ∧ ¬Disciplined state.trace := by
  have evaluated : silentLog = .ok [.malloc 0x80001d, .malloc 0x80005a, .store 0, .store 1,
      .store 2, .store 3, .store 4, .store 5, .store 6, .free 0x80005a, .free 0,
      .free 0x80001d] := by decide +kernel
  obtain ⟨heap, boot, evaluated⟩ := Fault.peel evaluated
  obtain ⟨⟨state, console⟩, called, result⟩ := Fault.peel evaluated
  simp only [Pure.pure, Except.pure, Except.ok.injEq] at result
  refine ⟨_, state, console, .init (by decide) (by decide) (by decide) (by decide) boot, called,
    by simp [result], fun disciplined => ?_⟩
  rw [result] at disciplined
  exact (disciplined [_, _, _, _, _, _, _, _, _, _] (.free 0) [_] rfl).1 rfl

end FastStringBuilder

end OkeOS
