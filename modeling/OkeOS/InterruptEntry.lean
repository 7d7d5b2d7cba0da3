import OkeOS.WordStack

/-!
`idt/stubs.asm` and the `CPUStatus` of `idt/ints.h`: what the 256 handlers push, call and
pop.  The stub saves twelve registers and calls `interruptDispatch` without setting `rdi`;
`rsi`, `rdi` and `rbp` are not saved.
-/

namespace OkeOS

open WordStack

inductive Reg where
  | rax | rbx | rcx | rdx | rsi | rdi | rbp | rsp
  | r8 | r9 | r10 | r11 | r12 | r13 | r14 | r15
deriving DecidableEq, Repr

structure Cpu where
  reg : Reg → Word
  mem : WordMemory

inductive Instr where
  | push (source : Reg)
  | pushQword (value : Nat)
  | pop (target : Reg)
  | addRsp (value : Nat)
  | callInterruptDispatch
deriving DecidableEq, Repr

def Cpu.push (cpu : Cpu) (word : Word) : Cpu where
  reg := Function.update cpu.reg .rsp (cpu.reg .rsp - 8)
  mem := Function.update cpu.mem (cpu.reg .rsp - 8) word

def Cpu.pop (cpu : Cpu) (target : Reg) : Cpu :=
  let moved := Function.update cpu.reg .rsp (cpu.reg .rsp + 8)
  { cpu with reg := Function.update moved target (cpu.mem (cpu.reg .rsp)) }

/-- `dispatch` is the effect of `interruptDispatch` from its first instruction on, with the
return address on top of the stack, up to and including its `ret`. -/
def step (dispatch : Cpu → Cpu) (returnAddress : Word) (cpu : Cpu) : Instr → Cpu
  | .push source => cpu.push (cpu.reg source)
  | .pushQword value => cpu.push (BitVec.ofNat 64 value)
  | .pop target => cpu.pop target
  | .addRsp value =>
      { cpu with reg := Function.update cpu.reg .rsp (cpu.reg .rsp + BitVec.ofNat 64 value) }
  | .callInterruptDispatch => dispatch (cpu.push returnAddress)

def execute (dispatch : Cpu → Cpu) (returnAddress : Word) (code : List Instr) (cpu : Cpu) : Cpu :=
  code.foldl (step dispatch returnAddress) cpu

/-- The registers in the order in which `interrupt_stub` pushes them. -/
def savedRegs : List Reg :=
  [.rax, .rbx, .rcx, .rdx, .r8, .r9, .r10, .r11, .r12, .r13, .r14, .r15]

/-- `interrupt_stub` up to the call. -/
def interruptStubEntry : List Instr :=
  [.push .rax, .push .rbx, .push .rcx, .push .rdx, .push .r8, .push .r9, .push .r10, .push .r11,
    .push .r12, .push .r13, .push .r14, .push .r15]

/-- `interrupt_stub` after the call, up to `iret`. -/
def interruptStubExit : List Instr :=
  [.pop .r15, .pop .r14, .pop .r13, .pop .r12, .pop .r11, .pop .r10, .pop .r9, .pop .r8, .pop .rdx,
    .pop .rcx, .pop .rbx, .pop .rax, .addRsp 16]

/-- The handlers without a dummy error code. -/
def bareHandlers : List Nat := [8, 10, 11, 12, 13, 14, 17]

/-- `vector_v_handler` up to its jump to `interrupt_stub`. -/
def vectorHandler (vector : Nat) : List Instr :=
  if vector ∈ bareHandlers then [.pushQword vector] else [.pushQword 0, .pushQword vector]

/-- `CPUStatus`, lowest address first. -/
structure CPUStatus where
  r15 : Word
  r14 : Word
  r13 : Word
  r12 : Word
  r11 : Word
  r10 : Word
  r9 : Word
  r8 : Word
  rdx : Word
  rcx : Word
  rbx : Word
  rax : Word
  vectorNumber : Word
  errorCode : Word
  iret_rip : Word
  iret_cs : Word
  iret_flags : Word
  iret_rsp : Word
  iret_ss : Word
deriving DecidableEq, Repr

/-- What `*ctx` reads. -/
def statusAt (mem : WordMemory) (ctx : Word) : CPUStatus where
  r15 := mem (slot ctx 0)
  r14 := mem (slot ctx 1)
  r13 := mem (slot ctx 2)
  r12 := mem (slot ctx 3)
  r11 := mem (slot ctx 4)
  r10 := mem (slot ctx 5)
  r9 := mem (slot ctx 6)
  r8 := mem (slot ctx 7)
  rdx := mem (slot ctx 8)
  rcx := mem (slot ctx 9)
  rbx := mem (slot ctx 10)
  rax := mem (slot ctx 11)
  vectorNumber := mem (slot ctx 12)
  errorCode := mem (slot ctx 13)
  iret_rip := mem (slot ctx 14)
  iret_cs := mem (slot ctx 15)
  iret_flags := mem (slot ctx 16)
  iret_rsp := mem (slot ctx 17)
  iret_ss := mem (slot ctx 18)

/-! The processor. -/

/-- An interrupt of `interrupted`: the vector, the error code of the vectors that have one,
the fields of the interrupt frame that are no general-purpose registers, and the stack the
processor pushes to. -/
structure Interrupt where
  interrupted : Cpu
  vector : Fin 256
  errorCode : Word
  rip : Word
  cs : Word
  flags : Word
  ss : Word
  top : Word
  returnAddress : Word

namespace Interrupt

variable (interrupt : Interrupt)

/-- The vectors for which the processor pushes an error code. -/
def hasErrorCode : Bool :=
  interrupt.vector.val = 8 ∨ (10 ≤ interrupt.vector.val ∧ interrupt.vector.val ≤ 14) ∨
    interrupt.vector.val = 17

def frame : List Word :=
  [interrupt.ss, interrupt.interrupted.reg .rsp, interrupt.flags, interrupt.cs, interrupt.rip]

def pushedError : List Word := if interrupt.hasErrorCode then [interrupt.errorCode] else []

/-- The state in which the processor starts the handler. -/
def entered : Cpu :=
  let stack := pushAll ⟨interrupt.interrupted.mem, interrupt.top⟩
    (interrupt.frame ++ interrupt.pushedError)
  { reg := Function.update interrupt.interrupted.reg .rsp stack.sp, mem := stack.mem }

/-- The state right before the call. -/
def atCall : Cpu :=
  execute id interrupt.returnAddress (vectorHandler interrupt.vector ++ interruptStubEntry)
    interrupt.entered

/-- The state right before `iret`. -/
def atIret (dispatch : Cpu → Cpu) : Cpu :=
  execute dispatch interrupt.returnAddress
    (vectorHandler interrupt.vector ++ interruptStubEntry ++ [.callInterruptDispatch] ++
      interruptStubExit) interrupt.entered

/-- The interrupted values, the vector and the error code. -/
def status : CPUStatus where
  r15 := interrupt.interrupted.reg .r15
  r14 := interrupt.interrupted.reg .r14
  r13 := interrupt.interrupted.reg .r13
  r12 := interrupt.interrupted.reg .r12
  r11 := interrupt.interrupted.reg .r11
  r10 := interrupt.interrupted.reg .r10
  r9 := interrupt.interrupted.reg .r9
  r8 := interrupt.interrupted.reg .r8
  rdx := interrupt.interrupted.reg .rdx
  rcx := interrupt.interrupted.reg .rcx
  rbx := interrupt.interrupted.reg .rbx
  rax := interrupt.interrupted.reg .rax
  vectorNumber := BitVec.ofNat 64 interrupt.vector
  errorCode := if interrupt.hasErrorCode then interrupt.errorCode else 0
  iret_rip := interrupt.rip
  iret_cs := interrupt.cs
  iret_flags := interrupt.flags
  iret_rsp := interrupt.interrupted.reg .rsp
  iret_ss := interrupt.ss

/-- `interruptDispatch` gets a pointer to the pushed status, and the status is right. -/
def Delivered : Prop :=
  interrupt.atCall.reg .rdi = interrupt.atCall.reg .rsp ∧
    statusAt interrupt.atCall.mem (interrupt.atCall.reg .rsp) = interrupt.status

/-- At `iret` the registers are as they were, and `rsp` points at the interrupt frame. -/
def Restored (dispatch : Cpu → Cpu) : Prop :=
  (∀ reg, reg ≠ .rsp → (interrupt.atIret dispatch).reg reg = interrupt.interrupted.reg reg) ∧
    slot ((interrupt.atIret dispatch).reg .rsp) 5 = interrupt.top

end Interrupt

/-- The function returns, keeps the registers that belong to its caller, and leaves the
status on the caller's stack as it is. -/
structure RespectsSysV (dispatch : Cpu → Cpu) : Prop where
  rsp : ∀ cpu, (dispatch cpu).reg .rsp = cpu.reg .rsp + 8
  kept : ∀ cpu, ∀ reg ∈ [Reg.rbx, .rbp, .r12, .r13, .r14, .r15],
    (dispatch cpu).reg reg = cpu.reg reg
  frame : ∀ cpu, ∀ i < 19, (dispatch cpu).mem (slot (cpu.reg .rsp) (i + 1)) =
    cpu.mem (slot (cpu.reg .rsp) (i + 1))

/-! Pushing and popping. -/

def Cpu.stack (cpu : Cpu) : Stack := ⟨cpu.mem, cpu.reg .rsp⟩

section

variable {dispatch : Cpu → Cpu} {returnAddress : Word}

theorem Cpu.push_stack (cpu : Cpu) (word : Word) :
    (cpu.push word).stack = WordStack.push cpu.stack word := by
  simp [Cpu.push, Cpu.stack, WordStack.push]

theorem Cpu.push_rsp (cpu : Cpu) (word : Word) : (cpu.push word).reg .rsp = cpu.reg .rsp - 8 := by
  simp [Cpu.push]

theorem Cpu.push_reg (cpu : Cpu) (word : Word) {reg : Reg} (other : reg ≠ .rsp) :
    (cpu.push word).reg reg = cpu.reg reg :=
  Function.update_of_ne other _ _

theorem execute_append (first second : List Instr) (cpu : Cpu) :
    execute dispatch returnAddress (first ++ second) cpu =
      execute dispatch returnAddress second (execute dispatch returnAddress first cpu) :=
  List.foldl_append

theorem execute_noCall {code : List Instr} (noCall : .callInterruptDispatch ∉ code) (cpu : Cpu) :
    execute dispatch returnAddress code cpu = execute id returnAddress code cpu := by
  induction code generalizing cpu with
  | nil => rfl
  | cons instr rest ih =>
      rw [List.mem_cons, not_or] at noCall
      have same : step dispatch returnAddress cpu instr = step id returnAddress cpu instr := by
        cases instr with
        | callInterruptDispatch => exact absurd rfl noCall.1
        | _ => rfl
      rw [execute, List.foldl_cons, same]
      exact ih noCall.2 _

/-- Only `rsp` and the stack have changed, by the words that were pushed. -/
structure Pushed (words : List Word) (before after : Cpu) : Prop where
  stack : after.stack = pushAll before.stack words
  regs : ∀ reg, reg ≠ .rsp → after.reg reg = before.reg reg

theorem Pushed.trans {first second : List Word} {before between after : Cpu}
    (left : Pushed first before between) (right : Pushed second between after) :
    Pushed (first ++ second) before after := by
  refine ⟨?_, fun reg other => (right.regs reg other).trans (left.regs reg other)⟩
  rw [right.stack, left.stack, pushAll_append]

theorem Pushed.one (cpu : Cpu) (word : Word) : Pushed [word] cpu (cpu.push word) :=
  ⟨cpu.push_stack word, fun _ other => cpu.push_reg word other⟩

theorem execute_pushRegs {regs : List Reg} (noRsp : .rsp ∉ regs) (cpu : Cpu) :
    Pushed (regs.map cpu.reg) cpu
      (execute dispatch returnAddress (regs.map .push) cpu) := by
  induction regs generalizing cpu with
  | nil => exact ⟨rfl, fun _ _ => rfl⟩
  | cons reg rest ih =>
      rw [List.mem_cons, not_or] at noRsp
      have first := Pushed.one cpu (cpu.reg reg)
      have same : rest.map (cpu.push (cpu.reg reg)).reg = rest.map cpu.reg :=
        List.map_congr_left fun other member =>
          first.regs other fun isRsp => noRsp.2 (isRsp ▸ member)
      have later := ih noRsp.2 (cpu.push (cpu.reg reg))
      rw [same] at later
      exact first.trans later

/-- The registers hold the words from `rsp` on, and `rsp` has moved behind them. -/
structure Popped (regs : List Reg) (before after : Cpu) : Prop where
  mem : after.mem = before.mem
  rsp : after.reg .rsp = slot (before.reg .rsp) regs.length
  loaded : regs.map after.reg = readWords before.mem (before.reg .rsp) regs.length
  others : ∀ reg, reg ∉ regs → reg ≠ .rsp → after.reg reg = before.reg reg

theorem Cpu.pop_reg (cpu : Cpu) {target reg : Reg} (notTarget : reg ≠ target)
    (notRsp : reg ≠ .rsp) : (cpu.pop target).reg reg = cpu.reg reg := by
  simp [Cpu.pop, notTarget, notRsp]

theorem Cpu.pop_target (cpu : Cpu) (target : Reg) :
    (cpu.pop target).reg target = cpu.mem (cpu.reg .rsp) := by
  simp [Cpu.pop]

theorem Cpu.pop_rsp (cpu : Cpu) {target : Reg} (notRsp : .rsp ≠ target) :
    (cpu.pop target).reg .rsp = slot (cpu.reg .rsp) 1 := by
  simp [Cpu.pop, notRsp, slot]

theorem execute_popRegs {regs : List Reg} (distinct : regs.Nodup) (noRsp : .rsp ∉ regs)
    (cpu : Cpu) : Popped regs cpu (execute dispatch returnAddress (regs.map .pop) cpu) := by
  induction regs generalizing cpu with
  | nil => exact ⟨rfl, (slot_zero _).symm, rfl, fun _ _ _ => rfl⟩
  | cons reg rest ih =>
      rw [List.mem_cons, not_or] at noRsp
      obtain ⟨fresh, distinct⟩ := List.nodup_cons.mp distinct
      have later := ih distinct noRsp.2 (cpu.pop reg)
      have regNotRsp : reg ≠ .rsp := fun same => noRsp.1 same.symm
      change Popped (reg :: rest) cpu
        (execute dispatch returnAddress (rest.map .pop) (cpu.pop reg))
      obtain ⟨mem, rsp, loaded, others⟩ := later
      rw [cpu.pop_rsp noRsp.1] at rsp loaded
      refine ⟨mem, ?_, ?_, ?_⟩
      · rw [rsp, slot_slot, List.length_cons, Nat.add_comm]
      · rw [List.map_cons, loaded, others reg fresh regNotRsp, cpu.pop_target, List.length_cons,
          readWords_succ]
        rfl
      · intro other notMem notRsp
        rw [List.mem_cons, not_or] at notMem
        rw [others other notMem.2 notRsp, cpu.pop_reg notMem.1 notRsp]

end

/-! The status on the stack. -/

def CPUStatus.words (status : CPUStatus) : List Word :=
  [status.r15, status.r14, status.r13, status.r12, status.r11, status.r10, status.r9, status.r8,
    status.rdx, status.rcx, status.rbx, status.rax, status.vectorNumber, status.errorCode,
    status.iret_rip, status.iret_cs, status.iret_flags, status.iret_rsp, status.iret_ss]

theorem CPUStatus.words_injective {first second : CPUStatus}
    (same : first.words = second.words) : first = second := by
  cases first
  cases second
  simpa [CPUStatus.words] using same

theorem statusAt_words (mem : WordMemory) (ctx : Word) :
    (statusAt mem ctx).words = readWords mem ctx 19 := rfl

def handlerWords (vector : Nat) : List Word :=
  if vector ∈ bareHandlers then [BitVec.ofNat 64 vector] else [0, BitVec.ofNat 64 vector]

theorem execute_handler (dispatch : Cpu → Cpu) (returnAddress : Word) (vector : Nat) (cpu : Cpu) :
    Pushed (handlerWords vector) cpu
      (execute dispatch returnAddress (vectorHandler vector) cpu) := by
  rw [handlerWords, vectorHandler]
  split
  · exact Pushed.one cpu _
  · exact (Pushed.one cpu _).trans (Pushed.one _ _)

namespace Interrupt

variable (interrupt : Interrupt)

theorem bare_iff : interrupt.vector.val ∈ bareHandlers ↔ interrupt.hasErrorCode = true := by
  simp only [bareHandlers, hasErrorCode, List.mem_cons, List.not_mem_nil, or_false,
    decide_eq_true_eq]
  omega

/-- The processor, the handler and the stub together push the status, last word first. -/
theorem pushed_words : interrupt.frame ++ interrupt.pushedError ++ handlerWords interrupt.vector ++
    savedRegs.map interrupt.interrupted.reg = interrupt.status.words.reverse := by
  have bare := interrupt.bare_iff
  cases coded : interrupt.hasErrorCode with
  | true => simp [frame, pushedError, handlerWords, bare, coded, savedRegs, status, CPUStatus.words]
  | false => simp [frame, pushedError, handlerWords, bare, coded, savedRegs, status, CPUStatus.words]

theorem atCall_pushed : Pushed (handlerWords interrupt.vector ++ savedRegs.map interrupt.entered.reg)
    interrupt.entered interrupt.atCall := by
  have handler := execute_handler id interrupt.returnAddress interrupt.vector interrupt.entered
  have same : savedRegs.map interrupt.entered.reg = savedRegs.map
      (execute id interrupt.returnAddress (vectorHandler interrupt.vector) interrupt.entered).reg :=
    List.map_congr_left fun reg member =>
      (handler.regs reg fun isRsp => absurd (isRsp ▸ member) (by decide)).symm
  rw [atCall, execute_append, same]
  exact handler.trans (execute_pushRegs (by decide) _)

theorem atCall_stack : interrupt.atCall.stack =
    pushAll ⟨interrupt.interrupted.mem, interrupt.top⟩ interrupt.status.words.reverse := by
  have same : savedRegs.map interrupt.entered.reg = savedRegs.map interrupt.interrupted.reg :=
    List.map_congr_left fun reg member =>
      Function.update_of_ne (fun isRsp => absurd (isRsp ▸ member) (by decide)) _ _
  have entered : interrupt.entered.stack = pushAll ⟨interrupt.interrupted.mem, interrupt.top⟩
      (interrupt.frame ++ interrupt.pushedError) := by
    simp [Interrupt.entered, Cpu.stack]
  rw [interrupt.atCall_pushed.stack, entered, same, ← interrupt.pushed_words, pushAll_append]
  simp only [List.append_assoc]

theorem atCall_reg {reg : Reg} (notRsp : reg ≠ .rsp) :
    interrupt.atCall.reg reg = interrupt.interrupted.reg reg := by
  rw [interrupt.atCall_pushed.regs reg notRsp]
  exact Function.update_of_ne notRsp _ _

theorem atCall_words :
    readWords interrupt.atCall.mem (interrupt.atCall.reg .rsp) 19 = interrupt.status.words := by
  have pushed := readWords_pushAll interrupt.status.words.reverse
    ⟨interrupt.interrupted.mem, interrupt.top⟩ (show _ + 0 ≤ 2 ^ 60 by simp [CPUStatus.words])
  rw [← interrupt.atCall_stack, List.reverse_reverse] at pushed
  simpa [CPUStatus.words, readWords, Cpu.stack] using pushed

theorem atCall_rsp : slot (interrupt.atCall.reg .rsp) 19 = interrupt.top := by
  have pushed := pushAll_sp interrupt.status.words.reverse ⟨interrupt.interrupted.mem, interrupt.top⟩
  rw [← interrupt.atCall_stack] at pushed
  simpa [CPUStatus.words, Cpu.stack] using pushed

/-- The status is always right; the pointer is right only by chance. -/
theorem delivered_iff :
    interrupt.Delivered ↔ slot (interrupt.interrupted.reg .rdi) 19 = interrupt.top := by
  have status : statusAt interrupt.atCall.mem (interrupt.atCall.reg .rsp) = interrupt.status :=
    CPUStatus.words_injective (by rw [statusAt_words, interrupt.atCall_words])
  rw [Delivered, and_iff_left status, interrupt.atCall_reg (by decide), ← interrupt.atCall_rsp]
  constructor
  · intro same
    rw [same]
  · intro same
    exact slot_left_injective same

section

variable {dispatch : Cpu → Cpu} (respects : RespectsSysV dispatch)

/-- The state after the call. -/
def returned (dispatch : Cpu → Cpu) : Cpu :=
  dispatch (interrupt.atCall.push interrupt.returnAddress)

theorem atIret_eq : interrupt.atIret dispatch =
    execute dispatch interrupt.returnAddress interruptStubExit (interrupt.returned dispatch) := by
  have noCall : .callInterruptDispatch ∉ vectorHandler interrupt.vector ++ interruptStubEntry := by
    rw [vectorHandler]
    split
    · simp [interruptStubEntry]
    · simp [interruptStubEntry]
  rw [atIret, execute_append, execute_append, execute_noCall noCall]
  rfl

theorem atIret_popped : ∃ popped, Popped savedRegs.reverse (interrupt.returned dispatch) popped ∧
    (∀ reg, reg ≠ .rsp → (interrupt.atIret dispatch).reg reg = popped.reg reg) ∧
    (interrupt.atIret dispatch).reg .rsp = slot (popped.reg .rsp) 2 := by
  have exit : interruptStubExit = savedRegs.reverse.map .pop ++ [.addRsp 16] := rfl
  refine ⟨execute dispatch interrupt.returnAddress (savedRegs.reverse.map .pop)
    (interrupt.returned dispatch), execute_popRegs (by decide) (by decide) _, ?_, ?_⟩
  · intro reg notRsp
    rw [interrupt.atIret_eq, exit, execute_append]
    exact Function.update_of_ne notRsp _ _
  · rw [interrupt.atIret_eq, exit, execute_append]
    simp [execute, step, slot]

include respects

theorem returned_rsp : (interrupt.returned dispatch).reg .rsp = interrupt.atCall.reg .rsp := by
  rw [returned, respects.rsp, Cpu.push_rsp, BitVec.sub_add_cancel]

theorem returned_words : readWords (interrupt.returned dispatch).mem
    ((interrupt.returned dispatch).reg .rsp) 19 = interrupt.status.words := by
  rw [interrupt.returned_rsp respects, ← interrupt.atCall_words]
  apply readWords_congr
  intro i less
  have kept := respects.frame (interrupt.atCall.push interrupt.returnAddress) i less
  rw [Cpu.push_rsp, slot_below] at kept
  rw [returned, kept]
  exact Function.update_of_ne (slot_ne_below _ (by omega)) _ _

/-- The twelve saved registers, `rbp` and `rsp` are right at `iret`; `rsi` and `rdi` are what
`interruptDispatch` has left there. -/
theorem restored_iff : interrupt.Restored dispatch ↔
    (interrupt.returned dispatch).reg .rsi = interrupt.interrupted.reg .rsi ∧
      (interrupt.returned dispatch).reg .rdi = interrupt.interrupted.reg .rdi := by
  obtain ⟨popped, ⟨_, poppedRsp, loaded, others⟩, regs, rsp⟩ := interrupt.atIret_popped
  have saved : savedRegs.reverse.map popped.reg =
      savedRegs.reverse.map interrupt.interrupted.reg := by
    have words := congrArg (List.take 12) (interrupt.returned_words respects)
    rw [readWords_take _ _ (by decide)] at words
    rw [loaded]
    exact words
  have rbp : (interrupt.returned dispatch).reg .rbp = interrupt.interrupted.reg .rbp := by
    rw [returned, respects.kept _ _ (by decide), Cpu.push_reg _ _ (by decide),
      interrupt.atCall_reg (by decide)]
  have rspEq : slot ((interrupt.atIret dispatch).reg .rsp) 5 = interrupt.top := by
    rw [rsp, poppedRsp, interrupt.returned_rsp respects, slot_slot, slot_slot, ← interrupt.atCall_rsp]
    rfl
  rw [Restored, and_iff_left rspEq]
  constructor
  · intro restored
    refine ⟨?_, ?_⟩
    · rw [← restored .rsi (by decide), regs .rsi (by decide), others .rsi (by decide) (by decide)]
    · rw [← restored .rdi (by decide), regs .rdi (by decide), others .rdi (by decide) (by decide)]
  · rintro ⟨rsi, rdi⟩ reg notRsp
    rw [regs reg notRsp]
    by_cases member : reg ∈ savedRegs.reverse
    · exact List.map_inj_left.mp saved reg member
    · rw [others reg member notRsp]
      cases reg with
      | rsi => exact rsi
      | rdi => exact rdi
      | rbp => exact rbp
      | rsp => exact absurd rfl notRsp
      | _ => exact absurd (by decide) member

end

/-- The status is delivered, and every function that keeps to the calling convention leaves
the interrupted registers as they were. -/
def Correct : Prop :=
  interrupt.Delivered ∧ ∀ dispatch, RespectsSysV dispatch → interrupt.Restored dispatch

end Interrupt

/-- A function that uses `rsi` for a value of its own. -/
def usesRsi (cpu : Cpu) : Cpu :=
  let returned := Function.update cpu.reg .rsp (cpu.reg .rsp + 8)
  { cpu with reg := Function.update returned .rsi (~~~cpu.reg .rsi) }

theorem usesRsi_respects : RespectsSysV usesRsi := by
  refine ⟨fun cpu => by simp [usesRsi], ?_, fun cpu i less => rfl⟩
  intro cpu reg member
  have notRsi : reg ≠ .rsi := fun same => absurd (same ▸ member) (by decide)
  have notRsp : reg ≠ .rsp := fun same => absurd (same ▸ member) (by decide)
  simp [usesRsi, notRsi, notRsp]

theorem usesRsi_notRestored (interrupt : Interrupt) : ¬interrupt.Restored usesRsi := by
  rw [interrupt.restored_iff usesRsi_respects]
  rintro ⟨rsi, _⟩
  simp only [Interrupt.returned, usesRsi, Function.update_self] at rsi
  rw [Cpu.push_reg _ _ (by decide), interrupt.atCall_reg (by decide)] at rsi
  bv_omega

/-- The pointer is right if `rdi` happened to hold it, the registers are right if
`interruptDispatch` happens to keep `rsi` and `rdi`, and so no vector, register content or
error code is handled as it should. -/
theorem interrupt_notCorrect (interrupt : Interrupt) :
    (interrupt.Delivered ↔ slot (interrupt.interrupted.reg .rdi) 19 = interrupt.top) ∧
      (∀ dispatch, RespectsSysV dispatch → (interrupt.Restored dispatch ↔
        (interrupt.returned dispatch).reg .rsi = interrupt.interrupted.reg .rsi ∧
          (interrupt.returned dispatch).reg .rdi = interrupt.interrupted.reg .rdi)) ∧
      ¬interrupt.Correct :=
  ⟨interrupt.delivered_iff, fun _ => interrupt.restored_iff,
    fun correct => usesRsi_notRestored interrupt (correct.2 usesRsi usesRsi_respects)⟩

/-- A page fault while all registers are zero. -/
def pageFaultAtZero : Interrupt where
  interrupted := { reg := fun _ => 0, mem := fun _ => 0 }
  vector := 14
  errorCode := 2
  rip := 0
  cs := 8
  flags := 2
  ss := 0
  top := 0x8000
  returnAddress := 0

/-- `interruptDispatch` gets `NULL`, and `rsi` is lost. -/
theorem pageFaultAtZero_notCorrect : pageFaultAtZero.atCall.reg .rdi = 0 ∧
    pageFaultAtZero.atCall.reg .rsp = 0x7f68 ∧ ¬pageFaultAtZero.Delivered ∧
    RespectsSysV usesRsi ∧ ¬pageFaultAtZero.Restored usesRsi := by
  refine ⟨by decide, by decide, ?_, usesRsi_respects, usesRsi_notRestored _⟩
  rw [Interrupt.delivered_iff]
  decide

end OkeOS
