import OkeOS.ConsoleMeaning
import OkeOS.FaultText
import OkeOS.InterruptEntry

/-!
`panic.cpp` and `interruptDispatch` of `idt/ints.cpp`.  `panic` ends in `while(1)`; what it
returns here is the console in which it goes round.
-/

namespace OkeOS

open ByteMemory Fuel

/-- `struct stackframe`, as it stands in memory. -/
structure StackFrame where
  rbp : Nat
  rip : Nat

def stackframe (mem : Memory) (stk : Nat) : StackFrame where
  rbp := load mem stk 8
  rip := load mem (add64 stk 8) 8

section

variable (stringAt : UInt64 → CString) (fuel : Nat)

/-- A call with the format as a literal; the arguments that are left are dropped. -/
def printf (serial terminal : Bool) (str : String) (args : List UInt64) (console : Console) :
    Except Fault Console := do
  let (_, console) ← kprintf stringAt fuel (.ofBuffer (text str)) serial terminal args console
  .ok console

/-- The function `kprintf`, to the terminal only. -/
def kprintfTerminal (str : String) (args : List UInt64) (console : Console) :
    Except Fault Console :=
  printf stringAt fuel false true str args console

def kprintfSerial (str : String) (args : List UInt64) (console : Console) :
    Except Fault Console :=
  printf stringAt fuel true false str args console

/-- The loop of the traces, with the frames that are left of `MaxFrames`.  The return address of a
frame is read before the next frame is, and a word that the page tables do not map faults. -/
def traceLoop (print : String → List UInt64 → Console → Except Fault Console) (mapped : Nat → Bool)
    (mem : Memory) : Nat → Nat → Console → Except Fault Console
  | 0, _, console => .ok console
  | frames + 1, stk, console =>
      if stk = 0 then .ok console
      else if mapped (add64 stk 8) = false then .error (.unmapped (add64 stk 8))
      else do
        let console ← print "  0x%x     \n" [UInt64.ofNat (stackframe mem stk).rip] console
        if mapped stk = false then .error (.unmapped stk)
        else traceLoop print mapped mem frames (stackframe mem stk).rbp console

/-- `frame` is what `__builtin_frame_address(0)` gives. -/
def traceStackTrace (mapped : Nat → Bool) (mem : Memory) (frame maxFrames : Nat)
    (console : Console) : Except Fault Console := do
  let console ← kprintfTerminal stringAt fuel "Stack trace:\n" [] console
  traceLoop (kprintfTerminal stringAt fuel) mapped mem maxFrames frame console

def traceStackTraceOnlySerial (mapped : Nat → Bool) (mem : Memory) (frame maxFrames : Nat)
    (console : Console) : Except Fault Console := do
  let console ← kprintfSerial stringAt fuel "Stack trace:\n" [] console
  traceLoop (kprintfSerial stringAt fuel) mapped mem maxFrames frame console

/-- `serialFrame` and `terminalFrame` are the frames of the two calls that trace the stack. -/
def panic (mapped : Nat → Bool) (mem : Memory) (serialFrame terminalFrame : Nat) (msg : UInt64)
    (console : Console) : Except Fault Console := do
  let console := { console with gTerminal := { console.gTerminal with fgColor := 0xFF0000 } }
  let console ← kprintfSerial stringAt fuel "Panic GODDAMN!\n" [] console
  let console ← kprintfSerial stringAt fuel "Message: %s\n\n\n" [msg] console
  let console ← traceStackTraceOnlySerial stringAt fuel mapped mem serialFrame 16 console
  let console ← kprintfTerminal stringAt fuel "\n\n" [] console
  let console ← kprintfTerminal stringAt fuel
    "** okeOS Panic **                             :(\n" [] console
  let console ← kprintfTerminal stringAt fuel
    "A fatal exception occurred and okeOS was halted.\n" [] console
  let console ← kprintfTerminal stringAt fuel "Message: %s\n\n\n" [msg] console
  traceStackTrace stringAt fuel mapped mem terminalFrame 16 console

end

section

variable {stringAt : UInt64 → CString} {serial terminal : Bool} {console : Console}

/-- From a closed pen, the format prints `chars`, and every argument is used. -/
def Writes (stringAt : UInt64 → CString) (str : String) (args : List UInt64)
    (chars : List UInt8) : Prop :=
  ∀ pen : Pen, pen.anything = false →
    meaning stringAt (CString.ofBuffer (text str)).chars false args pen =
      .ok ([], pen, pen.draw chars)

/-- A call whose format has a meaning. -/
theorem printf_refines {str : String} {args rest : List UInt64} {pen : Pen} {ink : Ink}
    (drawn : meaning stringAt (CString.ofBuffer (text str)).chars false args console.pen =
      .ok (rest, pen, ink)) :
    Refines .outOfFuel (Shows serial terminal console)
      (fun fuel => printf stringAt fuel serial terminal str args console) (.ok (pen, ink)) := by
  have refines := (kprintf_meaning stringAt (.ofBuffer (text str)) serial terminal args console).1
  rw [drawn] at refines
  exact refines.andThen fun _ shown => .ok shown.2

theorem Writes.refines {str : String} {args : List UInt64} {chars : List UInt8}
    (writes : Writes stringAt str args chars) (closed : console.pen.anything = false) :
    Refines .outOfFuel (Shows serial terminal console)
      (fun fuel => printf stringAt fuel serial terminal str args console)
      (.ok (console.pen, console.pen.draw chars)) :=
  printf_refines (writes console.pen closed)

theorem Drawn.draws {pen : Pen} {first second : List UInt8} {before between after : Console}
    (left : Drawn serial terminal before pen (pen.draw first) between)
    (right : Drawn serial terminal between between.pen (between.pen.draw second) after) :
    Drawn serial terminal before pen (pen.draw (first ++ second)) after := by
  rw [left.pen] at right
  have both := left.trans right
  rwa [Pen.draw, Pen.draw, ← List.map_append] at both

/-- `line` went to serial and `ink` to the terminal, and the escapes are as in `pen`. -/
structure Said (before : Console) (pen : Pen) (line : List UInt8) (ink : Ink) (after : Console) :
    Prop where
  pen : after.pen = pen
  serialText : serialText after.output = serialText before.output ++ line
  terminalText : terminalText after.output = terminalText before.output ++ ink

theorem Drawn.said {pen pen' : Pen} {line : List UInt8} {ink drawn : Ink}
    {before between after : Console} (said : Said before pen line ink between)
    (shown : Drawn serial terminal between pen' drawn after) :
    Said before pen' (line ++ if serial then drawn.map Prod.fst else [])
      (ink ++ if terminal then drawn else []) after where
  pen := shown.pen
  serialText := by rw [shown.serialText, said.serialText, List.append_assoc]
  terminalText := by rw [shown.terminalText, said.terminalText, List.append_assoc]

theorem Said.draws {chars line : List UInt8} {pen : Pen} {ink : Ink} {before between after : Console}
    (said : Said before pen line ink between)
    (shown : Drawn serial terminal between between.pen (between.pen.draw chars) after) :
    Said before pen (line ++ if serial then chars else [])
      (ink ++ if terminal then pen.draw chars else []) after := by
  have both := shown.said said
  rw [said.pen] at both
  simpa [Pen.draw, Function.comp_def] using both

/-- A call in the middle of `panic`. -/
theorem Said.andThen {β : Type} {run : Nat → Except Fault Console} {chars line : List UInt8}
    {pen : Pen} {ink : Ink} {before between : Console}
    {next : Nat → Console → Except Fault Console} {S : Console → β → Prop}
    {meanings : Except Fault β} (said : Said before pen line ink between)
    (call : Refines .outOfFuel (Shows serial terminal between) run
      (.ok (between.pen, between.pen.draw chars)))
    (later : ∀ after, Said before pen (line ++ if serial then chars else [])
        (ink ++ if terminal then pen.draw chars else []) after →
      Refines .outOfFuel S (fun fuel => next fuel after) meanings) :
    Refines .outOfFuel S (fun fuel => run fuel >>= next fuel) meanings :=
  call.andThen fun after shown => later after (said.draws shown)

end

/-! The message of a page fault, behind those of earlier ones. -/

section

variable {codes : List UInt64} {chars : List UInt8}
  (string : StringAt (faultCalls codes zeroed) 0 chars)

include string

end

/-! The dispatcher. -/

section

variable {stringAt : UInt64 → CString} {console : Console}

end

end OkeOS
