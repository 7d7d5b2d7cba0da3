import OkeOS.ConsoleCore

/-!
What printing characters does to the console while no escape is open: each enabled sink
gets the characters in order, in the current colour.
-/

namespace OkeOS

/-- The characters sent to serial, without the notices of page wraps. -/
def serialText (output : List Event) : List UInt8 :=
  output.filterMap fun
    | .serial c => some c
    | _ => none

/-- The characters sent to the terminal with their colours. -/
def terminalText (output : List Event) : List (UInt8 × UInt32) :=
  output.filterMap fun
    | .terminal c fgColor => some (c, fgColor)
    | _ => none

/-- `chars` went to the enabled sinks, and the escape state and the colour are as before. -/
structure Printed (serial terminal : Bool) (chars : List UInt8) (before after : Console) :
    Prop where
  anything : after.currentlyReadingAnything = before.currentlyReadingAnything
  color : after.currentlyReadingColor = before.currentlyReadingColor
  fgColor : after.gTerminal.fgColor = before.gTerminal.fgColor
  serialText : serialText after.output =
    serialText before.output ++ if serial then chars else []
  terminalText : terminalText after.output = terminalText before.output ++
    if terminal then chars.map fun c => (c, before.gTerminal.fgColor) else []
  serialLine : terminal = false →
    serialLine after.output = serialLine before.output ++ if serial then chars else []

section

variable {serial terminal : Bool} {first second : List UInt8} {before between after : Console}

theorem Printed.refl (console : Console) : Printed serial terminal [] console console := by
  refine ⟨rfl, rfl, rfl, ?_, ?_, ?_⟩ <;> simp

theorem Printed.trans (left : Printed serial terminal first before between)
    (right : Printed serial terminal second between after) :
    Printed serial terminal (first ++ second) before after where
  anything := right.anything.trans left.anything
  color := right.color.trans left.color
  fgColor := right.fgColor.trans left.fgColor
  serialText := by
    rw [right.serialText, left.serialText]
    cases serial <;> simp
  terminalText := by
    rw [right.terminalText, left.terminalText, left.fgColor]
    cases terminal <;> simp
  serialLine := by
    intro off
    rw [right.serialLine off, left.serialLine off]
    cases serial <;> simp

end

/-- The console before anything is printed. -/
def freshConsole : Console :=
  { currentlyReadingAnything := false
    currentlyReadingColor := false
    gTerminal := { charX := 0, charY := 0, charsPerLine := 79, maxLines := 24, fgColor := 0xFFFFFF }
    output := [] }

/-- The notice goes to serial as it stands. -/
theorem clearNotice_closed {console : Console}
    (closed : console.currentlyReadingAnything = false) :
    clearNotice console =
      .ok ([], { console with output := console.output ++ (text "clear").map Event.serial }) := by
  have chars : (CString.ofBuffer (text "clear")).chars = [99, 108, 101, 97, 114] := by decide
  have letters : text "clear" = [99, 108, 101, 97, 114] := by decide
  have percent : '%'.toUInt8 = 37 := rfl
  have dollar : '$'.toUInt8 = 36 := rfl
  rw [clearNotice, kprintfWith, chars, letters]
  simp [kprintfLoop, writeChar, emit, Console.send, closed, percent, dollar, Bind.bind, Except.bind]

theorem showChar_shown (console : Console) (c : UInt8) :
    (showChar console c).currentlyReadingAnything = console.currentlyReadingAnything ∧
      (showChar console c).currentlyReadingColor = console.currentlyReadingColor ∧
      (showChar console c).gTerminal = console.gTerminal ∧
      serialText (showChar console c).output = serialText console.output ∧
      terminalText (showChar console c).output =
        terminalText console.output ++ [(c, console.gTerminal.fgColor)] := by
  simp only [showChar]
  split
  · simp [Console.send, serialText, terminalText]
  · simp [Console.send, serialText, terminalText]

/-- `Terminal::writechar` takes the character in the current colour. -/
theorem writechar_printed {console : Console} (c : UInt8)
    (closed : console.currentlyReadingAnything = false) :
    ∃ after, writechar console c = .ok after ∧
      after.currentlyReadingAnything = false ∧
      after.currentlyReadingColor = console.currentlyReadingColor ∧
      after.gTerminal.fgColor = console.gTerminal.fgColor ∧
      serialText after.output = serialText console.output ∧
      terminalText after.output =
        terminalText console.output ++ [(c, console.gTerminal.fgColor)] := by
  obtain ⟨anything, color, same, serialEq, terminalEq⟩ := showChar_shown console c
  rw [← serialEq, ← terminalEq, ← color, ← same]
  rw [closed] at anything
  simp only [writechar]
  generalize showChar console c = shown at anything
  split
  · split
    · rw [clearNotice_closed (by exact anything)]
      refine ⟨_, rfl, anything, rfl, rfl, ?_, ?_⟩
      · simp [serialText]
      · simp [terminalText]
    · exact ⟨_, rfl, anything, rfl, rfl, rfl, rfl⟩
  · exact ⟨_, rfl, anything, rfl, rfl, rfl, rfl⟩

theorem emit_printed {console : Console} (c : UInt8) (serial terminal : Bool)
    (closed : console.currentlyReadingAnything = false) :
    ∃ after, emit writechar c serial terminal console = .ok after ∧
      Printed serial terminal [c] console after := by
  have sent : ∃ between, (if serial then console.send (.serial c) else console) = between ∧
      Printed serial false [c] console between := by
    refine ⟨_, rfl, ?_⟩
    cases serial
    · refine ⟨rfl, rfl, rfl, ?_, ?_, ?_⟩ <;> simp
    · refine ⟨rfl, rfl, rfl, ?_, ?_, ?_⟩ <;> simp [Console.send, serialText, terminalText, serialLine]
  obtain ⟨between, betweenEq, printed⟩ := sent
  simp only [emit, betweenEq]
  cases terminal with
  | false => exact ⟨between, rfl, printed⟩
  | true =>
      obtain ⟨after, run, stillClosed, color, fgColor, serialEq, terminalEq⟩ :=
        writechar_printed c (printed.anything.trans closed)
      refine ⟨after, run, stillClosed.trans closed.symm, color.trans printed.color,
        fgColor.trans printed.fgColor, ?_, ?_, fun off => by simp at off⟩
      · rw [serialEq, printed.serialText]
      · rw [terminalEq, printed.terminalText, printed.fgColor]
        simp

/-- Calls of `__writeChar`, one for each character. -/
def writeChars (chars : List UInt8) (serial terminal : Bool) (console : Console) :
    Except Fault Console :=
  chars.foldlM (fun console c => writeChar writechar c serial terminal console) console

theorem writeChar_closed {console : Console} {c : UInt8} (serial terminal : Bool)
    (plain : c ≠ '$'.toUInt8) (closed : console.currentlyReadingAnything = false) :
    writeChar writechar c serial terminal console = emit writechar c serial terminal console := by
  simp [writeChar, plain, closed]

/-- Without an open escape and without a dollar sign, `__write` and the calls of
`__writeChar` both send the whole string to the sinks. -/
theorem writeLoop_closed {chars : List UInt8} (fuel : Nat) (serial terminal : Bool)
    {console : Console} (plain : '$'.toUInt8 ∉ chars)
    (closed : console.currentlyReadingAnything = false) (enough : chars.length ≤ fuel) :
    ∃ after, writeLoop writechar fuel chars serial terminal console = .ok after ∧
      writeChars chars serial terminal console = .ok after ∧
      Printed serial terminal chars console after := by
  induction chars generalizing fuel console with
  | nil => exact ⟨console, by simp [writeLoop], rfl, Printed.refl console⟩
  | cons c rest ih =>
      rw [List.mem_cons, not_or] at plain
      obtain ⟨between, emitted, printed⟩ := emit_printed c serial terminal closed
      cases fuel with
      | zero => simp at enough
      | succ fuel =>
          rw [List.length_cons] at enough
          obtain ⟨after, loop, calls, later⟩ := ih fuel plain.2 (printed.anything.trans closed)
            (by omega)
          have notDollar : c ≠ '$'.toUInt8 := Ne.symm plain.1
          refine ⟨after, ?_, ?_, printed.trans later⟩
          · rw [writeLoop, if_neg notDollar, closed, emitted]
            exact loop
          · rw [writeChars, List.foldlM_cons, writeChar_closed serial terminal notDollar closed,
              emitted]
            exact calls

end OkeOS
