import OkeOS.ConsoleOutput

/-!
`__write` against one call of `__writeChar` for each character.  The two agree while no
escape is open; `__write` does not step over the characters of an escape, so with an open
escape it loops or prints them.
-/

namespace OkeOS

/-- The consoles agree in what was sent, the colour and the escape state. -/
structure SameOutcome (first second : Console) : Prop where
  serialLine : serialLine first.output = serialLine second.output
  terminalText : terminalText first.output = terminalText second.output
  fgColor : first.gTerminal.fgColor = second.gTerminal.fgColor
  anything : first.currentlyReadingAnything = second.currentlyReadingAnything
  color : first.currentlyReadingColor = second.currentlyReadingColor

/-- `__write` returns and does what the calls of `__writeChar` do. -/
def WriteAgrees (str : CString) (serial terminal : Bool) (console : Console) : Prop :=
  ∃ fuel final expected, write writechar fuel str serial terminal console = .ok final ∧
    writeChars str.chars serial terminal console = .ok expected ∧ SameOutcome final expected

section

variable {fuel : Nat} {chars rest : List UInt8} {c : UInt8} {serial terminal : Bool}
  {console : Console}

theorem writeLoop_more {fuel' : Nat} {final : Console}
    (run : writeLoop writechar fuel chars serial terminal console = .ok final)
    (le : fuel ≤ fuel') :
    writeLoop writechar fuel' chars serial terminal console = .ok final := by
  induction fuel generalizing fuel' chars console with
  | zero =>
      cases chars with
      | nil => simpa [writeLoop] using run
      | cons c rest => simp [writeLoop] at run
  | succ fuel ih =>
      cases chars with
      | nil => simpa [writeLoop] using run
      | cons c rest =>
          obtain ⟨more, rfl⟩ : ∃ more, fuel' = more + 1 := ⟨fuel' - 1, by omega⟩
          have less : fuel ≤ more := by omega
          rw [writeLoop] at run ⊢
          by_cases dollar : c = '$'.toUInt8
          · rw [if_pos dollar] at run ⊢
            exact ih run less
          · rw [if_neg dollar] at run ⊢
            split at run
            · rename_i reading
              rw [if_pos reading]
              split at run
              · rename_i readingColor
                rw [if_pos readingColor]
                exact ih run less
              · rename_i notColor
                rw [if_neg notColor]
                split at run
                · rename_i isC
                  rw [if_pos isC]
                  exact ih run less
                · rename_i notC
                  rw [if_neg notC]
                  exact ih run less
            · rename_i closed
              rw [if_neg closed]
              obtain ⟨between, emitted, later⟩ := Fault.peel run
              rw [emitted]
              exact ih later less

/-- A dollar sign is never stepped over. -/
theorem writeLoop_dollar (dollar : '$'.toUInt8 ∈ chars) :
    writeLoop writechar fuel chars serial terminal console = .error .outOfFuel := by
  induction fuel generalizing chars console with
  | zero =>
      cases chars with
      | nil => simp at dollar
      | cons c rest => rw [writeLoop]
  | succ fuel ih =>
      cases chars with
      | nil => simp at dollar
      | cons c rest =>
          rw [writeLoop]
          split
          · exact ih dollar
          · rename_i notDollar
            split
            · split
              · exact ih dollar
              · split
                · exact ih dollar
                · exact ih dollar
            · rename_i closed
              obtain ⟨between, emitted, _⟩ :=
                emit_printed c serial terminal (by simpa using closed)
              rw [emitted]
              have later : '$'.toUInt8 ∈ rest := by
                rcases List.mem_cons.mp dollar with same | later
                · exact absurd same.symm notDollar
                · exact later
              exact ih later

/-- An escape that does not go on with the letter c is never stepped over. -/
theorem writeLoop_stuck (notDollar : c ≠ '$'.toUInt8) (notC : c ≠ 'c'.toUInt8)
    (reading : console.currentlyReadingAnything = true)
    (noColor : console.currentlyReadingColor = false) :
    writeLoop writechar fuel (c :: rest) serial terminal console = .error .outOfFuel := by
  induction fuel with
  | zero => rw [writeLoop]
  | succ fuel ih =>
      rw [writeLoop, if_neg notDollar, if_pos reading, if_neg (by simp [noColor]), if_neg notC]
      exact ih

/-- Both ways to print from the letter of a colour on: `__write` prints the letter too. -/
theorem write_letter (serial terminal : Bool) (console : Console) (plain : '$'.toUInt8 ∉ c :: rest)
    (reading : console.currentlyReadingAnything = true)
    (color : console.currentlyReadingColor = true) :
    ∃ final expected,
      writeLoop writechar (rest.length + 2) (c :: rest) serial terminal console = .ok final ∧
      writeChars (c :: rest) serial terminal console = .ok expected ∧
      Printed serial terminal (c :: rest) (console.setColor c) final ∧
      Printed serial terminal rest (console.setColor c) expected := by
  have notDollar : c ≠ '$'.toUInt8 := by
    rintro rfl
    simp at plain
  have closed : (console.setColor c).currentlyReadingAnything = false := rfl
  obtain ⟨final, loop, _, printed⟩ := writeLoop_closed (rest.length + 1) serial terminal plain
    closed (by simp)
  obtain ⟨expected, _, calls, later⟩ := writeLoop_closed rest.length serial terminal
    (fun member => plain (List.mem_cons_of_mem _ member)) closed (Nat.le_refl _)
  refine ⟨final, expected, ?_, ?_, printed, later⟩
  · rw [writeLoop, if_neg notDollar, if_pos reading, if_pos color]
    exact loop
  · have first : writeChar writechar c serial terminal console = .ok (console.setColor c) := by
      rw [writeChar, if_neg notDollar, if_pos reading, if_pos color]
    rw [writeChars, List.foldlM_cons, first]
    exact calls

/-- What the letter c does to an escape that starts. -/
theorem write_c (fuel : Nat) (rest : List UInt8) (serial terminal : Bool)
    (reading : console.currentlyReadingAnything = true)
    (noColor : console.currentlyReadingColor = false) :
    writeLoop writechar (fuel + 1) ('c'.toUInt8 :: rest) serial terminal console =
        writeLoop writechar fuel ('c'.toUInt8 :: rest) serial terminal
          { console with currentlyReadingColor := true } ∧
      writeChars ('c'.toUInt8 :: rest) serial terminal console =
        writeChars rest serial terminal { console with currentlyReadingColor := true } := by
  have notDollar : 'c'.toUInt8 ≠ '$'.toUInt8 := by decide
  constructor
  · rw [writeLoop, if_neg notDollar, if_pos reading, if_neg (by simp [noColor]), if_pos rfl]
  · have first : writeChar writechar 'c'.toUInt8 serial terminal console =
        .ok { console with currentlyReadingColor := true } := by
      rw [writeChar, if_neg notDollar, if_pos reading, if_neg (by simp [noColor]), if_pos rfl]
    rw [writeChars, List.foldlM_cons, first]
    rfl

/-- Printing more characters shows on every enabled sink. -/
theorem sameOutcome_iff {longer shorter : List UInt8} {left right final expected : Console}
    (first : Printed serial terminal longer left final)
    (second : Printed serial terminal shorter right expected)
    (sameOutput : left.output = right.output)
    (sameAnything : left.currentlyReadingAnything = right.currentlyReadingAnything)
    (sameColor : left.currentlyReadingColor = right.currentlyReadingColor)
    (more : shorter.length < longer.length) :
    SameOutcome final expected ↔
      serial = false ∧ terminal = false ∧ left.gTerminal.fgColor = right.gTerminal.fgColor := by
  constructor
  · intro same
    have noTerminal : terminal = false := by
      by_contra on
      rw [Bool.not_eq_false] at on
      have lengths := congrArg List.length same.terminalText
      rw [first.terminalText, second.terminalText, sameOutput, on] at lengths
      simp at lengths
      omega
    have noSerial : serial = false := by
      by_contra on
      rw [Bool.not_eq_false] at on
      have lengths := congrArg List.length same.serialLine
      rw [first.serialLine noTerminal, second.serialLine noTerminal, sameOutput, on] at lengths
      simp at lengths
      omega
    refine ⟨noSerial, noTerminal, ?_⟩
    rw [← first.fgColor, ← second.fgColor]
    exact same.fgColor
  · rintro ⟨rfl, rfl, sameFg⟩
    refine ⟨?_, ?_, ?_, ?_, ?_⟩
    · rw [first.serialLine rfl, second.serialLine rfl, sameOutput]
      simp
    · rw [first.terminalText, second.terminalText, sameOutput]
      simp
    · rw [first.fgColor, second.fgColor, sameFg]
    · rw [first.anything, second.anything, sameAnything]
    · rw [first.color, second.color, sameColor]

end

/-- No dollar sign, and no open escape that `__write` would loop on or print. -/
def EscapeHarmless (str : CString) (serial terminal : Bool) (console : Console) : Prop :=
  '$'.toUInt8 ∉ str.chars ∧
    (str.chars = [] ∨ console.currentlyReadingAnything = false ∨
      serial = false ∧ terminal = false ∧ (console.currentlyReadingColor = true ∨
        ∃ letter rest, str.chars = 'c'.toUInt8 :: letter :: rest ∧
          colorOf letter console.gTerminal.fgColor = console.gTerminal.fgColor))

section

variable {str : CString} {serial terminal : Bool} {console : Console}

/-- Enough fuel decides whether the two agree. -/
theorem writeAgrees_iff_of_runs (str : CString) {fuel : Nat} {final expected : Console}
    (loop : writeLoop writechar fuel str.chars serial terminal console = .ok final)
    (calls : writeChars str.chars serial terminal console = .ok expected) :
    WriteAgrees str serial terminal console ↔ SameOutcome final expected := by
  constructor
  · rintro ⟨otherFuel, otherFinal, otherExpected, otherLoop, otherCalls, same⟩
    have first := writeLoop_more loop (Nat.le_max_left fuel otherFuel)
    have second := writeLoop_more otherLoop (Nat.le_max_right fuel otherFuel)
    rw [first, Except.ok.injEq] at second
    rw [calls, Except.ok.injEq] at otherCalls
    rw [second, otherCalls]
    exact same
  · intro same
    exact ⟨fuel, final, expected, loop, calls, same⟩

theorem writeAgrees_c {rest : List UInt8} (noNul : 0 ∉ 'c'.toUInt8 :: rest)
    (plain : '$'.toUInt8 ∉ 'c'.toUInt8 :: rest)
    (reading : console.currentlyReadingAnything = true)
    (color : console.currentlyReadingColor = false) :
    WriteAgrees ⟨'c'.toUInt8 :: rest, noNul⟩ serial terminal console ↔
      EscapeHarmless ⟨'c'.toUInt8 :: rest, noNul⟩ serial terminal console := by
  obtain ⟨firstLoop, firstCalls⟩ := write_c (rest.length + 2) rest serial terminal reading
    color
  obtain ⟨final, _, loop, _, printed, _⟩ := write_letter serial terminal
    { console with currentlyReadingColor := true } plain reading rfl
  rw [loop] at firstLoop
  have unchanged : colorOf 'c'.toUInt8 console.gTerminal.fgColor = console.gTerminal.fgColor := by
    simp only [colorOf]
    rfl
  cases rest with
  | nil =>
      rw [writeAgrees_iff_of_runs ⟨['c'.toUInt8], noNul⟩ firstLoop firstCalls]
      constructor
      · intro same
        have ended := printed.anything.symm.trans same.anything
        rw [reading] at ended
        simp [Console.setColor] at ended
      · rintro ⟨_, empty | closed | ⟨_, _, colored | ⟨letter, tail, shape, _⟩⟩⟩
        · simp at empty
        · simp [reading] at closed
        · simp [color] at colored
        · simp at shape
  | cons letter rest =>
      obtain ⟨_, expected, _, calls, _, later⟩ := write_letter serial terminal
        { console with currentlyReadingColor := true }
        (fun member => plain (List.mem_cons_of_mem _ member)) reading rfl
      rw [calls] at firstCalls
      rw [writeAgrees_iff_of_runs ⟨'c'.toUInt8 :: letter :: rest, noNul⟩ firstLoop firstCalls,
        sameOutcome_iff printed later rfl rfl rfl (by simp only [List.length_cons]; omega)]
      simp only [Console.setColor, unchanged]
      constructor
      · rintro ⟨noSerial, noTerminal, same⟩
        exact ⟨plain, Or.inr (Or.inr ⟨noSerial, noTerminal, Or.inr ⟨letter, rest, rfl, same.symm⟩⟩)⟩
      · rintro ⟨_, empty | closed | ⟨noSerial, noTerminal, colored | ⟨other, tail, shape, same⟩⟩⟩
        · simp at empty
        · simp [reading] at closed
        · simp [color] at colored
        · simp only [List.cons.injEq, true_and] at shape
          rw [shape.1]
          exact ⟨noSerial, noTerminal, same.symm⟩

/-- The two printers agree exactly when no escape gets in the way. -/
theorem writeAgrees_iff (str : CString) (serial terminal : Bool) (console : Console) :
    WriteAgrees str serial terminal console ↔ EscapeHarmless str serial terminal console := by
  obtain ⟨chars, noNul⟩ := str
  by_cases dollar : '$'.toUInt8 ∈ chars
  · constructor
    · rintro ⟨fuel, final, _, loop, _⟩
      rw [write, writeLoop_dollar dollar] at loop
      simp at loop
    · rintro ⟨plain, _⟩
      exact absurd dollar plain
  cases reading : console.currentlyReadingAnything with
  | false =>
      obtain ⟨after, loop, calls, _⟩ :=
        writeLoop_closed chars.length serial terminal dollar reading (Nat.le_refl _)
      rw [writeAgrees_iff_of_runs ⟨chars, noNul⟩ loop calls]
      exact ⟨fun _ => ⟨dollar, Or.inr (Or.inl reading)⟩, fun _ => ⟨rfl, rfl, rfl, rfl, rfl⟩⟩
  | true =>
      cases chars with
      | nil =>
          refine ⟨fun _ => ⟨dollar, Or.inl rfl⟩, fun _ => ?_⟩
          exact ⟨0, console, console, by simp [write, writeLoop], rfl, rfl, rfl, rfl, rfl, rfl⟩
      | cons c rest =>
          cases color : console.currentlyReadingColor with
          | true =>
              obtain ⟨final, expected, loop, calls, printed, later⟩ :=
                write_letter serial terminal console dollar reading color
              rw [writeAgrees_iff_of_runs ⟨c :: rest, noNul⟩ loop calls,
                sameOutcome_iff printed later rfl rfl rfl (by simp)]
              simp [EscapeHarmless, dollar, reading, color]
          | false =>
              by_cases isC : c = 'c'.toUInt8
              · subst isC
                exact writeAgrees_c noNul dollar reading color
              · have notDollar : c ≠ '$'.toUInt8 := by
                  rintro rfl
                  simp at dollar
                constructor
                · rintro ⟨fuel, final, _, loop, _⟩
                  rw [write, writeLoop_stuck notDollar isC reading color] at loop
                  simp at loop
                · rintro ⟨_, empty | closed | ⟨_, _, colored | ⟨letter, tail, shape, _⟩⟩⟩
                  · simp at empty
                  · simp [reading] at closed
                  · simp [color] at colored
                  · simp only [List.cons.injEq] at shape
                    exact absurd shape.1 isC

end

theorem writeAgrees_dollar :
    ¬WriteAgrees ⟨['$'.toUInt8], by decide⟩ true true freshConsole := by
  rintro ⟨fuel, final, _, loop, _⟩
  rw [write, writeLoop_dollar (by simp)] at loop
  simp at loop

end OkeOS
