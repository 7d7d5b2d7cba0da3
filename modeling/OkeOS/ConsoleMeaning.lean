import OkeOS.ConsoleEscape
import OkeOS.ConsoleFormat
import OkeOS.ConsolePercent
import OkeOS.Fuel

/-!
What `_kprintf` does with any format string, from any state of the escapes: a pen that reads
the format character by character and draws.  The loop of `__write` never gets past a
character of an escape, so some strings have the meaning that the call does not return.
-/

namespace OkeOS

open Fuel

/-- The state of the escapes and the colour. -/
structure Pen where
  anything : Bool
  color : Bool
  fgColor : UInt32
deriving DecidableEq, Repr

def Console.pen (console : Console) : Pen where
  anything := console.currentlyReadingAnything
  color := console.currentlyReadingColor
  fgColor := console.gTerminal.fgColor

/-- The characters that are drawn, each with its colour. -/
abbrev Ink := List (UInt8 × UInt32)

/-- The pen after an escape that ends in `letter`. -/
def Pen.take (pen : Pen) (letter : UInt8) : Pen where
  anything := false
  color := false
  fgColor := colorOf letter pen.fgColor

def Pen.draw (pen : Pen) (chars : List UInt8) : Ink := chars.map fun c => (c, pen.fgColor)

/-- A character of the format. -/
def Pen.char (pen : Pen) (c : UInt8) : Pen × Ink :=
  if c = '$'.toUInt8 then ({ pen with anything := true }, [])
  else if pen.anything then
    if pen.color then (pen.take c, [])
    else if c = 'c'.toUInt8 then ({ pen with color := true }, [])
    else (pen, [])
  else (pen, pen.draw [c])

/-- A string that a specifier prints.  In an open escape the first character is read as part
of the escape, and is drawn all the same. -/
def Pen.string (pen : Pen) : List UInt8 → Except Fault (Pen × Ink)
  | [] => .ok (pen, [])
  | c :: rest =>
      if '$'.toUInt8 ∈ c :: rest then .error .outOfFuel
      else if pen.anything = false then .ok (pen, pen.draw (c :: rest))
      else if pen.color ∨ c = 'c'.toUInt8 then .ok (pen.take c, (pen.take c).draw (c :: rest))
      else .error .outOfFuel

def specifierOf (letter : UInt8) : Option Specifier :=
  if letter = 'c'.toUInt8 then some .c
  else if letter = 'o'.toUInt8 then some .o
  else if letter = 'd'.toUInt8 then some .d
  else if letter = 'i'.toUInt8 then some .i
  else if letter = 's'.toUInt8 then some .s
  else if letter = 'u'.toUInt8 then some .u
  else if letter = 'x'.toUInt8 then some .x
  else if letter = 'X'.toUInt8 then some .X
  else none

/-- The text of a specifier that takes no argument. -/
def fixedText (letter : UInt8) : List UInt8 :=
  if letter = 'e'.toUInt8 ∨ letter = 'E'.toUInt8 then text "<formatter e/E not implemented>"
  else if letter = 'f'.toUInt8 then text "<formatter f not implemented>"
  else []

section

variable (stringAt : UInt64 → CString)

/-- A letter after a percent sign. -/
def Pen.specifier (letter : UInt8) (args : List UInt64) (pen : Pen) :
    Except Fault (List UInt64 × Pen × Ink) :=
  match specifierOf letter, args with
  | none, args => do
      let (pen, ink) ← pen.string (fixedText letter)
      .ok (args, pen, ink)
  | some _, [] => .error .missingArgument
  | some .c, value :: args => .ok (args, pen.char value.toUInt8)
  | some specifier, value :: args => do
      let (pen, ink) ← pen.string (specText stringAt specifier value)
      .ok (args, pen, ink)

/-- A character of the format that is no percent sign. -/
def Pen.read (isParsingSpecifier : Bool) (c : UInt8) (args : List UInt64) (pen : Pen) :
    Except Fault (List UInt64 × Pen × Ink) :=
  if isParsingSpecifier then pen.specifier stringAt c args else .ok (args, pen.char c)

/-- The whole format: the arguments that are left, the pen and what was drawn. -/
def meaning : List UInt8 → Bool → List UInt64 → Pen → Except Fault (List UInt64 × Pen × Ink)
  | [], _, args, pen => .ok (args, pen, [])
  | c :: rest, isParsingSpecifier, args, pen =>
      if c = '%'.toUInt8 then meaning rest true args pen
      else do
        let (args, pen, ink) ← pen.read stringAt isParsingSpecifier c args
        let (args, pen, later) ← meaning rest false args pen
        .ok (args, pen, ink ++ later)

end

/-- `ink` went to the enabled sinks, and the escapes and the colour are as in `pen`. -/
structure Drawn (serial terminal : Bool) (before : Console) (pen : Pen) (ink : Ink)
    (after : Console) : Prop where
  pen : after.pen = pen
  serialText : serialText after.output =
    serialText before.output ++ if serial then ink.map Prod.fst else []
  terminalText : terminalText after.output =
    terminalText before.output ++ if terminal then ink else []
  serialLine : terminal = false →
    serialLine after.output = serialLine before.output ++ if serial then ink.map Prod.fst else []

section

variable {stringAt : UInt64 → CString} {serial terminal : Bool} {first second : Ink}
  {before between after console : Console} {pen pen' : Pen}

theorem Drawn.refl (console : Console) : Drawn serial terminal console console.pen [] console := by
  constructor
  · rfl
  · simp
  · simp
  · simp

theorem Drawn.trans (left : Drawn serial terminal before pen first between)
    (right : Drawn serial terminal between pen' second after) :
    Drawn serial terminal before pen' (first ++ second) after where
  pen := right.pen
  serialText := by
    rw [right.serialText, left.serialText]
    cases serial <;> simp
  terminalText := by
    rw [right.terminalText, left.terminalText]
    cases terminal <;> simp
  serialLine := by
    intro off
    rw [right.serialLine off, left.serialLine off]
    cases serial <;> simp

/-- What is printed without an escape is drawn by the pen. -/
theorem Printed.drawn {chars : List UInt8} (printed : Printed serial terminal chars before after) :
    Drawn serial terminal before before.pen (before.pen.draw chars) after where
  pen := by
    simp only [Console.pen, printed.anything, printed.color, printed.fgColor]
  serialText := by
    rw [printed.serialText]
    cases serial <;> simp [Pen.draw, Function.comp_def]
  terminalText := printed.terminalText
  serialLine := by
    intro off
    rw [printed.serialLine off]
    cases serial <;> simp [Pen.draw, Function.comp_def]

/-- A console that differs only in the escapes and the colour. -/
theorem Drawn.silent (penEq : after.pen = pen) (same : after.output = before.output) :
    Drawn serial terminal before pen [] after := by
  constructor
  · exact penEq
  · simp [same]
  · simp [same]
  · simp [same]

theorem Drawn.of_silent (drawn : Drawn serial terminal between pen first after)
    (same : between.output = before.output) : Drawn serial terminal before pen first after := by
  have start : Drawn serial terminal before between.pen [] between := Drawn.silent rfl same
  exact start.trans drawn

/-! One character, and one string. -/

theorem writeChar_drawn (c : UInt8) (serial terminal : Bool) (console : Console) :
    ∃ after, writeChar writechar c serial terminal console = .ok after ∧
      Drawn serial terminal console (console.pen.char c).1 (console.pen.char c).2 after := by
  rw [writeChar, Pen.char]
  by_cases dollar : c = '$'.toUInt8
  · rw [if_pos dollar, if_pos dollar]
    exact ⟨_, rfl, Drawn.silent rfl rfl⟩
  rw [if_neg dollar, if_neg dollar]
  cases reading : console.currentlyReadingAnything with
  | false =>
      obtain ⟨after, emitted, printed⟩ := emit_printed c serial terminal reading
      have closed : console.pen.anything = false := reading
      rw [closed]
      exact ⟨after, emitted, printed.drawn⟩
  | true =>
      have opened : console.pen.anything = true := reading
      rw [opened, if_pos rfl, if_pos rfl]
      cases color : console.currentlyReadingColor with
      | true =>
          have colored : console.pen.color = true := color
          rw [colored]
          exact ⟨_, rfl, Drawn.silent rfl rfl⟩
      | false =>
          have noColor : console.pen.color = false := color
          simp only [noColor, Bool.false_eq_true, if_false]
          by_cases isC : c = 'c'.toUInt8
          · rw [if_pos isC, if_pos isC]
            refine ⟨_, rfl, Drawn.silent ?_ rfl⟩
            simp [Console.pen, reading]
          · rw [if_neg isC, if_neg isC]
            exact ⟨console, rfl, Drawn.refl console⟩

/-- The loop of `__write` can only fail by going on for ever. -/
theorem writeLoop_error {fuel : Nat} {chars : List UInt8} {fault : Fault}
    (run : writeLoop writechar fuel chars serial terminal console = .error fault) :
    fault = .outOfFuel := by
  induction fuel generalizing chars console with
  | zero =>
      cases chars with
      | nil => simp [writeLoop] at run
      | cons c rest =>
          rw [writeLoop, Except.error.injEq] at run
          exact run.symm
  | succ fuel ih =>
      cases chars with
      | nil => simp [writeLoop] at run
      | cons c rest =>
          rw [writeLoop] at run
          split at run
          · exact ih run
          split at run
          · split at run
            · exact ih run
            · split at run
              · exact ih run
              · exact ih run
          · rename_i closed
            obtain ⟨between, emitted, _⟩ :=
              emit_printed c serial terminal (by simpa using closed)
            rw [emitted] at run
            exact ih run

theorem writeLoop_comes {fuel : Nat} {chars : List UInt8}
    (run : writeLoop writechar fuel chars serial terminal console = .ok after) :
    Comes .outOfFuel (fun fuel => writeLoop writechar fuel chars serial terminal console)
      (.ok after) := by
  constructor
  · exact ⟨fuel, fun more le => writeLoop_more run le⟩
  · intro other
    cases result : writeLoop writechar other chars serial terminal console with
    | error fault => exact Or.inl (by rw [writeLoop_error result])
    | ok final =>
        have more := writeLoop_more run (Nat.le_max_left fuel other)
        rw [writeLoop_more result (Nat.le_max_right fuel other)] at more
        exact Or.inr more

/-- The relation between the console after a call and what the pen did. -/
def Shows (serial terminal : Bool) (before after : Console) (drawn : Pen × Ink) : Prop :=
  Drawn serial terminal before drawn.1 drawn.2 after

theorem writeLoop_refines (chars : List UInt8) (serial terminal : Bool) (console : Console) :
    Refines .outOfFuel (Shows serial terminal console)
      (fun fuel => writeLoop writechar fuel chars serial terminal console)
      (console.pen.string chars) := by
  have never : '$'.toUInt8 ∈ chars → Comes .outOfFuel
      (fun fuel => writeLoop writechar fuel chars serial terminal console) (.error .outOfFuel) := by
    intro dollar
    have stuck (fuel : Nat) :
        writeLoop writechar fuel chars serial terminal console = .error .outOfFuel :=
      writeLoop_dollar dollar
    exact ⟨⟨0, fun fuel _ => stuck fuel⟩, fun fuel => Or.inl (stuck fuel)⟩
  cases chars with
  | nil =>
      have run : writeLoop writechar 0 [] serial terminal console = .ok console := rfl
      exact ⟨_, writeLoop_comes run, .ok (Drawn.refl console)⟩
  | cons c rest =>
      rw [Pen.string]
      by_cases dollar : '$'.toUInt8 ∈ c :: rest
      · rw [if_pos dollar]
        exact ⟨_, never dollar, .error _⟩
      rw [if_neg dollar]
      have notDollar : c ≠ '$'.toUInt8 := by
        rintro rfl
        simp at dollar
      cases reading : console.currentlyReadingAnything with
      | false =>
          obtain ⟨after, run, _, printed⟩ := writeLoop_closed (c :: rest).length serial terminal
            dollar reading (Nat.le_refl _)
          rw [if_pos (show console.pen.anything = false from reading)]
          exact ⟨_, writeLoop_comes run, .ok printed.drawn⟩
      | true =>
          rw [if_neg (show ¬console.pen.anything = false by simp [Console.pen, reading])]
          have letter (before : Console) (opened : before.currentlyReadingAnything = true)
              (colored : before.currentlyReadingColor = true) : ∃ after,
              writeLoop writechar (rest.length + 2) (c :: rest) serial terminal before = .ok after ∧
                Printed serial terminal (c :: rest) (before.setColor c) after := by
            obtain ⟨after, _, run, _, printed, _⟩ :=
              write_letter serial terminal before dollar opened colored
            exact ⟨after, run, printed⟩
          cases color : console.currentlyReadingColor with
          | true =>
              obtain ⟨after, run, printed⟩ := letter console reading color
              rw [if_pos (Or.inl (show console.pen.color = true from color))]
              exact ⟨_, writeLoop_comes run, .ok (printed.drawn.of_silent rfl)⟩
          | false =>
              by_cases isC : c = 'c'.toUInt8
              · subst isC
                obtain ⟨after, run, printed⟩ :=
                  letter { console with currentlyReadingColor := true } reading rfl
                rw [if_pos (Or.inr rfl)]
                rw [← (write_c _ rest serial terminal reading color).1] at run
                exact ⟨_, writeLoop_comes run, .ok (printed.drawn.of_silent rfl)⟩
              · have stuck (fuel : Nat) :
                    writeLoop writechar fuel (c :: rest) serial terminal console =
                      .error .outOfFuel :=
                  writeLoop_stuck notDollar isC reading color
                rw [if_neg (by simp [Console.pen, color, isC])]
                exact ⟨_, ⟨⟨0, fun fuel _ => stuck fuel⟩, fun fuel => Or.inl (stuck fuel)⟩,
                  .error _⟩

/-! One specifier, and a whole format. -/

/-- The same for a call that takes arguments. -/
def ShowsRest (serial terminal : Bool) (before : Console) (after : List UInt64 × Console)
    (drawn : List UInt64 × Pen × Ink) : Prop :=
  after.1 = drawn.1 ∧ Shows serial terminal before after.2 drawn.2

theorem specifierOf_some {letter : UInt8} {specifier : Specifier}
    (found : specifierOf letter = some specifier) : letter = specifier.letter := by
  grind [specifierOf, Specifier.letter]

theorem specifierOf_none {letter : UInt8} (found : specifierOf letter = none)
    (specifier : Specifier) : letter ≠ specifier.letter := by
  cases specifier <;> grind [specifierOf, Specifier.letter]

/-- A letter that takes no argument prints its fixed text. -/
theorem formatSpecifier_fixed {letter : UInt8} (notPercent : letter ≠ '%'.toUInt8)
    (found : specifierOf letter = none) (fuel : Nat) (args : List UInt64) :
    formatSpecifier writechar stringAt fuel serial terminal letter args console =
      (do
        let console ← writeLoop writechar fuel (fixedText letter) serial terminal console
        .ok (args, console)) := by
  have other := specifierOf_none found
  have notC : letter ≠ 'c'.toUInt8 := other .c
  have notO : letter ≠ 'o'.toUInt8 := other .o
  have notD : ¬(letter = 'd'.toUInt8 ∨ letter = 'i'.toUInt8) := not_or.mpr ⟨other .d, other .i⟩
  have notS : letter ≠ 's'.toUInt8 := other .s
  have notU : letter ≠ 'u'.toUInt8 := other .u
  have notX : ¬(letter = 'x'.toUInt8 ∨ letter = 'X'.toUInt8) := not_or.mpr ⟨other .x, other .X⟩
  have empty : writeLoop writechar fuel [] serial terminal console = .ok console := by
    simp [writeLoop]
  rw [formatSpecifier, if_neg notC, fixedText]
  by_cases e : letter = 'e'.toUInt8 ∨ letter = 'E'.toUInt8
  · rw [if_pos e, if_pos e]
    rfl
  rw [if_neg e, if_neg e]
  by_cases f : letter = 'f'.toUInt8
  · rw [if_pos f, if_pos f]
    rfl
  rw [if_neg f, if_neg f, if_neg notO, if_neg notD, if_neg notS, if_neg notU, if_neg notX,
    if_neg notPercent, empty]
  rfl

theorem formatSpecifier_missing (specifier : Specifier) (fuel : Nat) :
    formatSpecifier writechar stringAt fuel serial terminal specifier.letter [] console =
      .error .missingArgument := by
  cases specifier <;> rfl

/-- A call that prints a string and leaves the arguments `args`. -/
theorem writeLoop_refines_rest (chars : List UInt8) (serial terminal : Bool) (args : List UInt64)
    (console : Console) :
    Refines .outOfFuel (ShowsRest serial terminal console)
      (fun fuel => do
        let console ← writeLoop writechar fuel chars serial terminal console
        .ok (args, console))
      (do
        let (pen, ink) ← console.pen.string chars
        .ok (args, pen, ink)) :=
  (writeLoop_refines chars serial terminal console).bind fun _ _ shown => .ok ⟨rfl, shown⟩

theorem formatSpecifier_refines {letter : UInt8} (notPercent : letter ≠ '%'.toUInt8)
    (args : List UInt64) (console : Console) :
    Refines .outOfFuel (ShowsRest serial terminal console)
      (fun fuel => formatSpecifier writechar stringAt fuel serial terminal letter args console)
      (console.pen.specifier stringAt letter args) := by
  rw [Pen.specifier.eq_def]
  cases found : specifierOf letter with
  | none =>
      simp only [formatSpecifier_fixed notPercent found]
      exact writeLoop_refines_rest (fixedText letter) serial terminal args console
  | some specifier =>
      obtain rfl := specifierOf_some found
      cases args with
      | nil =>
          simp only [formatSpecifier_missing]
          exact .error _
      | cons value args =>
          simp only [formatSpecifier_eq]
          by_cases isChar : specifier = .c
          · subst isChar
            obtain ⟨after, written, drawn⟩ := writeChar_drawn value.toUInt8 serial terminal console
            simp only [if_true, written]
            exact .ok ⟨rfl, drawn⟩
          · simp only [isChar, if_false]
            have printed := writeLoop_refines_rest (specText stringAt specifier value) serial
              terminal args console
            cases specifier with
            | c => exact absurd rfl isChar
            | _ => exact printed

/-- What the loop does with a character that is no percent sign. -/
def readChar (stringAt : UInt64 → CString) (fuel : Nat) (serial terminal : Bool)
    (isParsingSpecifier : Bool) (c : UInt8) (args : List UInt64) (console : Console) :
    Except Fault (List UInt64 × Console) :=
  if isParsingSpecifier then
    formatSpecifier writechar stringAt fuel serial terminal c args console
  else do
    let console ← writeChar writechar c serial terminal console
    .ok (args, console)

theorem kprintfLoop_read {c : UInt8} {rest : List UInt8} (notPercent : c ≠ '%'.toUInt8)
    (nonzero : c ≠ 0) (isParsingSpecifier : Bool) (fuel : Nat) (args : List UInt64) :
    kprintfLoop writechar stringAt fuel serial terminal (c :: rest) isParsingSpecifier args
        console =
      readChar stringAt fuel serial terminal isParsingSpecifier c args console >>=
        fun (args, console) =>
          kprintfLoop writechar stringAt fuel serial terminal rest false args console := by
  rw [kprintfLoop, if_neg notPercent, readChar]
  cases isParsingSpecifier with
  | true => rfl
  | false =>
      obtain ⟨after, written, _⟩ := writeChar_drawn c serial terminal console
      simp only [Bool.false_eq_true, if_false, nonzero, written]
      exact congrArg (· >>= fun console =>
        kprintfLoop writechar stringAt fuel serial terminal rest false args console) written

theorem readChar_refines {c : UInt8} (notPercent : c ≠ '%'.toUInt8) (isParsingSpecifier : Bool)
    (args : List UInt64) (console : Console) :
    Refines .outOfFuel (ShowsRest serial terminal console)
      (fun fuel => readChar stringAt fuel serial terminal isParsingSpecifier c args console)
      (console.pen.read stringAt isParsingSpecifier c args) := by
  simp only [readChar, Pen.read]
  cases isParsingSpecifier with
  | true => exact formatSpecifier_refines notPercent args console
  | false =>
      obtain ⟨after, written, drawn⟩ := writeChar_drawn c serial terminal console
      simp only [written]
      exact .ok ⟨rfl, drawn⟩

theorem kprintfLoop_refines {chars : List UInt8} (noNul : 0 ∉ chars) (isParsingSpecifier : Bool)
    (args : List UInt64) (console : Console) :
    Refines .outOfFuel (ShowsRest serial terminal console)
      (fun fuel => kprintfLoop writechar stringAt fuel serial terminal chars isParsingSpecifier args
        console)
      (meaning stringAt chars isParsingSpecifier args console.pen) := by
  induction chars generalizing isParsingSpecifier args console with
  | nil => exact .ok ⟨rfl, Drawn.refl console⟩
  | cons c rest ih =>
      rw [List.mem_cons, not_or] at noNul
      rw [meaning]
      by_cases percent : c = '%'.toUInt8
      · simp only [kprintfLoop, percent, if_true]
        exact ih noNul.2 true args console
      · rw [if_neg percent]
        simp only [kprintfLoop_read percent (Ne.symm noNul.1)]
        refine (readChar_refines percent isParsingSpecifier args console).bind ?_
        rintro ⟨args', between⟩ ⟨_, pen, ink⟩ ⟨rfl, drawn⟩
        obtain rfl : between.pen = pen := drawn.pen
        -- what the rest of the format draws comes after what is drawn already
        obtain ⟨result, comes, agree⟩ := ih noNul.2 false args' between
        refine ⟨result, comes, ?_⟩
        generalize meaning stringAt rest false args' between.pen = later at agree ⊢
        cases agree with
        | error fault => exact .error fault
        | ok related => exact .ok ⟨related.1, drawn.trans related.2⟩

/-! Where the pen gets stuck. -/

/-- The loop of `__write` does not get to the end of the string. -/
def Pen.Stuck (pen : Pen) (chars : List UInt8) : Prop :=
  '$'.toUInt8 ∈ chars ∨
    pen.anything = true ∧ pen.color = false ∧ ∃ c rest, chars = c :: rest ∧ c ≠ 'c'.toUInt8

/-- The string that a letter after a percent sign passes to `__write`. -/
def writtenText (stringAt : UInt64 → CString) (letter : UInt8) (args : List UInt64) : List UInt8 :=
  match specifierOf letter, args with
  | none, _ => fixedText letter
  | some .c, _ => []
  | some _, [] => []
  | some specifier, value :: _ => specText stringAt specifier value

theorem Pen.string_error_iff (pen : Pen) (chars : List UInt8) (fault : Fault) :
    pen.string chars = .error fault ↔ fault = .outOfFuel ∧ pen.Stuck chars := by
  cases chars with
  | nil => simp [Pen.string, Pen.Stuck]
  | cons c rest =>
      rw [Pen.string, Pen.Stuck]
      by_cases dollar : '$'.toUInt8 ∈ c :: rest
      · rw [if_pos dollar]
        simp only [dollar, true_or, and_true, Except.error.injEq]
        exact eq_comm
      · rw [if_neg dollar]
        simp only [dollar, false_or]
        cases anything : pen.anything <;> cases color : pen.color <;>
          by_cases isC : c = 'c'.toUInt8 <;> simp [isC, eq_comm]

theorem Pen.specifier_outOfFuel_iff (letter : UInt8) (args : List UInt64) (pen : Pen) :
    pen.specifier stringAt letter args = .error .outOfFuel ↔
      pen.Stuck (writtenText stringAt letter args) := by
  have string (chars : List UInt8) (args : List UInt64) :
      (do
        let (pen, ink) ← pen.string chars
        .ok (args, pen, ink) : Except Fault (List UInt64 × Pen × Ink)) = .error .outOfFuel ↔
        pen.Stuck chars := by
    have stuck := pen.string_error_iff chars
    cases run : pen.string chars with
    | error fault =>
        obtain ⟨rfl, isStuck⟩ := (stuck fault).mp run
        simp [Bind.bind, Except.bind, isStuck]
    | ok drawn =>
        have notStuck : ¬pen.Stuck chars := fun isStuck => by
          have failed := (stuck .outOfFuel).mpr ⟨rfl, isStuck⟩
          rw [run] at failed
          simp at failed
        simp [Bind.bind, Except.bind, notStuck]
  have empty : ¬pen.Stuck [] := by simp [Pen.Stuck]
  rw [Pen.specifier.eq_def, writtenText.eq_def]
  cases specifierOf letter with
  | none => exact string _ args
  | some specifier =>
      cases args with
      | nil => cases specifier <;> simp [empty]
      | cons value args =>
          cases specifier with
          | c => simp [empty]
          | _ => exact string _ args

/-- The format comes to a specifier whose text has a dollar sign, or is printed after a
dollar sign and does not begin with the letter c. -/
def GetsStuck (stringAt : UInt64 → CString) (chars : List UInt8) (isParsingSpecifier : Bool)
    (args : List UInt64) (pen : Pen) : Prop :=
  ∃ before letter after args' pen' ink, chars = before ++ letter :: after ∧
    letter ≠ '%'.toUInt8 ∧ flagAfter isParsingSpecifier before = true ∧
    meaning stringAt before isParsingSpecifier args pen = .ok (args', pen', ink) ∧
    pen'.Stuck (writtenText stringAt letter args')

theorem GetsStuck.percent_iff {c : UInt8} {rest : List UInt8} {args : List UInt64} {pen : Pen}
    (isParsingSpecifier : Bool) (percent : c = '%'.toUInt8) :
    GetsStuck stringAt (c :: rest) isParsingSpecifier args pen ↔
      GetsStuck stringAt rest true args pen := by
  have flagEq (before : List UInt8) :
      flagAfter isParsingSpecifier (c :: before) = flagAfter true before := by
    simp [flagAfter, percent]
  have meaningEq (before : List UInt8) : meaning stringAt (c :: before) isParsingSpecifier args pen =
      meaning stringAt before true args pen := by
    rw [meaning, if_pos percent]
  constructor
  · rintro ⟨before, letter, after, args', pen', ink, shape, notPercent, flag, run, stuck⟩
    cases before with
    | nil =>
        rw [List.nil_append, List.cons.injEq] at shape
        exact absurd (shape.1.symm.trans percent) notPercent
    | cons first before =>
        rw [List.cons_append, List.cons.injEq] at shape
        obtain ⟨rfl, rfl⟩ := shape
        rw [flagEq] at flag
        rw [meaningEq] at run
        exact ⟨before, letter, after, args', pen', ink, rfl, notPercent, flag, run, stuck⟩
  · rintro ⟨before, letter, after, args', pen', ink, rfl, notPercent, flag, run, stuck⟩
    refine ⟨c :: before, letter, after, args', pen', ink, rfl, notPercent, ?_, ?_, stuck⟩
    · rw [flagEq]
      exact flag
    · rw [meaningEq]
      exact run

theorem GetsStuck.read_iff {c : UInt8} {rest : List UInt8} {args : List UInt64} {pen : Pen}
    (isParsingSpecifier : Bool) (notPercent : c ≠ '%'.toUInt8) :
    GetsStuck stringAt (c :: rest) isParsingSpecifier args pen ↔
      isParsingSpecifier = true ∧ pen.Stuck (writtenText stringAt c args) ∨
        ∃ args' pen' ink, pen.read stringAt isParsingSpecifier c args = .ok (args', pen', ink) ∧
          GetsStuck stringAt rest false args' pen' := by
  have flagEq (before : List UInt8) :
      flagAfter isParsingSpecifier (c :: before) = flagAfter false before := by
    simp [flagAfter, notPercent]
  constructor
  · rintro ⟨before, letter, after, args', pen', ink, shape, notPercent', flag, run, stuck⟩
    cases before with
    | nil =>
        rw [List.nil_append, List.cons.injEq] at shape
        obtain ⟨rfl, rfl⟩ := shape
        rw [meaning, Except.ok.injEq, Prod.mk.injEq, Prod.mk.injEq] at run
        obtain ⟨rfl, rfl, -⟩ := run
        exact Or.inl ⟨flag, stuck⟩
    | cons first before =>
        rw [List.cons_append, List.cons.injEq] at shape
        obtain ⟨rfl, rfl⟩ := shape
        rw [flagEq] at flag
        rw [meaning, if_neg notPercent] at run
        obtain ⟨⟨args₁, pen₁, ink₁⟩, read, run⟩ := Fault.peel run
        obtain ⟨⟨args₂, pen₂, later⟩, inner, same⟩ := Fault.peel run
        simp only [Except.ok.injEq, Prod.mk.injEq] at same
        obtain ⟨rfl, rfl, -⟩ := same
        exact Or.inr ⟨args₁, pen₁, ink₁, read, before, letter, after, args₂, pen₂, later, rfl,
          notPercent', flag, inner, stuck⟩
  · rintro (⟨flag, stuck⟩ | ⟨args', pen', ink, read, before, letter, after, args'', pen'', later,
      rfl, notPercent', flag, run, stuck⟩)
    · exact ⟨[], c, rest, args, pen, [], rfl, notPercent, flag, rfl, stuck⟩
    · refine ⟨c :: before, letter, after, args'', pen'', ink ++ later, rfl, notPercent', ?_, ?_,
        stuck⟩
      · rw [flagEq]
        exact flag
      · rw [meaning, if_neg notPercent, read]
        simp only [Bind.bind, Except.bind, run]

theorem Pen.read_outOfFuel_iff (isParsingSpecifier : Bool) (c : UInt8) (args : List UInt64)
    (pen : Pen) :
    pen.read stringAt isParsingSpecifier c args = .error .outOfFuel ↔
      isParsingSpecifier = true ∧ pen.Stuck (writtenText stringAt c args) := by
  rw [Pen.read]
  cases isParsingSpecifier with
  | true => simp [Pen.specifier_outOfFuel_iff]
  | false => simp

theorem meaning_outOfFuel_iff (chars : List UInt8) (isParsingSpecifier : Bool)
    (args : List UInt64) (pen : Pen) :
    meaning stringAt chars isParsingSpecifier args pen = .error .outOfFuel ↔
      GetsStuck stringAt chars isParsingSpecifier args pen := by
  induction chars generalizing isParsingSpecifier args pen with
  | nil => simp [meaning, GetsStuck]
  | cons c rest ih =>
      rw [meaning]
      by_cases percent : c = '%'.toUInt8
      · rw [if_pos percent, ih, GetsStuck.percent_iff isParsingSpecifier percent]
      · rw [if_neg percent, GetsStuck.read_iff isParsingSpecifier percent,
          ← Pen.read_outOfFuel_iff]
        simp only [← ih]
        cases pen.read stringAt isParsingSpecifier c args with
        | error fault => simp [Bind.bind, Except.bind]
        | ok drawn =>
            obtain ⟨args', pen', ink⟩ := drawn
            simp only [Bind.bind, Except.bind]
            cases later : meaning stringAt rest false args' pen' with
            | error fault => simp [later]
            | ok drawn => simp [later]

/-- The call does what the pen does, for every format, and it never returns exactly when the
format gets stuck. -/
theorem kprintf_meaning (stringAt : UInt64 → CString) (str : CString) (serial terminal : Bool)
    (args : List UInt64) (console : Console) :
    Refines .outOfFuel (ShowsRest serial terminal console)
        (fun fuel => kprintf stringAt fuel str serial terminal args console)
        (meaning stringAt str.chars false args console.pen) ∧
      ((∀ fuel, kprintf stringAt fuel str serial terminal args console = .error .outOfFuel) ↔
        GetsStuck stringAt str.chars false args console.pen) := by
  have refines : Refines .outOfFuel (ShowsRest serial terminal console)
      (fun fuel => kprintf stringAt fuel str serial terminal args console)
      (meaning stringAt str.chars false args console.pen) :=
    kprintfLoop_refines str.noNul false args console
  constructor
  · exact refines
  · rw [refines.starves_iff, meaning_outOfFuel_iff]

end

/-! Parts of formats. -/

section

variable {stringAt : UInt64 → CString} {args : List UInt64} {pen : Pen}

/-- A text without meaning of its own is drawn as it stands. -/
theorem meaning_plain {chars : List UInt8} (plain : ∀ c ∈ chars, c ≠ '%'.toUInt8 ∧ c ≠ '$'.toUInt8)
    (closed : pen.anything = false) :
    meaning stringAt chars false args pen = .ok (args, pen, pen.draw chars) := by
  induction chars with
  | nil => rfl
  | cons c rest ih =>
      obtain ⟨notPercent, notDollar⟩ := plain c (by simp)
      have first : pen.read stringAt false c args = .ok (args, pen, pen.draw [c]) := by
        simp [Pen.read, Pen.char, notDollar, closed]
      rw [meaning, if_neg notPercent, first]
      simp only [Bind.bind, Except.bind, ih fun other member => plain other (by simp [member])]
      rfl

end

end OkeOS
