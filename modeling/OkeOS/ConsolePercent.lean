import OkeOS.ConsoleOutput

/-!
The text `%%` in a format string.  `_kprintf` looks for a percent sign before it looks at
`isParsingSpecifier`, so the second sign only sets the flag once more, `case '%'` is never
reached, and the character after the two signs is taken for a specifier.
-/

namespace OkeOS

def CString.append (first second : CString) : CString where
  chars := first.chars ++ second.chars
  noNul := by
    rw [List.mem_append]
    exact fun member => member.elim first.noNul second.noNul

@[simp] theorem CString.append_chars (first second : CString) :
    (first.append second).chars = first.chars ++ second.chars := rfl

def percentPercent : CString := .ofBuffer (text "%%")

theorem percentPercent_chars : percentPercent.chars = ['%'.toUInt8, '%'.toUInt8] := by decide

/-- Whether the last character read was a percent sign. -/
def flagAfter (isParsingSpecifier : Bool) : List UInt8 → Bool
  | [] => isParsingSpecifier
  | str :: rest => flagAfter (str = '%'.toUInt8) rest

section

variable {stringAt : UInt64 → CString} {fuel : Nat} {serial terminal : Bool}

/-- The loop reads the two halves of a string one after the other. -/
theorem kprintfLoop_append (first second : List UInt8) (isParsingSpecifier : Bool)
    (args : List UInt64) (console : Console) :
    kprintfLoop writechar stringAt fuel serial terminal (first ++ second) isParsingSpecifier args
        console =
      (do
        let (args, console) ← kprintfLoop writechar stringAt fuel serial terminal first
          isParsingSpecifier args console
        kprintfLoop writechar stringAt fuel serial terminal second
          (flagAfter isParsingSpecifier first) args console) := by
  induction first generalizing isParsingSpecifier args console with
  | nil => rfl
  | cons str rest ih =>
      rw [List.cons_append, kprintfLoop, kprintfLoop, flagAfter]
      by_cases percent : str = '%'.toUInt8
      · rw [if_pos percent, if_pos percent, ih]
        simp only [percent, decide_true]
      · rw [if_neg percent, if_neg percent]
        simp only [percent, decide_false]
        cases isParsingSpecifier with
        | true =>
            simp only [if_true]
            cases formatSpecifier writechar stringAt fuel serial terminal str args console with
            | error fault => rfl
            | ok result => exact ih false result.1 result.2
        | false =>
            have plain (between : Console) :
                (do
                  let console ← writeChar writechar str serial terminal between
                  kprintfLoop writechar stringAt fuel serial terminal (rest ++ second) false args
                    console) =
                  (do
                    let (args, console) ← (do
                      let console ← writeChar writechar str serial terminal between
                      kprintfLoop writechar stringAt fuel serial terminal rest false args console)
                    kprintfLoop writechar stringAt fuel serial terminal second
                      (flagAfter false rest) args console) := by
              cases writeChar writechar str serial terminal between with
              | error fault => rfl
              | ok after => exact ih false args after
            simp only [Bool.false_eq_true, if_false]
            by_cases zero : str = 0
            · simp only [zero, if_true]
              cases writeChar writechar '?'.toUInt8 serial terminal console with
              | error fault => rfl
              | ok between => exact zero ▸ plain between
            · simp only [zero, if_false]
              exact plain console

/-- The second percent sign changes nothing: the next character is read as a specifier. -/
theorem kprintf_percentPercent {before rest : CString} {args remaining : List UInt64}
    {console between : Console}
    (returns : kprintf stringAt fuel before serial terminal args console =
      .ok (remaining, between)) :
    kprintf stringAt fuel ((before.append percentPercent).append rest) serial terminal args
        console =
      kprintfLoop writechar stringAt fuel serial terminal rest.chars true remaining between := by
  rw [kprintf, kprintfWith] at returns ⊢
  rw [CString.append_chars, CString.append_chars, percentPercent_chars, List.append_assoc,
    kprintfLoop_append, returns]
  rfl

theorem writeChar_returns (c : UInt8) (serial terminal : Bool) (console : Console) :
    ∃ after, writeChar writechar c serial terminal console = .ok after := by
  rw [writeChar]
  split
  · exact ⟨_, rfl⟩
  split
  · split
    · exact ⟨_, rfl⟩
    · split
      · exact ⟨_, rfl⟩
      · exact ⟨_, rfl⟩
  · rename_i closed
    obtain ⟨after, emitted, _⟩ := emit_printed c serial terminal (Bool.not_eq_true _ ▸ closed)
    exact ⟨after, emitted⟩

/-- The first run prints what the second one prints and leaves the same arguments. -/
def PrintsAs (first second : Except Fault (List UInt64 × Console)) : Prop :=
  ∀ remaining after, second = .ok (remaining, after) → ∃ after', first = .ok (remaining, after') ∧
    serialText after'.output = serialText after.output ∧
    terminalText after'.output = terminalText after.output

/-- After the format `before`, the text `%%` stands for one percent sign, whatever follows. -/
def PercentEscape (stringAt : UInt64 → CString) (fuel : Nat) (serial terminal : Bool)
    (before : CString) (args : List UInt64) (console : Console) : Prop :=
  ∀ after : CString, PrintsAs
    (kprintf stringAt fuel ((before.append percentPercent).append after) serial terminal args
      console)
    (do
      let (args, console) ← kprintf stringAt fuel before serial terminal args console
      let console ← writeChar writechar '%'.toUInt8 serial terminal console
      kprintf stringAt fuel after serial terminal args console)

theorem kprintfLoop_letter {c : UInt8} (notPercent : c ≠ '%'.toUInt8) (nonzero : c ≠ 0)
    (serial terminal : Bool) (args : List UInt64) (console : Console) :
    ∃ after, kprintfLoop writechar stringAt fuel serial terminal [c] false args console =
      .ok (args, after) := by
  obtain ⟨after, written⟩ := writeChar_returns c serial terminal console
  refine ⟨after, ?_⟩
  rw [kprintfLoop, if_neg notPercent, if_neg (by decide), if_neg nonzero]
  change (do
    let console ← writeChar writechar c serial terminal console
    kprintfLoop writechar stringAt fuel serial terminal [] false args console) = _
  rw [written]
  rfl

/-- A letter after `%%` takes an argument, or there is none to take. -/
theorem kprintfLoop_hex {args remaining : List UInt64} {console after : Console}
    (run : kprintfLoop writechar stringAt fuel serial terminal ['x'.toUInt8] true args console =
      .ok (remaining, after)) : remaining.length + 1 = args.length := by
  rw [kprintfLoop, if_neg (by decide), if_pos rfl] at run
  obtain ⟨⟨rest, between⟩, specifier, last⟩ := Fault.peel run
  simp only [kprintfLoop, Except.ok.injEq, Prod.mk.injEq] at last
  cases args with
  | nil =>
      have missing : (.error .missingArgument : Except Fault (List UInt64 × Console)) =
          .ok (rest, between) := specifier
      exact absurd missing (by simp)
  | cons value args =>
      have written : (do
          let console ← write writechar fuel (.ofBuffer (hexBuffer value)) serial terminal console
          .ok (args, console) : Except Fault (List UInt64 × Console)) = .ok (rest, between) :=
        specifier
      obtain ⟨_, _, same⟩ := Fault.peel written
      rw [Except.ok.injEq, Prod.mk.injEq] at same
      rw [← last.1, ← same.1, List.length_cons]

/-- Wherever `%%` stands, there is a continuation that `_kprintf` does not print as a percent
sign followed by that continuation. -/
theorem not_percentEscape {before : CString} {args remaining : List UInt64}
    {console between : Console}
    (returns : kprintf stringAt fuel before serial terminal args console =
      .ok (remaining, between)) :
    ¬PercentEscape stringAt fuel serial terminal before args console := by
  intro escape
  have chars : (CString.ofBuffer (text "x")).chars = ['x'.toUInt8] := by decide
  obtain ⟨percent, written⟩ := writeChar_returns '%'.toUInt8 serial terminal between
  obtain ⟨final, letter⟩ : ∃ final,
      kprintf stringAt fuel (.ofBuffer (text "x")) serial terminal remaining percent =
        .ok (remaining, final) := by
    rw [kprintf, kprintfWith, chars]
    exact kprintfLoop_letter (by decide) (by decide) serial terminal remaining percent
  obtain ⟨final', run, _⟩ := escape (.ofBuffer (text "x")) remaining final (by
    simp only [returns, written, Bind.bind, Except.bind]
    exact letter)
  rw [kprintf_percentPercent returns, chars] at run
  have fewer := kprintfLoop_hex run
  omega

end

theorem not_percentEscape_empty :
    ¬PercentEscape (fun _ => .ofBuffer []) 0 true true (.ofBuffer []) [] freshConsole :=
  not_percentEscape (show kprintf _ 0 (.ofBuffer []) true true [] freshConsole =
    .ok ([], freshConsole) from rfl)

/-- The format `100%% done` prints `100done`. -/
theorem kprintf_hundredPercent : ∃ printed expected,
    kprintf (fun _ => .ofBuffer []) 0
        (((CString.ofBuffer (text "100")).append percentPercent).append (.ofBuffer (text " done")))
        true false [] freshConsole = .ok ([], printed) ∧
      serialText printed.output = text "100done" ∧
      (do
        let (args, console) ← kprintf (fun _ => .ofBuffer []) 0 (.ofBuffer (text "100")) true false
          [] freshConsole
        let console ← writeChar writechar '%'.toUInt8 true false console
        kprintf (fun _ => .ofBuffer []) 0 (.ofBuffer (text " done")) true false args console) =
          .ok ([], expected) ∧
      serialText expected.output = text "100% done" ∧
      ¬PercentEscape (fun _ => .ofBuffer []) 0 true false (.ofBuffer (text "100")) []
        freshConsole := by
  refine ⟨_, _, rfl, by decide, rfl, by decide, ?_⟩
  intro escape
  obtain ⟨after, run, serialEq, _⟩ := escape (.ofBuffer (text " done")) _ _ rfl
  have same : after = _ := congrArg Prod.snd (Except.ok.inj run).symm
  rw [same] at serialEq
  exact absurd serialEq (by decide)

end OkeOS
