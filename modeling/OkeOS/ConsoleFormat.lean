import OkeOS.ConsoleOutput
import OkeOS.NumberText

/-!
`_kprintf` on its documented language: plain characters, colour escapes and specifiers.
The output is the concatenation of what the tokens stand for.
-/

namespace OkeOS

/-- A character with no meaning of its own in a format string. -/
def PlainChar (c : UInt8) : Prop := c ≠ '%'.toUInt8 ∧ c ≠ '$'.toUInt8 ∧ c ≠ 0

instance (c : UInt8) : Decidable (PlainChar c) := inferInstanceAs (Decidable (_ ∧ _))

inductive Specifier where
  | c
  | o
  | d
  | i
  | s
  | u
  | x
  | X
deriving DecidableEq, Repr

def Specifier.letter : Specifier → UInt8
  | c => 'c'.toUInt8
  | o => 'o'.toUInt8
  | d => 'd'.toUInt8
  | i => 'i'.toUInt8
  | s => 's'.toUInt8
  | u => 'u'.toUInt8
  | x => 'x'.toUInt8
  | X => 'X'.toUInt8

inductive Token where
  | plain (c : UInt8) (ok : PlainChar c)
  | color (letter : UInt8) (ok : PlainChar letter)
  | spec (specifier : Specifier)

def Token.text : Token → List UInt8
  | plain c _ => [c]
  | color letter _ => ['$'.toUInt8, 'c'.toUInt8, letter]
  | spec specifier => ['%'.toUInt8, specifier.letter]

section Spec

variable (stringAt : UInt64 → CString)

/-- What a specifier prints for its argument. -/
def specText : Specifier → UInt64 → List UInt8
  | .c, value => [value.toUInt8]
  | .o, value => (CString.ofBuffer (itoa value.toInt64.toInt 8)).chars
  | .d, value => (CString.ofBuffer (itoa value.toInt64.toInt 10)).chars
  | .i, value => (CString.ofBuffer (itoa value.toInt64.toInt 10)).chars
  | .s, value => (stringAt value).chars
  | .u, value => (CString.ofBuffer (uitoa value.toNat 10)).chars
  | .x, value => hexDigits value.toNat
  | .X, value => hexDigits value.toNat

end Spec

section

variable {stringAt : UInt64 → CString} {fuel : Nat} {serial terminal : Bool} {console : Console}

/-- The `switch` takes one argument and prints its text. -/
theorem formatSpecifier_eq (specifier : Specifier) (value : UInt64) (args : List UInt64) :
    formatSpecifier writechar stringAt fuel serial terminal specifier.letter (value :: args) console =
      (do
        let console ←
          if specifier = .c then writeChar writechar value.toUInt8 serial terminal console
          else writeLoop writechar fuel (specText stringAt specifier value) serial terminal console
        .ok (args, console)) := by
  cases specifier <;> first | rfl | (rw [specText, ← hexBuffer_string]; rfl)

end

end OkeOS
