import OkeOS.ConsoleMeaning
import OkeOS.LoggerHeap

/-!
The text of a log call, from the strings that the `Logger` points to until the sinks: a prefix
in three colours, the message, the end of the line, and whatever bytes lie behind the message
up to the next zero.
-/

namespace OkeOS

open ByteMemory FastStringBuilder Fuel

namespace Logger

/-- The colour and the name of a level in its tag. -/
def Level.letter : Level → UInt8
  | .info => '7'.toUInt8
  | .warn => 'Y'.toUInt8
  | .error => 'R'.toUInt8

def Level.label : Level → String
  | .info => "[INF]"
  | .warn => "[WRN]"
  | .error => "[ERR]"

section

variable {stringAt : UInt64 → CString} {args : List UInt64} {pen : Pen} {level : Level}
  {nspace tag : List UInt8}

end

end Logger

/-! The call as a whole. -/

section

variable {σ : Type} {mapPage : σ → Nat → Except Fault σ} {literal : String → Nat} {fuel : Nat}
  {base : List Block} {limit : Nat} {heap : Heap σ} {system : HeapSystem σ}

end

end OkeOS
