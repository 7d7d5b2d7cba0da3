import OkeOS.StringCore

/-!
`debug.cpp` and `terminal/terminal.cpp`: the printing functions, with the colour escapes
they share through two globals.  What goes out is recorded as a list of events.
-/

namespace OkeOS

structure Terminal where
  charX : UInt32
  charY : UInt32
  charsPerLine : UInt32
  maxLines : UInt32
  fgColor : UInt32
deriving DecidableEq, Repr

/-- `terminal` stands for a call of `gTerminal.writechar`, in the colour it finds;
`pageWrap` for the clearing of the screen, with what it sends to serial. -/
inductive Event where
  | serial (c : UInt8)
  | terminal (c : UInt8) (fgColor : UInt32)
  | drawChar (c : UInt8) (x y fgColor : UInt32)
  | pageWrap (notice : List UInt8)
deriving DecidableEq, Repr

structure Console where
  currentlyReadingAnything : Bool
  currentlyReadingColor : Bool
  gTerminal : Terminal
  output : List Event

def Console.send (console : Console) (event : Event) : Console :=
  { console with output := console.output ++ [event] }

/-- What the events put on the serial line. -/
def serialLine (output : List Event) : List UInt8 :=
  output.flatMap fun
    | .serial c => [c]
    | .pageWrap notice => notice
    | _ => []

/-- The colour after an escape that ends in `letter`. -/
def colorOf (letter : UInt8) (fgColor : UInt32) : UInt32 :=
  if letter = 'Y'.toUInt8 then 0xFFFF20
  else if letter = 'G'.toUInt8 then 0x00FF00
  else if letter = 'R'.toUInt8 then 0xFF0000
  else if letter = 'B'.toUInt8 then 0x0000FF
  else if letter = 'F'.toUInt8 then 0xFFFFFF
  else if letter = '7'.toUInt8 then 0xAAAAAA
  else if letter = '8'.toUInt8 then 0x555555
  else fgColor

/-- The end of an escape. -/
def Console.setColor (console : Console) (letter : UInt8) : Console :=
  { console with
    currentlyReadingAnything := false
    currentlyReadingColor := false
    gTerminal := { console.gTerminal with fgColor := colorOf letter console.gTerminal.fgColor } }

section

/- `gTerminal.writechar` prints to serial itself, so it is a parameter here and defined
below, where the functions of this section print its notice. -/
variable (writechar : Console → UInt8 → Except Fault Console)

/-- The end of `__write` and `__writeChar`: the character goes to the sinks. -/
def emit (c : UInt8) (serial terminal : Bool) (console : Console) : Except Fault Console :=
  let console := if serial then console.send (.serial c) else console
  if terminal then writechar console c else .ok console

def writeChar (str : UInt8) (serial terminal : Bool) (console : Console) :
    Except Fault Console :=
  if str = '$'.toUInt8 then .ok { console with currentlyReadingAnything := true }
  else if console.currentlyReadingAnything then
    if console.currentlyReadingColor then .ok (console.setColor str)
    else if str = 'c'.toUInt8 then .ok { console with currentlyReadingColor := true }
    else .ok console
  else emit writechar str serial terminal console

/-- The loop of `__write`.  Only a character that goes to the sinks is left behind: every
`continue` goes on with the same `*str`. -/
def writeLoop : Nat → List UInt8 → Bool → Bool → Console → Except Fault Console
  | _, [], _, _, console => .ok console
  | 0, _ :: _, _, _, _ => .error .outOfFuel
  | fuel + 1, str :: rest, serial, terminal, console =>
      if str = '$'.toUInt8 then
        writeLoop fuel (str :: rest) serial terminal { console with currentlyReadingAnything := true }
      else if console.currentlyReadingAnything then
        if console.currentlyReadingColor then
          writeLoop fuel (str :: rest) serial terminal (console.setColor str)
        else if str = 'c'.toUInt8 then
          writeLoop fuel (str :: rest) serial terminal { console with currentlyReadingColor := true }
        else writeLoop fuel (str :: rest) serial terminal console
      else do
        let console ← emit writechar str serial terminal console
        writeLoop fuel rest serial terminal console

def write (fuel : Nat) (str : CString) (serial terminal : Bool) (console : Console) :
    Except Fault Console :=
  writeLoop writechar fuel str.chars serial terminal console

/-- `va_arg`: integers and pointers take one slot each. -/
def vaArg : List UInt64 → Except Fault (UInt64 × List UInt64)
  | [] => .error .missingArgument
  | slot :: args => .ok (slot, args)

/-- The digits of `%x`, copied to the end of sixteen zeros. -/
def hexBuffer (value : UInt64) : List UInt8 :=
  let buf := uitoa value.toNat 16
  let len := strlen buf
  let newBuf := List.replicate 16 '0'.toUInt8 ++ [0]
  memcpyBuffer newBuf (16 - len) buf len

variable (stringAt : UInt64 → CString) (fuel : Nat) (serial terminal : Bool)

/-- The `switch` over the character after a percent sign.  `stringAt` is the string that a
`char*` points to. -/
def formatSpecifier (str : UInt8) (args : List UInt64) (console : Console) :
    Except Fault (List UInt64 × Console) :=
  if str = 'c'.toUInt8 then do
    let (value, args) ← vaArg args
    let console ← writeChar writechar value.toUInt8 serial terminal console
    .ok (args, console)
  else if str = 'e'.toUInt8 ∨ str = 'E'.toUInt8 then do
    let console ← write writechar fuel (.ofBuffer (text "<formatter e/E not implemented>")) serial
      terminal console
    .ok (args, console)
  else if str = 'f'.toUInt8 then do
    let console ← write writechar fuel (.ofBuffer (text "<formatter f not implemented>")) serial
      terminal console
    .ok (args, console)
  else if str = 'o'.toUInt8 then do
    let (value, args) ← vaArg args
    let console ← write writechar fuel (.ofBuffer (itoa value.toInt64.toInt 8)) serial terminal
      console
    .ok (args, console)
  else if str = 'd'.toUInt8 ∨ str = 'i'.toUInt8 then do
    let (value, args) ← vaArg args
    let console ← write writechar fuel (.ofBuffer (itoa value.toInt64.toInt 10)) serial terminal
      console
    .ok (args, console)
  else if str = 's'.toUInt8 then do
    let (value, args) ← vaArg args
    let console ← write writechar fuel (stringAt value) serial terminal console
    .ok (args, console)
  else if str = 'u'.toUInt8 then do
    let (value, args) ← vaArg args
    let console ← write writechar fuel (.ofBuffer (uitoa value.toNat 10)) serial terminal console
    .ok (args, console)
  else if str = 'x'.toUInt8 ∨ str = 'X'.toUInt8 then do
    let (value, args) ← vaArg args
    let console ← write writechar fuel (.ofBuffer (hexBuffer value)) serial terminal console
    .ok (args, console)
  else if str = '%'.toUInt8 then do
    let console ← writeChar writechar '%'.toUInt8 serial terminal console
    .ok (args, console)
  else .ok (args, console)

/-- The loop of `_kprintf`; the result holds the arguments that are left. -/
def kprintfLoop : List UInt8 → Bool → List UInt64 → Console →
    Except Fault (List UInt64 × Console)
  | [], _, args, console => .ok (args, console)
  | str :: rest, isParsingSpecifier, args, console =>
      if str = '%'.toUInt8 then kprintfLoop rest true args console
      else if isParsingSpecifier then do
        let (args, console) ← formatSpecifier writechar stringAt fuel serial terminal str args console
        kprintfLoop rest false args console
      else do
        let console ←
          if str = 0 then writeChar writechar '?'.toUInt8 serial terminal console else .ok console
        let console ← writeChar writechar str serial terminal console
        kprintfLoop rest false args console

def kprintfWith (str : CString) (args : List UInt64) (console : Console) :
    Except Fault (List UInt64 × Console) :=
  kprintfLoop writechar stringAt fuel serial terminal str.chars false args console

end

/-- `kprintf_serial("clear")`.  The format has no specifier, and the terminal is off. -/
def clearNotice (console : Console) : Except Fault (List UInt64 × Console) :=
  kprintfWith (fun console _ => .ok console) (fun _ => .ofBuffer []) 0 true false
    (.ofBuffer (text "clear")) [] console

/-- The first line of `Terminal::writechar`; `char` is signed. -/
def showChar (console : Console) (c : UInt8) : Console :=
  let this := console.gTerminal
  let console := console.send (.terminal c this.fgColor)
  if 31 < c.toNat ∧ c.toNat < 128 then
    console.send (.drawChar c (this.charX * 8) (this.charY * 16) this.fgColor)
  else console

/-- `Terminal::writechar` of `gTerminal`. -/
def writechar (console : Console) (c : UInt8) : Except Fault Console :=
  let console := showChar console c
  let this : Terminal := { console.gTerminal with charX := console.gTerminal.charX + 1 }
  if this.charX > this.charsPerLine ∨ c = '\n'.toUInt8 then
    let this : Terminal := { this with charX := 0, charY := this.charY + 1 }
    if this.charY > this.maxLines then do
      let (_, cleared) ← clearNotice { console with gTerminal := this, output := [] }
      .ok { cleared with
        gTerminal := { cleared.gTerminal with charX := 0, charY := 0 }
        output := console.output ++ [.pageWrap (serialLine cleared.output)] }
    else .ok { console with gTerminal := this }
  else .ok { console with gTerminal := this }

/-- `_kprintf`. -/
def kprintf (stringAt : UInt64 → CString) (fuel : Nat) (str : CString) (serial terminal : Bool)
    (args : List UInt64) (console : Console) : Except Fault (List UInt64 × Console) :=
  kprintfWith writechar stringAt fuel serial terminal str args console

end OkeOS
