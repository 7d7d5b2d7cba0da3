import OkeOS.ConsoleCore

/-!
`graphics/framebuffer.cpp` and `Terminal::init`: how glyphs are placed in the framebuffer.
A store is a pixel index with the colour that goes there.  What the events of the console do to
the screen is at the end.
-/

namespace OkeOS

open ByteMemory

/-- The fields of `limine_framebuffer` that drawing reads. -/
structure Framebuffer where
  height : UInt64
  pitch : UInt64
deriving DecidableEq, Repr

/-- Pixels from one row to the next. -/
def Framebuffer.stride (gFramebuffer : Framebuffer) : UInt64 :=
  gFramebuffer.pitch / 4

def translateToOffset (gFramebuffer : Framebuffer) (x y : UInt32) : UInt32 :=
  (y.toUInt64 * gFramebuffer.stride + x.toUInt64).toUInt32

def drawPoint (gFramebuffer : Framebuffer) (x y color : UInt32) : UInt32 × UInt32 :=
  (translateToOffset gFramebuffer x y, color)

/-- The inner loop of `drawCharBg`, over one byte of the glyph. -/
def drawRow (gFramebuffer : Framebuffer) (v : UInt8) (x y fgColor bgColor : UInt32) :
    List (UInt32 × UInt32) :=
  (List.range 8).map fun cx =>
    drawPoint gFramebuffer (x + 16 - UInt32.ofNat cx) y
      (if v.toNat.testBit cx then fgColor else bgColor)

/-- The outer loop of `drawCharBg`; it returns at the end of the font. -/
def drawRows (gFramebuffer : Framebuffer) (x y fgColor bgColor : UInt32) :
    List UInt8 → Nat → List (UInt32 × UInt32)
  | [], _ => []
  | v :: glyph, cy =>
      drawRow gFramebuffer v x (y + UInt32.ofNat cy) fgColor bgColor ++
        drawRows gFramebuffer x y fgColor bgColor glyph (cy + 1)

/-- `font` is the linked blob, from its start to its end. -/
def drawCharBg (gFramebuffer : Framebuffer) (font : List UInt8) (c : UInt8)
    (x y fgColor bgColor : UInt32) : List (UInt32 × UInt32) :=
  drawRows gFramebuffer x y fgColor bgColor ((font.drop (c.toNat * 16)).take 16) 0

def drawChar (gFramebuffer : Framebuffer) (font : List UInt8) (c : UInt8)
    (x y fgColor : UInt32) : List (UInt32 × UInt32) :=
  drawCharBg gFramebuffer font c x y fgColor 0x000000

def Terminal.init (this : Terminal) (gFramebuffer : Framebuffer) : Terminal :=
  let charsPerLine := (gFramebuffer.pitch / 4 / 8 - 1).toUInt32
  let maxLines := (gFramebuffer.height / 16 - 1).toUInt32
  { this with
    charsPerLine := if charsPerLine > 256 then 256 else charsPerLine
    maxLines := if maxLines > 128 then 128 else maxLines }

/-- The fields that the clearing of the screen reads as well. -/
structure LimineFramebuffer extends Framebuffer where
  address : Nat
  width : UInt64
  bpp : UInt16
deriving DecidableEq, Repr

namespace LimineFramebuffer

variable (gFramebuffer : LimineFramebuffer)

/-- `addr[index] = color`. -/
def putPoint (mem : Memory) (point : UInt32 × UInt32) : Memory :=
  store mem (gFramebuffer.address + 4 * point.1.toNat) 4 point.2.toNat

/-- `gFramebuffer->width * gFramebuffer->height * gFramebuffer->bpp / 8`. -/
def clearSize : UInt64 :=
  gFramebuffer.width * gFramebuffer.height * gFramebuffer.bpp.toUInt64 / 8

def clear (mem : Memory) : Memory :=
  memset mem gFramebuffer.address 0 gFramebuffer.clearSize.toNat

/-- What one event does to the screen. -/
def replay (font : List UInt8) (mem : Memory) : Event → Memory
  | .drawChar c x y fgColor =>
      (drawChar gFramebuffer.toFramebuffer font c x y fgColor).foldl gFramebuffer.putPoint mem
  | .pageWrap _ => gFramebuffer.clear mem
  | .serial _ => mem
  | .terminal _ _ => mem

/-- The screen after the events, from what it showed at first. -/
def screen (font : List UInt8) (mem : Memory) (output : List Event) : Memory :=
  output.foldl (gFramebuffer.replay font) mem

/-- `addr[index]`. -/
def pixel (mem : Memory) (index : UInt32) : UInt32 :=
  UInt32.ofNat (load mem (gFramebuffer.address + 4 * index.toNat) 4)

end LimineFramebuffer

end OkeOS
