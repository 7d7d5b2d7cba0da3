import Mathlib
import OkeOS.FramebufferCore
import OkeOS.ConsoleOutput

/-!
Where the terminal draws.  The cursor stays within the lines and columns that `Terminal::init`
computes, so the last cell of a page decides whether every pixel is inside the framebuffer.
-/

namespace OkeOS

section Glyph

variable {gFramebuffer : Framebuffer} {x y fgColor bgColor index color : UInt32}

theorem mem_drawRow {v : UInt8} :
    (index, color) ∈ drawRow gFramebuffer v x y fgColor bgColor ↔
      ∃ cx < 8, index = translateToOffset gFramebuffer (x + 16 - UInt32.ofNat cx) y ∧
        color = if v.toNat.testBit cx then fgColor else bgColor := by
  simp only [drawRow, drawPoint, List.mem_map, List.mem_range, Prod.mk.injEq]
  constructor
  · rintro ⟨cx, bound, rfl, rfl⟩
    exact ⟨cx, bound, rfl, rfl⟩
  · rintro ⟨cx, bound, rfl, rfl⟩
    exact ⟨cx, bound, rfl, rfl⟩

theorem mem_drawRows {glyph : List UInt8} {first : Nat} :
    (index, color) ∈ drawRows gFramebuffer x y fgColor bgColor glyph first ↔
      ∃ cy, ∃ inGlyph : cy < glyph.length, (index, color) ∈
        drawRow gFramebuffer (glyph.get ⟨cy, inGlyph⟩) x (y + UInt32.ofNat (first + cy)) fgColor
          bgColor := by
  induction glyph generalizing first with
  | nil => simp [drawRows]
  | cons v glyph ih =>
      rw [drawRows, List.mem_append, ih]
      constructor
      · rintro (here | ⟨cy, inGlyph, later⟩)
        · exact ⟨0, by simp, here⟩
        · refine ⟨cy + 1, by simpa using inGlyph, ?_⟩
          rwa [show first + (cy + 1) = first + 1 + cy by omega]
      · rintro ⟨cy, inGlyph, drawn⟩
        cases cy with
        | zero => exact .inl drawn
        | succ cy =>
            refine .inr ⟨cy, by simpa using inGlyph, ?_⟩
            rwa [show first + (cy + 1) = first + 1 + cy by omega] at drawn

theorem drawCharBg_index {font : List UInt8} {c : UInt8}
    (drawn : (index, color) ∈ drawCharBg gFramebuffer font c x y fgColor bgColor) :
    ∃ cx < 8, ∃ cy < 16, index =
      translateToOffset gFramebuffer (x + 16 - UInt32.ofNat cx) (y + UInt32.ofNat cy) := by
  obtain ⟨cy, inGlyph, inRow⟩ := mem_drawRows.mp drawn
  obtain ⟨cx, cxBound, indexEq, _⟩ := mem_drawRow.mp inRow
  rw [List.length_take] at inGlyph
  rw [Nat.zero_add] at indexEq
  exact ⟨cx, cxBound, cy, by omega, indexEq⟩

/-- The corner that is farthest from the start of the framebuffer. -/
theorem drawCharBg_corner {font : List UInt8} {c : UInt8}
    (hasGlyph : (c.toNat + 1) * 16 ≤ font.length) :
    ∃ color, (translateToOffset gFramebuffer (x + 16 - UInt32.ofNat 0) (y + UInt32.ofNat 15),
      color) ∈ drawCharBg gFramebuffer font c x y fgColor bgColor := by
  have inGlyph : 15 < ((font.drop (c.toNat * 16)).take 16).length := by
    rw [List.length_take, List.length_drop]
    omega
  exact ⟨_, mem_drawRows.mpr ⟨15, inGlyph, mem_drawRow.mpr ⟨0, by decide, rfl, rfl⟩⟩⟩

end Glyph

/-- What the escapes of a print to serial leave of the terminal. -/
def SameLimits (first second : Console) : Prop :=
  second.gTerminal.charsPerLine = first.gTerminal.charsPerLine ∧
    second.gTerminal.maxLines = first.gTerminal.maxLines

theorem writeChar_keeps (console : Console) (str : UInt8) :
    ∃ after, writeChar (fun console _ => .ok console) str true false console = .ok after ∧
      SameLimits console after := by
  rw [writeChar]
  split
  · exact ⟨_, rfl, rfl, rfl⟩
  · split
    · split
      · exact ⟨_, rfl, rfl, rfl⟩
      · split
        · exact ⟨_, rfl, rfl, rfl⟩
        · exact ⟨_, rfl, rfl, rfl⟩
    · exact ⟨_, rfl, rfl, rfl⟩

theorem kprintfLoop_keeps {chars : List UInt8} (plain : ∀ c ∈ chars, c ≠ '%'.toUInt8 ∧ c ≠ 0)
    (console : Console) :
    ∃ after, kprintfLoop (fun console _ => .ok console) (fun _ => .ofBuffer []) 0 true false chars
        false [] console = .ok ([], after) ∧ SameLimits console after := by
  induction chars generalizing console with
  | nil => exact ⟨console, rfl, rfl, rfl⟩
  | cons c chars ih =>
      obtain ⟨notPercent, notNul⟩ := plain c (by simp)
      obtain ⟨between, written, limits⟩ := writeChar_keeps console c
      obtain ⟨after, rest, limits'⟩ := ih (fun other member => plain other (by simp [member])) between
      refine ⟨after, ?_, limits'.1.trans limits.1, limits'.2.trans limits.2⟩
      simp only [kprintfLoop, if_neg notPercent, if_neg notNul, Bool.false_eq_true, if_false,
        Bind.bind, Except.bind, written]
      exact rest

theorem clearNotice_keeps (console : Console) :
    ∃ cleared, clearNotice console = .ok ([], cleared) ∧ SameLimits console cleared := by
  have chars : (CString.ofBuffer (text "clear")).chars = [99, 108, 101, 97, 114] := by decide
  have percent : '%'.toUInt8 = 37 := rfl
  rw [clearNotice, kprintfWith, chars]
  exact kprintfLoop_keeps (by simp [percent]) console

/-- Where the cursor goes after `c`. -/
def Terminal.advance (this : Terminal) (c : UInt8) : UInt32 × UInt32 :=
  if this.charX + 1 > this.charsPerLine ∨ c = '\n'.toUInt8 then
    if this.charY + 1 > this.maxLines then (0, 0) else (0, this.charY + 1)
  else (this.charX + 1, this.charY)

theorem showChar_drawn (console : Console) (c d : UInt8) (x y fgColor : UInt32) :
    Event.drawChar d x y fgColor ∈ (showChar console c).output ↔
      Event.drawChar d x y fgColor ∈ console.output ∨
        31 < c.toNat ∧ c.toNat < 128 ∧ d = c ∧ x = console.gTerminal.charX * 8 ∧
          y = console.gTerminal.charY * 16 ∧ fgColor = console.gTerminal.fgColor := by
  simp only [showChar]
  split
  · rename_i shown
    simp [Console.send, shown]
  · rename_i hidden
    simp only [Console.send, List.mem_append, List.mem_singleton, reduceCtorEq, or_false]
    tauto

theorem writechar_step (console : Console) (c : UInt8) :
    ∃ after, writechar console c = .ok after ∧
      (after.gTerminal.charX, after.gTerminal.charY) = console.gTerminal.advance c ∧
      after.gTerminal.charsPerLine = console.gTerminal.charsPerLine ∧
      after.gTerminal.maxLines = console.gTerminal.maxLines ∧
      ∀ d x y fgColor, Event.drawChar d x y fgColor ∈ after.output ↔
        Event.drawChar d x y fgColor ∈ (showChar console c).output := by
  have same : (showChar console c).gTerminal = console.gTerminal := (showChar_shown console c).2.2.1
  simp only [writechar, Terminal.advance, ← same]
  generalize showChar console c = shown
  split
  · split
    · obtain ⟨cleared, runs, charsPerLine, maxLines⟩ := clearNotice_keeps
        { shown with
          gTerminal := { shown.gTerminal with charX := 0, charY := shown.gTerminal.charY + 1 }
          output := [] }
      rw [runs]
      refine ⟨_, rfl, rfl, charsPerLine, maxLines, ?_⟩
      simp
    · exact ⟨_, rfl, rfl, rfl, rfl, fun _ _ _ _ => Iff.rfl⟩
  · exact ⟨_, rfl, rfl, rfl, rfl, fun _ _ _ _ => Iff.rfl⟩

section Geometry

variable {gFramebuffer : Framebuffer}

/-- The framebuffers that the terminal is made for. -/
structure Framebuffer.Addressable (gFramebuffer : Framebuffer) : Prop where
  pitch : 32 ≤ gFramebuffer.pitch.toNat
  aligned : gFramebuffer.pitch.toNat % 4 = 0
  height : 16 ≤ gFramebuffer.height.toNat
  size : gFramebuffer.height.toNat * (gFramebuffer.pitch.toNat / 4) < 2 ^ 32 - 2 ^ 16

/-- What the geometry below needs of them. -/
structure Framebuffer.Sized (gFramebuffer : Framebuffer) : Prop where
  pitch : 32 ≤ gFramebuffer.pitch.toNat
  height : 16 ≤ gFramebuffer.height.toNat
  size : gFramebuffer.height.toNat * (gFramebuffer.pitch.toNat / 4) < 2 ^ 32 - 2 ^ 16

theorem Framebuffer.Addressable.sized (addressable : gFramebuffer.Addressable) :
    gFramebuffer.Sized :=
  ⟨addressable.pitch, addressable.height, addressable.size⟩

def Framebuffer.pixels (gFramebuffer : Framebuffer) : Nat :=
  gFramebuffer.height.toNat * (gFramebuffer.pitch.toNat / 4)

def Framebuffer.lastColumn (gFramebuffer : Framebuffer) : Nat :=
  min (gFramebuffer.pitch.toNat / 4 / 8 - 1) 256

def Framebuffer.lastLine (gFramebuffer : Framebuffer) : Nat :=
  min (gFramebuffer.height.toNat / 16 - 1) 128

/-- The pixel rows below the last line of text. -/
def Framebuffer.spareRows (gFramebuffer : Framebuffer) : Nat :=
  gFramebuffer.height.toNat - 16 * min (gFramebuffer.height.toNat / 16) 129

/-- What lies behind the last cell takes the pixels that a glyph is drawn too far right. -/
def Framebuffer.RoomBehindLastCell (gFramebuffer : Framebuffer) : Prop :=
  2064 < gFramebuffer.pitch.toNat / 4 ∨ 2 ≤ gFramebuffer.spareRows ∨
    gFramebuffer.spareRows = 1 ∧ 8 < gFramebuffer.pitch.toNat / 4

theorem Framebuffer.Sized.rows (sized : gFramebuffer.Sized) :
    gFramebuffer.height.toNat = 16 * gFramebuffer.lastLine + 16 + gFramebuffer.spareRows := by
  have height := sized.height
  rw [Framebuffer.lastLine, Framebuffer.spareRows]
  omega

theorem Framebuffer.Sized.pixels_eq (sized : gFramebuffer.Sized) :
    gFramebuffer.pixels = (16 * gFramebuffer.lastLine + 15) * (gFramebuffer.pitch.toNat / 4) +
      gFramebuffer.pitch.toNat / 4 +
        gFramebuffer.spareRows * (gFramebuffer.pitch.toNat / 4) := by
  rw [Framebuffer.pixels, sized.rows]
  ring

theorem Framebuffer.stride_toNat : gFramebuffer.stride.toNat = gFramebuffer.pitch.toNat / 4 := by
  simp [Framebuffer.stride, UInt64.toNat_div]

theorem Framebuffer.Sized.stride_lt (sized : gFramebuffer.Sized) :
    gFramebuffer.pitch.toNat / 4 < 2 ^ 28 := by
  have size := sized.size
  have tall : 16 * (gFramebuffer.pitch.toNat / 4) ≤
      gFramebuffer.height.toNat * (gFramebuffer.pitch.toNat / 4) :=
    Nat.mul_le_mul_right _ sized.height
  omega

theorem Framebuffer.Sized.height_lt (sized : gFramebuffer.Sized) :
    gFramebuffer.height.toNat < 2 ^ 29 := by
  have size := sized.size
  have pitch := sized.pitch
  have wide : gFramebuffer.height.toNat * 8 ≤
      gFramebuffer.height.toNat * (gFramebuffer.pitch.toNat / 4) :=
    Nat.mul_le_mul_left _ (by omega)
  omega

/-- Both counts of `Terminal::init`: a quotient less one, clamped. -/
theorem clamped_toNat {quotient : UInt64} {limit : UInt32} (positive : 0 < quotient.toNat)
    (small : quotient.toNat ≤ 2 ^ 32) :
    (if (quotient - 1).toUInt32 > limit then limit else (quotient - 1).toUInt32).toNat =
      min (quotient.toNat - 1) limit.toNat := by
  have less : (quotient - 1).toNat = quotient.toNat - 1 :=
    UInt64.toNat_sub_of_le _ _ (by rw [UInt64.le_iff_toNat_le]; exact positive)
  have truncated : (quotient - 1).toUInt32.toNat = quotient.toNat - 1 := by
    rw [UInt64.toNat_toUInt32, less]
    omega
  split
  · rename_i above
    have above := UInt32.lt_iff_toNat_lt.mp above
    omega
  · rename_i below
    have below := mt UInt32.lt_iff_toNat_lt.mpr below
    omega

theorem Framebuffer.Sized.init_charsPerLine (sized : gFramebuffer.Sized)
    (this : Terminal) : (this.init gFramebuffer).charsPerLine.toNat = gFramebuffer.lastColumn := by
  have pitch := sized.pitch
  have bound := sized.stride_lt
  have quotient : (gFramebuffer.pitch / 4 / 8).toNat = gFramebuffer.pitch.toNat / 4 / 8 := by
    simp [UInt64.toNat_div]
  rw [Framebuffer.lastColumn, ← quotient]
  exact clamped_toNat (by omega) (by omega)

theorem Framebuffer.Sized.init_maxLines (sized : gFramebuffer.Sized)
    (this : Terminal) : (this.init gFramebuffer).maxLines.toNat = gFramebuffer.lastLine := by
  have height := sized.height
  have bound := sized.height_lt
  have quotient : (gFramebuffer.height / 16).toNat = gFramebuffer.height.toNat / 16 := by
    simp [UInt64.toNat_div]
  rw [Framebuffer.lastLine, ← quotient]
  exact clamped_toNat (by omega) (by omega)

/-- The index of one point of the glyph in a cell. -/
theorem Framebuffer.Sized.cell_index (sized : gFramebuffer.Sized)
    {charX charY : UInt32} (column : charX.toNat ≤ gFramebuffer.lastColumn)
    (line : charY.toNat ≤ gFramebuffer.lastLine) (cx cy : Nat) (cxBound : cx < 8)
    (cyBound : cy < 16) :
    (translateToOffset gFramebuffer (charX * 8 + 16 - UInt32.ofNat cx)
      (charY * 16 + UInt32.ofNat cy)).toNat =
      (16 * charY.toNat + cy) * (gFramebuffer.pitch.toNat / 4) + (8 * charX.toNat + 16 - cx) := by
  have narrow : charX.toNat ≤ 256 ∧ charX.toNat ≤ gFramebuffer.pitch.toNat / 4 / 8 - 1 := by
    rw [Framebuffer.lastColumn] at column
    omega
  have short : charY.toNat ≤ 128 := by
    rw [Framebuffer.lastLine] at line
    omega
  have xEq : (charX * 8 + 16 - UInt32.ofNat cx).toNat = 8 * charX.toNat + 16 - cx := by
    have cxEq : (UInt32.ofNat cx).toNat = cx := UInt32.toNat_ofNat_of_lt' (by rw [UInt32.size]; omega)
    have sumEq : (charX * 8 + 16).toNat = 8 * charX.toNat + 16 := by
      simp only [UInt32.toNat_add, UInt32.toNat_mul, UInt32.reduceToNat]
      omega
    rw [UInt32.toNat_sub_of_le _ _ (by rw [UInt32.le_iff_toNat_le]; omega), cxEq, sumEq]
  have yEq : (charY * 16 + UInt32.ofNat cy).toNat = 16 * charY.toNat + cy := by
    have cyEq : (UInt32.ofNat cy).toNat = cy := UInt32.toNat_ofNat_of_lt' (by rw [UInt32.size]; omega)
    simp only [UInt32.toNat_add, UInt32.toNat_mul, UInt32.reduceToNat, cyEq]
    omega
  have inside : (16 * charY.toNat + cy) * (gFramebuffer.pitch.toNat / 4) ≤
      (16 * gFramebuffer.lastLine + 15) * (gFramebuffer.pitch.toNat / 4) :=
    Nat.mul_le_mul_right _ (by omega)
  have size : gFramebuffer.pixels < 2 ^ 32 - 2 ^ 16 := sized.size
  have pitch := sized.pitch
  rw [sized.pixels_eq] at size
  rw [translateToOffset, UInt64.toNat_toUInt32, UInt64.toNat_add, UInt64.toNat_mul,
    UInt32.toNat_toUInt64, UInt32.toNat_toUInt64, xEq, yEq, Framebuffer.stride_toNat]
  omega

theorem Framebuffer.Sized.lastIndex_lt_iff (sized : gFramebuffer.Sized) :
    (16 * gFramebuffer.lastLine + 15) * (gFramebuffer.pitch.toNat / 4) +
        (8 * gFramebuffer.lastColumn + 16) < gFramebuffer.pixels ↔
      gFramebuffer.RoomBehindLastCell := by
  have pitch := sized.pitch
  rw [sized.pixels_eq, Framebuffer.RoomBehindLastCell, Framebuffer.lastColumn]
  rcases Nat.lt_or_ge gFramebuffer.spareRows 2 with few | many
  · interval_cases gFramebuffer.spareRows <;> omega
  · have rows : 2 * (gFramebuffer.pitch.toNat / 4) ≤
        gFramebuffer.spareRows * (gFramebuffer.pitch.toNat / 4) := Nat.mul_le_mul_right _ many
    omega

end Geometry

/-- The characters of `text`, written one after another. -/
def writechars (text : List UInt8) (console : Console) : Except Fault Console :=
  text.foldlM writechar console

/-- The console after `Terminal::init`; the colour and the escape flags are those that
earlier prints to serial have left. -/
def startConsole (gFramebuffer : Framebuffer) (anything color : Bool) (fgColor : UInt32) :
    Console :=
  { currentlyReadingAnything := anything
    currentlyReadingColor := color
    gTerminal := Terminal.init
      { charX := 0, charY := 0, charsPerLine := 0, maxLines := 0, fgColor := fgColor } gFramebuffer
    output := [] }

/-- The invariant of a run: the cursor is on the page, and so was every glyph. -/
structure OnPage (gFramebuffer : Framebuffer) (console : Console) : Prop where
  charsPerLine : console.gTerminal.charsPerLine.toNat = gFramebuffer.lastColumn
  maxLines : console.gTerminal.maxLines.toNat = gFramebuffer.lastLine
  column : console.gTerminal.charX.toNat ≤ gFramebuffer.lastColumn
  line : console.gTerminal.charY.toNat ≤ gFramebuffer.lastLine
  drawn : ∀ c x y fgColor, Event.drawChar c x y fgColor ∈ console.output →
    ∃ charX charY : UInt32, charX.toNat ≤ gFramebuffer.lastColumn ∧
      charY.toNat ≤ gFramebuffer.lastLine ∧ x = charX * 8 ∧ y = charY * 16

section Run

variable {gFramebuffer : Framebuffer}

theorem Framebuffer.lastColumn_le : gFramebuffer.lastColumn ≤ 256 :=
  Nat.min_le_right _ _

theorem Framebuffer.lastLine_le : gFramebuffer.lastLine ≤ 128 :=
  Nat.min_le_right _ _

theorem startConsole_onPage (sized : gFramebuffer.Sized) (anything color : Bool)
    (fgColor : UInt32) : OnPage gFramebuffer (startConsole gFramebuffer anything color fgColor) where
  charsPerLine := sized.init_charsPerLine _
  maxLines := sized.init_maxLines _
  column := Nat.zero_le _
  line := Nat.zero_le _
  drawn := by simp [startConsole]

theorem succ_toNat {value : UInt32} (small : value.toNat ≤ 256) :
    (value + 1).toNat = value.toNat + 1 := by
  simp only [UInt32.toNat_add, UInt32.reduceToNat]
  omega

theorem OnPage.advance {console : Console} (page : OnPage gFramebuffer console) (c : UInt8) :
    (console.gTerminal.advance c).1.toNat ≤ gFramebuffer.lastColumn ∧
      (console.gTerminal.advance c).2.toNat ≤ gFramebuffer.lastLine := by
  have column := page.column
  have line := page.line
  have columnEq := succ_toNat (column.trans Framebuffer.lastColumn_le)
  have lineEq := succ_toNat (line.trans (Framebuffer.lastLine_le.trans (by decide)))
  have charsPerLine := page.charsPerLine
  have maxLines := page.maxLines
  rw [Terminal.advance]
  split
  · split
    · simp
    · rename_i below
      have below := mt UInt32.lt_iff_toNat_lt.mpr below
      exact ⟨Nat.zero_le _, by show (console.gTerminal.charY + 1).toNat ≤ _; omega⟩
  · rename_i within
    have within := mt UInt32.lt_iff_toNat_lt.mpr (not_or.mp within).1
    exact ⟨by show (console.gTerminal.charX + 1).toNat ≤ _; omega, line⟩

theorem OnPage.writechar {console : Console} (page : OnPage gFramebuffer console) (c : UInt8) :
    ∃ after, OkeOS.writechar console c = .ok after ∧ OnPage gFramebuffer after := by
  obtain ⟨after, runs, cursor, charsPerLine, maxLines, drawn⟩ := writechar_step console c
  obtain ⟨column, line⟩ := page.advance c
  rw [← cursor] at column line
  refine ⟨after, runs, charsPerLine ▸ page.charsPerLine, maxLines ▸ page.maxLines, column, line, ?_⟩
  intro d x y fgColor event
  rw [drawn, showChar_drawn] at event
  rcases event with earlier | ⟨_, _, _, xEq, yEq, _⟩
  · exact page.drawn d x y fgColor earlier
  · exact ⟨_, _, page.column, page.line, xEq, yEq⟩

theorem OnPage.writechars {console : Console} (page : OnPage gFramebuffer console)
    (text : List UInt8) :
    ∃ final, OkeOS.writechars text console = .ok final ∧ OnPage gFramebuffer final := by
  induction text generalizing console with
  | nil => exact ⟨console, rfl, page⟩
  | cons c text ih =>
      obtain ⟨after, runs, stays⟩ := page.writechar c
      obtain ⟨final, rest, last⟩ := ih stays
      refine ⟨final, ?_, last⟩
      rw [OkeOS.writechars, List.foldlM_cons, runs]
      exact rest

theorem writechars_append (first second : List UInt8) (console : Console) :
    OkeOS.writechars (first ++ second) console =
      OkeOS.writechars first console >>= OkeOS.writechars second := by
  rw [OkeOS.writechars, List.foldlM_append]
  rfl

/-- One character again and again, with what holds after each. -/
theorem writechars_replicate (Holds : Nat → Console → Prop) {c : UInt8} {count : Nat}
    (step : ∀ k < count, ∀ console, Holds k console →
      ∃ after, OkeOS.writechar console c = .ok after ∧ Holds (k + 1) after)
    {console : Console} (start : Holds 0 console) :
    ∃ final, OkeOS.writechars (List.replicate count c) console = .ok final ∧ Holds count final := by
  induction count with
  | zero => exact ⟨console, rfl, start⟩
  | succ count ih =>
      obtain ⟨between, runs, holds⟩ := ih fun k bound => step k (by omega)
      obtain ⟨final, last, atLast⟩ := step count (by omega) between holds
      refine ⟨final, ?_, atLast⟩
      rw [List.replicate_succ', writechars_append, runs]
      show OkeOS.writechar between c >>= Except.ok = _
      rw [last]
      rfl

theorem OnPage.newlines {console : Console} (page : OnPage gFramebuffer console)
    (top : console.gTerminal.charX = 0 ∧ console.gTerminal.charY = 0) :
    ∃ final, OkeOS.writechars (List.replicate gFramebuffer.lastLine '\n'.toUInt8) console =
        .ok final ∧ OnPage gFramebuffer final ∧ final.gTerminal.charX = 0 ∧
      final.gTerminal.charY.toNat = gFramebuffer.lastLine := by
  let holds (k : Nat) (console : Console) : Prop :=
    OnPage gFramebuffer console ∧ console.gTerminal.charX = 0 ∧ console.gTerminal.charY.toNat = k
  refine writechars_replicate holds ?_ ⟨page, top.1, by rw [top.2]; rfl⟩
  rintro k bound console ⟨page, column, line⟩
  obtain ⟨after, runs, stays⟩ := page.writechar '\n'.toUInt8
  obtain ⟨after', runs', cursor, _⟩ := writechar_step console '\n'.toUInt8
  cases runs.symm.trans runs'
  have lineEq := succ_toNat (page.line.trans (Framebuffer.lastLine_le.trans (by decide)))
  have within : ¬console.gTerminal.charY + 1 > console.gTerminal.maxLines := by
    rw [gt_iff_lt, UInt32.lt_iff_toNat_lt, lineEq, page.maxLines]
    omega
  rw [Terminal.advance, if_pos (.inr rfl), if_neg within, Prod.mk.injEq] at cursor
  refine ⟨after, runs, stays, cursor.1, ?_⟩
  rw [cursor.2, lineEq, line]

theorem OnPage.letters {console : Console} (page : OnPage gFramebuffer console)
    (left : console.gTerminal.charX = 0) :
    ∃ final, OkeOS.writechars (List.replicate gFramebuffer.lastColumn 'A'.toUInt8) console =
        .ok final ∧ OnPage gFramebuffer final ∧
      final.gTerminal.charX.toNat = gFramebuffer.lastColumn ∧
      final.gTerminal.charY = console.gTerminal.charY := by
  let holds (k : Nat) (after : Console) : Prop :=
    OnPage gFramebuffer after ∧ after.gTerminal.charX.toNat = k ∧
      after.gTerminal.charY = console.gTerminal.charY
  refine writechars_replicate holds ?_ ⟨page, by rw [left]; rfl, rfl⟩
  rintro k bound before ⟨page, column, line⟩
  obtain ⟨after, runs, stays⟩ := page.writechar 'A'.toUInt8
  obtain ⟨after', runs', cursor, _⟩ := writechar_step before 'A'.toUInt8
  cases runs.symm.trans runs'
  have columnEq := succ_toNat (page.column.trans Framebuffer.lastColumn_le)
  have within : ¬(before.gTerminal.charX + 1 > before.gTerminal.charsPerLine ∨
      'A'.toUInt8 = '\n'.toUInt8) := by
    rw [gt_iff_lt, UInt32.lt_iff_toNat_lt, columnEq, page.charsPerLine]
    rintro (wraps | newline)
    · omega
    · revert newline
      decide
  rw [Terminal.advance, if_neg within, Prod.mk.injEq] at cursor
  refine ⟨after, runs, stays, ?_, ?_⟩
  · rw [cursor.1, columnEq, column]
  · rw [cursor.2, line]

end Run

/-- Whatever is written after `Terminal::init`, every point of every glyph is a pixel of the
framebuffer. -/
def DrawsInside (gFramebuffer : Framebuffer) (font : List UInt8) : Prop :=
  ∀ (anything color : Bool) (fgColor : UInt32) (text : List UInt8), ∃ final,
    writechars text (startConsole gFramebuffer anything color fgColor) = .ok final ∧
      ∀ c x y fgColor, Event.drawChar c x y fgColor ∈ final.output →
        ∀ store ∈ drawChar gFramebuffer font c x y fgColor, store.1.toNat < gFramebuffer.pixels

section Main

variable {gFramebuffer : Framebuffer}

theorem OnPage.inside {console : Console} (page : OnPage gFramebuffer console)
    (sized : gFramebuffer.Sized) (room : gFramebuffer.RoomBehindLastCell)
    {font : List UInt8} {c : UInt8} {x y fgColor : UInt32}
    (event : Event.drawChar c x y fgColor ∈ console.output) :
    ∀ store ∈ drawChar gFramebuffer font c x y fgColor, store.1.toNat < gFramebuffer.pixels := by
  rintro ⟨index, color⟩ drawn
  obtain ⟨charX, charY, column, line, rfl, rfl⟩ := page.drawn c x y fgColor event
  obtain ⟨cx, cxBound, cy, cyBound, rfl⟩ := drawCharBg_index drawn
  have last := sized.lastIndex_lt_iff.mpr room
  have above : (16 * charY.toNat + cy) * (gFramebuffer.pitch.toNat / 4) ≤
      (16 * gFramebuffer.lastLine + 15) * (gFramebuffer.pitch.toNat / 4) :=
    Nat.mul_le_mul_right _ (by omega)
  show (translateToOffset gFramebuffer _ _).toNat < _
  rw [sized.cell_index column line cx cy cxBound cyBound]
  omega

theorem startConsole_lastCell (sized : gFramebuffer.Sized) (anything color : Bool)
    (fgColor : UInt32) :
    ∃ text final charX charY color', writechars text (startConsole gFramebuffer anything color
        fgColor) = .ok final ∧
      charX.toNat = gFramebuffer.lastColumn ∧ charY.toNat = gFramebuffer.lastLine ∧
      Event.drawChar 'A'.toUInt8 (charX * 8) (charY * 16) color' ∈ final.output := by
  obtain ⟨atLine, newlines, page, left, line⟩ :=
    (startConsole_onPage sized anything color fgColor).newlines ⟨rfl, rfl⟩
  obtain ⟨atCell, letters, page, column, sameLine⟩ := page.letters left
  obtain ⟨final, last, _, _, _, drawn⟩ := writechar_step atCell 'A'.toUInt8
  refine ⟨List.replicate gFramebuffer.lastLine '\n'.toUInt8 ++
      (List.replicate gFramebuffer.lastColumn 'A'.toUInt8 ++ ['A'.toUInt8]), final,
    atCell.gTerminal.charX, atCell.gTerminal.charY, atCell.gTerminal.fgColor, ?_, column, sameLine ▸ line, ?_⟩
  · rw [writechars_append, newlines]
    show writechars _ atLine = _
    rw [writechars_append, letters]
    show writechar atCell 'A'.toUInt8 >>= Except.ok = _
    rw [last]
    rfl
  · rw [drawn, showChar_drawn]
    exact .inr ⟨by decide, by decide, rfl, rfl, rfl, rfl⟩

/-- A glyph reaches nine pixels past its cell, so the terminal draws inside exactly when there
is room for that behind the last cell. -/
theorem drawsInside_iff (addressable : gFramebuffer.Addressable) {font : List UInt8}
    (glyphs : 128 * 16 ≤ font.length) :
    DrawsInside gFramebuffer font ↔ gFramebuffer.RoomBehindLastCell := by
  constructor
  · intro inside
    obtain ⟨text, final, charX, charY, color, runs, column, line, drawn⟩ :=
      startConsole_lastCell addressable.sized false false 0xFFFFFF
    obtain ⟨final', runs', contained⟩ := inside false false 0xFFFFFF text
    cases runs.symm.trans runs'
    have hasGlyph : ('A'.toUInt8.toNat + 1) * 16 ≤ font.length := by
      have letter : 'A'.toUInt8.toNat = 65 := by decide
      omega
    obtain ⟨shade, corner⟩ := drawCharBg_corner hasGlyph
    have below := contained _ _ _ _ drawn _ corner
    rw [addressable.sized.cell_index column.le line.le 0 15 (by decide) (by decide), column, line] at below
    exact addressable.sized.lastIndex_lt_iff.mp below
  · intro room anything color fgColor text
    obtain ⟨final, runs, page⟩ :=
      (startConsole_onPage addressable.sized anything color fgColor).writechars text
    exact ⟨final, runs, fun _ _ _ _ event => page.inside addressable.sized room event⟩

/-- A screen of 1920 by 1080 pixels has eight rows below the last line. -/
theorem drawsInside_fullHd :
    DrawsInside { height := 1080, pitch := 7680 } (List.replicate 2048 0) :=
  (drawsInside_iff ⟨by decide, by decide, by decide, by decide⟩
    (by rw [List.length_replicate])).mpr (.inr (.inl (by decide)))

/-- On a screen of 8 by 16 pixels the first letter is already outside. -/
theorem drawChar_outside :
    let gFramebuffer : Framebuffer := { height := 16, pitch := 32 }
    gFramebuffer.Addressable ∧ ∃ final,
      writechars ['A'.toUInt8] (startConsole gFramebuffer false false 0xFFFFFF) = .ok final ∧
        Event.drawChar 'A'.toUInt8 0 0 0xFFFFFF ∈ final.output ∧
        ∃ store ∈ drawChar gFramebuffer (List.replicate 2048 0) 'A'.toUInt8 0 0 0xFFFFFF,
          store.1 = 136 ∧ gFramebuffer.pixels = 128 := by
  refine ⟨⟨by decide, by decide, by decide, by decide⟩, ?_⟩
  obtain ⟨final, runs, _, _, _, drawn⟩ := writechar_step
    (startConsole { height := 16, pitch := 32 } false false 0xFFFFFF) 'A'.toUInt8
  refine ⟨final, ?_, ?_, ?_⟩
  · show writechar _ _ >>= Except.ok = _
    rw [runs]
    rfl
  · rw [drawn, showChar_drawn]
    exact .inr ⟨by decide, by decide, rfl, by decide, by decide, rfl⟩
  · have hasGlyph : ('A'.toUInt8.toNat + 1) * 16 ≤ (List.replicate 2048 (0 : UInt8)).length := by
      rw [List.length_replicate]
      decide
    have index : translateToOffset { height := 16, pitch := 32 } (0 + 16 - UInt32.ofNat 0)
      (0 + UInt32.ofNat 15) = 136 := by decide
    obtain ⟨color, corner⟩ := drawCharBg_corner hasGlyph
    exact ⟨_, corner, index, by decide⟩

end Main

end OkeOS
