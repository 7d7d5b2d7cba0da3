import OkeOS.ConsoleMeaning
import OkeOS.TerminalClear
import OkeOS.TextPage

/-!
The screen as a page of text: whatever is printed, every pixel of the framebuffer is what the page
has there, and the page is the text that was printed.
-/

namespace OkeOS

open ByteMemory Fuel TextPage

/-- What a character types. -/
def keyOf (drawn : UInt8 × UInt32) : Key (UInt8 × UInt32) :=
  if drawn.1 = '\n'.toUInt8 then .newline
  else if 31 < drawn.1.toNat ∧ drawn.1.toNat < 128 then .mark drawn
  else .gap

def Framebuffer.pageSize (gFramebuffer : Framebuffer) : Size where
  lastColumn := gFramebuffer.lastColumn
  lastLine := gFramebuffer.lastLine

/-- The page after a text. -/
def pageOf (gFramebuffer : Framebuffer) (ink : Ink) : Page (UInt8 × UInt32) :=
  (Page.fresh false).typeAll gFramebuffer.pageSize (ink.map keyOf)

/-- A point of a cell, in a glyph or in front of what is behind it.  The rows of a glyph that the
font does not have are not drawn. -/
def cellPixel (font : List UInt8) (cx cy : Nat) (behind : UInt32) :
    Option (UInt8 × UInt32) → UInt32
  | none => behind
  | some (c, fgColor) =>
      match font[c.toNat * 16 + cy]? with
      | none => behind
      | some v => if v.toNat.testBit cx then fgColor else 0x000000

/-- The index of a point of a cell. -/
def cellPoint (gFramebuffer : Framebuffer) (charX charY : UInt32) (cx cy : Nat) : UInt32 :=
  translateToOffset gFramebuffer (charX * 8 + 16 - UInt32.ofNat cx) (charY * 16 + UInt32.ofNat cy)

/-- The point is one of a cell of the page. -/
structure InCell (gFramebuffer : Framebuffer) (charX charY : UInt32) (cx cy : Nat) : Prop where
  column : charX.toNat ≤ gFramebuffer.lastColumn
  line : charY.toNat ≤ gFramebuffer.lastLine
  cx : cx < 8
  cy : cy < 16

/-- What is behind the text: the screen from before, until the page is turned. -/
def ground (gFramebuffer : LimineFramebuffer) (before : Memory) (turned : Bool) (index : UInt32) :
    UInt32 :=
  if turned then 0 else gFramebuffer.pixel before index

/-- Every pixel up to the end of what the clearing sets is as the page has it. -/
structure ShowsPage (gFramebuffer : LimineFramebuffer) (font : List UInt8) (before mem : Memory)
    (page : Page (UInt8 × UInt32)) : Prop where
  cell : ∀ charX charY cx cy, InCell gFramebuffer.toFramebuffer charX charY cx cy →
    (cellPoint gFramebuffer.toFramebuffer charX charY cx cy).toNat < gFramebuffer.clearedPixels →
      gFramebuffer.pixel mem (cellPoint gFramebuffer.toFramebuffer charX charY cx cy) =
        cellPixel font cx cy
          (ground gFramebuffer before page.turned
            (cellPoint gFramebuffer.toFramebuffer charX charY cx cy))
          (page.cells charX.toNat charY.toNat)
  between : ∀ index : UInt32, index.toNat < gFramebuffer.clearedPixels →
    (∀ charX charY cx cy, InCell gFramebuffer.toFramebuffer charX charY cx cy →
      index ≠ cellPoint gFramebuffer.toFramebuffer charX charY cx cy) →
      gFramebuffer.pixel mem index = ground gFramebuffer before page.turned index

section

variable {gFramebuffer : LimineFramebuffer} {font : List UInt8} {mem before : Memory}
  {charX charY : UInt32} {c : UInt8} {fgColor : UInt32}

theorem fresh_shown (font : List UInt8) (mem : Memory) :
    ShowsPage gFramebuffer font mem mem (Page.fresh false) where
  cell := fun _ _ _ _ _ _ => rfl
  between := fun _ _ _ => rfl

/-- A screen that is black shows a page that was turned. -/
theorem cleared_shown (black : ∀ index : UInt32, index.toNat < gFramebuffer.clearedPixels →
    gFramebuffer.pixel mem index = 0) : ShowsPage gFramebuffer font before mem (Page.fresh true) where
  cell := fun _ _ _ _ _ below => black _ below
  between := fun index below _ => black index below

/-- A glyph changes nothing outside its cell. -/
theorem drawChar_elsewhere {index : UInt32}
    (outside : ∀ cx < 8, ∀ cy < 16, index ≠ cellPoint gFramebuffer.toFramebuffer charX charY cx cy) :
    gFramebuffer.pixel ((drawChar gFramebuffer.toFramebuffer font c (charX * 8) (charY * 16)
      fgColor).foldl gFramebuffer.putPoint mem) index = gFramebuffer.pixel mem index := by
  apply LimineFramebuffer.pixel_drawn_other
  rintro ⟨other, color⟩ drawn same
  obtain ⟨cx, cxBound, cy, cyBound, otherEq⟩ := drawCharBg_index drawn
  exact outside cx cxBound cy cyBound (same.trans otherEq)

/-- Inside its cell a glyph sets the rows that the font has. -/
theorem drawChar_inside (sized : gFramebuffer.toFramebuffer.Sized) {cx cy : Nat}
    (inCell : InCell gFramebuffer.toFramebuffer charX charY cx cy) :
    gFramebuffer.pixel ((drawChar gFramebuffer.toFramebuffer font c (charX * 8) (charY * 16)
      fgColor).foldl gFramebuffer.putPoint mem)
        (cellPoint gFramebuffer.toFramebuffer charX charY cx cy) =
      cellPixel font cx cy
        (gFramebuffer.pixel mem (cellPoint gFramebuffer.toFramebuffer charX charY cx cy))
        (some (c, fgColor)) := by
  obtain ⟨column, line, cxBound, cyBound⟩ := inCell
  have row : ((font.drop (c.toNat * 16)).take 16)[cy]? = font[c.toNat * 16 + cy]? := by
    rw [List.getElem?_take_of_lt cyBound, List.getElem?_drop]
  rw [cellPixel]
  cases found : font[c.toNat * 16 + cy]? with
  | none =>
      apply LimineFramebuffer.pixel_drawn_other
      rintro ⟨other, color⟩ drawn same
      obtain ⟨cy', inGlyph, inRow⟩ := mem_drawRows.mp drawn
      obtain ⟨cx', cxBound', otherEq, _⟩ := mem_drawRow.mp inRow
      have glyph := inGlyph
      rw [List.length_take] at glyph
      rw [Nat.zero_add] at otherEq
      obtain ⟨_, _, _, rfl⟩ := sized.cell_unique column line column line cxBound cyBound cxBound'
        (by omega) (same.trans otherEq)
      rw [found, List.getElem?_eq_none_iff] at row
      omega
  | some v =>
      rw [found] at row
      obtain ⟨inGlyph, value⟩ := List.getElem?_eq_some_iff.mp row
      apply LimineFramebuffer.pixel_drawn (sized.drawCharBg_nodup column line font c fgColor 0)
      refine mem_drawRows.mpr ⟨cy, inGlyph, mem_drawRow.mpr ⟨cx, cxBound, ?_, ?_⟩⟩
      · rw [Nat.zero_add]
        rfl
      · rw [List.get_eq_getElem, value]

end

/-! One character. -/

theorem keyOf_isNewline (c : UInt8) (fgColor : UInt32) :
    (keyOf (c, fgColor)).isNewline = true ↔ c = '\n'.toUInt8 := by
  rw [keyOf]
  split
  · rename_i newline
    exact iff_of_true rfl newline
  · rename_i other
    split
    · exact iff_of_false Bool.false_ne_true other
    · exact iff_of_false Bool.false_ne_true other

theorem pageOf_concat (gFramebuffer : Framebuffer) (ink : Ink) (drawn : UInt8 × UInt32) :
    pageOf gFramebuffer (ink ++ [drawn]) =
      (pageOf gFramebuffer ink).type gFramebuffer.pageSize (keyOf drawn) := by
  rw [pageOf, List.map_append, Page.typeAll, List.foldl_append]
  rfl

theorem pageOf_good (gFramebuffer : Framebuffer) (ink : Ink) :
    (pageOf gFramebuffer ink).Good gFramebuffer.pageSize :=
  (Page.fresh_good false).typeAll _

theorem writechar_text {console after : Console} {c : UInt8} (runs : writechar console c = .ok after) :
    terminalText after.output = terminalText console.output ++ [(c, console.gTerminal.fgColor)] := by
  obtain ⟨notice, output⟩ := writechar_output runs
  have glyph : terminalText (console.gTerminal.glyph c) = [] := by
    rw [Terminal.glyph]
    split
    · rfl
    · rfl
  have wrap : terminalText (if console.gTerminal.Wraps c then [Event.pageWrap notice] else []) = [] := by
    split
    · rfl
    · rfl
  rw [terminalText] at glyph wrap
  simp [output, terminalText, glyph, wrap]

/-- The console and the screen are where the page is that was printed. -/
structure OnScreen (gFramebuffer : LimineFramebuffer) (font : List UInt8) (before : Memory)
    (console : Console) : Prop where
  onPage : OnPage gFramebuffer.toFramebuffer console
  column : console.gTerminal.charX.toNat =
    (pageOf gFramebuffer.toFramebuffer (terminalText console.output)).column
  line : console.gTerminal.charY.toNat =
    (pageOf gFramebuffer.toFramebuffer (terminalText console.output)).line
  shows : ShowsPage gFramebuffer font before (gFramebuffer.screen font before console.output)
    (pageOf gFramebuffer.toFramebuffer (terminalText console.output))

section

variable {gFramebuffer : LimineFramebuffer} {font : List UInt8} {before : Memory}
  {console after : Console} {c : UInt8}

/-- The limits of the page in the fields of the terminal. -/
theorem OnScreen.limits (onScreen : OnScreen gFramebuffer font before console) :
    (console.gTerminal.charX + 1 > console.gTerminal.charsPerLine ↔
      (pageOf gFramebuffer.toFramebuffer (terminalText console.output)).column + 1 >
        gFramebuffer.pageSize.lastColumn) ∧
    (console.gTerminal.charY + 1 > console.gTerminal.maxLines ↔
      (pageOf gFramebuffer.toFramebuffer (terminalText console.output)).line + 1 >
        gFramebuffer.pageSize.lastLine) := by
  obtain ⟨page, column, line, _⟩ := onScreen
  have columnEq := succ_toNat (page.column.trans Framebuffer.lastColumn_le)
  have lineEq := succ_toNat (page.line.trans (Framebuffer.lastLine_le.trans (by decide)))
  constructor
  · rw [gt_iff_lt, UInt32.lt_iff_toNat_lt, columnEq, page.charsPerLine, column]
    rfl
  · rw [gt_iff_lt, UInt32.lt_iff_toNat_lt, lineEq, page.maxLines, line]
    rfl

theorem OnScreen.turns_iff (onScreen : OnScreen gFramebuffer font before console) :
    console.gTerminal.Wraps c ↔
      (pageOf gFramebuffer.toFramebuffer (terminalText console.output)).Turns
        gFramebuffer.pageSize (keyOf (c, console.gTerminal.fgColor)) := by
  obtain ⟨columns, lines⟩ := onScreen.limits
  rw [Terminal.Wraps, Page.Turns, columns, lines, keyOf_isNewline]

/-- The cursor of the terminal goes with that of the page. -/
theorem OnScreen.cursor (onScreen : OnScreen gFramebuffer font before console)
    (runs : OkeOS.writechar console c = .ok after) :
    after.gTerminal.charX.toNat =
        (pageOf gFramebuffer.toFramebuffer (terminalText after.output)).column ∧
      after.gTerminal.charY.toNat =
        (pageOf gFramebuffer.toFramebuffer (terminalText after.output)).line := by
  obtain ⟨columns, lines⟩ := onScreen.limits
  obtain ⟨page, column, line, _⟩ := onScreen
  have columnEq := succ_toNat (page.column.trans Framebuffer.lastColumn_le)
  have lineEq := succ_toNat (page.line.trans (Framebuffer.lastLine_le.trans (by decide)))
  obtain ⟨after', runs', cursor, _⟩ := writechar_step console c
  cases runs.symm.trans runs'
  have typed := Page.type_cursor gFramebuffer.pageSize
    (pageOf gFramebuffer.toFramebuffer (terminalText console.output))
    (keyOf (c, console.gTerminal.fgColor))
  rw [writechar_text runs, pageOf_concat]
  simp only [keyOf_isNewline, ← columns, ← lines] at typed
  rw [Terminal.advance] at cursor
  split at cursor
  · rename_i ends
    rw [if_pos ends] at typed
    split at cursor
    · rename_i last
      rw [if_pos last, Prod.mk.injEq] at typed
      rw [Prod.mk.injEq] at cursor
      exact ⟨by rw [cursor.1, typed.1]; rfl, by rw [cursor.2, typed.2]; rfl⟩
    · rename_i below
      rw [if_neg below, Prod.mk.injEq] at typed
      rw [Prod.mk.injEq] at cursor
      exact ⟨by rw [cursor.1, typed.1]; rfl, by rw [cursor.2, typed.2, lineEq, line]⟩
  · rename_i within
    rw [if_neg within, Prod.mk.injEq] at typed
    rw [Prod.mk.injEq] at cursor
    exact ⟨by rw [cursor.1, typed.1, columnEq, column], by rw [cursor.2, typed.2, line]⟩

/-- A mark is drawn where the page gets it. -/
theorem OnScreen.drawn (sized : gFramebuffer.toFramebuffer.Sized)
    (onScreen : OnScreen gFramebuffer font before console) (fgColor : UInt32) :
    ShowsPage gFramebuffer font before
      ((drawChar gFramebuffer.toFramebuffer font c (console.gTerminal.charX * 8)
        (console.gTerminal.charY * 16) fgColor).foldl gFramebuffer.putPoint
          (gFramebuffer.screen font before console.output))
      ((pageOf gFramebuffer.toFramebuffer (terminalText console.output)).put (c, fgColor)) := by
  have good := pageOf_good gFramebuffer.toFramebuffer (terminalText console.output)
  obtain ⟨page, column, line, cell, between⟩ := onScreen
  refine ⟨?_, ?_⟩
  · intro charX charY cx cy inCell below
    by_cases same : charX = console.gTerminal.charX ∧ charY = console.gTerminal.charY
    · obtain ⟨rfl, rfl⟩ := same
      have empty := good.empty _ _ (.inr ⟨rfl, Nat.le_refl _⟩)
      have behind := cell _ _ cx cy inCell below
      rw [column, line, empty, cellPixel] at behind
      rw [drawChar_inside sized inCell, behind, column, line, Page.put_same]
      rfl
    · rw [drawChar_elsewhere, cell charX charY cx cy inCell below, Page.put_other]
      · rfl
      · rintro ⟨sameColumn, sameLine⟩
        exact same ⟨UInt32.toNat.inj (sameColumn.trans column.symm),
          UInt32.toNat.inj (sameLine.trans line.symm)⟩
      · intro cx' cxBound' cy' cyBound' sameIndex
        obtain ⟨sameX, sameY, _⟩ := sized.cell_unique inCell.column inCell.line page.column page.line
          inCell.cx inCell.cy cxBound' cyBound' sameIndex
        exact same ⟨sameX, sameY⟩
  · intro index below outside
    rw [drawChar_elsewhere, between index below outside]
    · rfl
    · intro cx cxBound cy cyBound
      exact outside _ _ cx cy ⟨page.column, page.line, cxBound, cyBound⟩

theorem OnScreen.writechar (bits : gFramebuffer.bpp = 32)
    (sized : gFramebuffer.toFramebuffer.Sized)
    (onScreen : OnScreen gFramebuffer font before console)
    (runs : OkeOS.writechar console c = .ok after) : OnScreen gFramebuffer font before after := by
  obtain ⟨after', runs', page⟩ := onScreen.onPage.writechar c
  cases runs.symm.trans runs'
  obtain ⟨column, line⟩ := onScreen.cursor runs
  refine ⟨page, column, line, ?_⟩
  rw [writechar_text runs, pageOf_concat]
  by_cases wraps : console.gTerminal.Wraps c
  · rw [Page.type_turns (onScreen.turns_iff.mp wraps)]
    apply cleared_shown
    intro index below
    rw [wraps_pixel bits wraps runs, if_pos below]
  · have stays := mt onScreen.turns_iff.mpr wraps
    obtain ⟨turned, cells⟩ := Page.type_cells stays
    obtain ⟨notice, output⟩ := writechar_output runs
    rw [if_neg wraps, List.append_nil] at output
    have screen : gFramebuffer.screen font before after.output = gFramebuffer.screen font
        (gFramebuffer.screen font before console.output) (console.gTerminal.glyph c) := by
      rw [output, LimineFramebuffer.screen_append]
      rfl
    have sameShown {mem : Memory} {first second : Page (UInt8 × UInt32)}
        (shows : ShowsPage gFramebuffer font before mem first)
        (sameTurned : second.turned = first.turned) (sameCells : second.cells = first.cells) :
        ShowsPage gFramebuffer font before mem second :=
      ⟨by rw [sameTurned, sameCells]; exact shows.cell, by rw [sameTurned]; exact shows.between⟩
    rw [screen, Terminal.glyph]
    by_cases visible : 31 < c.toNat ∧ c.toNat < 128
    · have letter : keyOf (c, console.gTerminal.fgColor) = .mark (c, console.gTerminal.fgColor) := by
        rw [keyOf, if_neg, if_pos visible]
        rintro rfl
        exact absurd visible.1 (by decide)
      rw [if_pos visible]
      refine sameShown (onScreen.drawn sized console.gTerminal.fgColor) turned (cells.trans ?_)
      rw [letter]
      rfl
    · have hidden : (pageOf gFramebuffer.toFramebuffer (terminalText console.output)).mark
          (keyOf (c, console.gTerminal.fgColor)) =
            pageOf gFramebuffer.toFramebuffer (terminalText console.output) := by
        rw [keyOf, if_neg visible]
        split
        · rfl
        · rfl
      rw [if_neg visible]
      exact sameShown onScreen.shows turned (cells.trans (congrArg Page.cells hidden))

theorem startConsole_onScreen (sized : gFramebuffer.toFramebuffer.Sized) (anything color : Bool)
    (fgColor : UInt32) : OnScreen gFramebuffer font before
      (startConsole gFramebuffer.toFramebuffer anything color fgColor) where
  onPage := startConsole_onPage sized anything color fgColor
  column := rfl
  line := rfl
  shows := fresh_shown font before

theorem TerminalRun.onScreen (bits : gFramebuffer.bpp = 32)
    (sized : gFramebuffer.toFramebuffer.Sized)
    (run : TerminalRun gFramebuffer.toFramebuffer console) :
    OnScreen gFramebuffer font before console := by
  induction run with
  | start anything color fgColor => exact startConsole_onScreen sized anything color fgColor
  | writechar _ runs ih => exact ih.writechar bits sized runs
  | @between console anything color fgColor line run ih =>
      have silent : terminalText (console.output ++ line.map .serial) =
          terminalText console.output := by
        simp [terminalText, List.filterMap_map]
      have page := (@TerminalRun.shown gFramebuffer font before _ sized
        (run.between anything color fgColor line)).page
      refine ⟨page, ?_, ?_, ?_⟩
      · rw [silent]
        exact ih.column
      · rw [silent]
        exact ih.line
      · rw [silent, screen_serial]
        exact ih.shows

end

/-! Printing is made of characters and of changes of the colour. -/

section

variable {gFramebuffer : Framebuffer} {console after : Console} {serial terminal : Bool}
  {stringAt : UInt64 → CString} {fuel : Nat} {args rest : List UInt64}

theorem TerminalRun.escape (run : TerminalRun gFramebuffer console) (anything color : Bool) :
    TerminalRun gFramebuffer
      { console with currentlyReadingAnything := anything, currentlyReadingColor := color } := by
  simpa using run.between anything color console.gTerminal.fgColor []

theorem TerminalRun.setColor (run : TerminalRun gFramebuffer console) (letter : UInt8) :
    TerminalRun gFramebuffer (console.setColor letter) := by
  simpa [Console.setColor] using run.between false false (colorOf letter console.gTerminal.fgColor) []

theorem TerminalRun.send (run : TerminalRun gFramebuffer console) (c : UInt8) :
    TerminalRun gFramebuffer (console.send (.serial c)) :=
  run.between console.currentlyReadingAnything console.currentlyReadingColor
    console.gTerminal.fgColor [c]

theorem TerminalRun.emit (run : TerminalRun gFramebuffer console) {c : UInt8}
    (runs : OkeOS.emit OkeOS.writechar c serial terminal console = .ok after) :
    TerminalRun gFramebuffer after := by
  have sent : TerminalRun gFramebuffer (if serial then console.send (.serial c) else console) := by
    split
    · exact run.send c
    · exact run
  rw [OkeOS.emit] at runs
  split at runs
  · exact sent.writechar runs
  · cases runs
    exact sent

theorem TerminalRun.writeChar (run : TerminalRun gFramebuffer console) {c : UInt8}
    (runs : OkeOS.writeChar OkeOS.writechar c serial terminal console = .ok after) :
    TerminalRun gFramebuffer after := by
  rw [OkeOS.writeChar] at runs
  split at runs
  · cases runs
    exact run.escape true console.currentlyReadingColor
  split at runs
  · split at runs
    · cases runs
      exact run.setColor c
    · split at runs
      · cases runs
        exact run.escape console.currentlyReadingAnything true
      · cases runs
        exact run
  · exact run.emit runs

theorem TerminalRun.writeLoop (run : TerminalRun gFramebuffer console) {chars : List UInt8}
    (runs : OkeOS.writeLoop OkeOS.writechar fuel chars serial terminal console = .ok after) :
    TerminalRun gFramebuffer after := by
  induction fuel generalizing chars console with
  | zero =>
      cases chars with
      | nil =>
          cases runs
          exact run
      | cons c rest => cases runs
  | succ fuel ih =>
      cases chars with
      | nil =>
          cases runs
          exact run
      | cons c rest =>
          rw [OkeOS.writeLoop] at runs
          split at runs
          · exact ih (run.escape true console.currentlyReadingColor) runs
          split at runs
          · split at runs
            · exact ih (run.setColor c) runs
            · split at runs
              · exact ih (run.escape console.currentlyReadingAnything true) runs
              · exact ih run runs
          · obtain ⟨between, emitted, later⟩ := Fault.peel runs
            exact ih (run.emit emitted) later

theorem TerminalRun.formatSpecifier (run : TerminalRun gFramebuffer console) {letter : UInt8}
    (notPercent : letter ≠ '%'.toUInt8)
    (runs : OkeOS.formatSpecifier OkeOS.writechar stringAt fuel serial terminal letter args console =
      .ok (rest, after)) : TerminalRun gFramebuffer after := by
  cases found : specifierOf letter with
  | none =>
      rw [formatSpecifier_fixed notPercent found] at runs
      obtain ⟨printed, written, result⟩ := Fault.peel runs
      cases result
      exact run.writeLoop written
  | some specifier =>
      obtain rfl := specifierOf_some found
      cases args with
      | nil =>
          rw [formatSpecifier_missing] at runs
          cases runs
      | cons value args =>
          rw [formatSpecifier_eq] at runs
          by_cases isChar : specifier = .c
          · rw [if_pos isChar] at runs
            obtain ⟨printed, written, result⟩ := Fault.peel runs
            cases result
            exact run.writeChar written
          · rw [if_neg isChar] at runs
            obtain ⟨printed, written, result⟩ := Fault.peel runs
            cases result
            exact run.writeLoop written

theorem TerminalRun.readChar (run : TerminalRun gFramebuffer console) {c : UInt8}
    (notPercent : c ≠ '%'.toUInt8) {isParsingSpecifier : Bool}
    (runs : OkeOS.readChar stringAt fuel serial terminal isParsingSpecifier c args console =
      .ok (rest, after)) : TerminalRun gFramebuffer after := by
  rw [OkeOS.readChar] at runs
  split at runs
  · exact run.formatSpecifier notPercent runs
  · obtain ⟨printed, written, result⟩ := Fault.peel runs
    cases result
    exact run.writeChar written

theorem TerminalRun.kprintfLoop (run : TerminalRun gFramebuffer console) {chars : List UInt8}
    (noNul : 0 ∉ chars) {isParsingSpecifier : Bool}
    (runs : OkeOS.kprintfLoop OkeOS.writechar stringAt fuel serial terminal chars isParsingSpecifier
      args console = .ok (rest, after)) : TerminalRun gFramebuffer after := by
  induction chars generalizing isParsingSpecifier args console with
  | nil =>
      cases runs
      exact run
  | cons c chars ih =>
      rw [List.mem_cons, not_or] at noNul
      by_cases percent : c = '%'.toUInt8
      · rw [OkeOS.kprintfLoop, if_pos percent] at runs
        exact ih run noNul.2 runs
      · rw [kprintfLoop_read percent (Ne.symm noNul.1)] at runs
        obtain ⟨⟨args', between⟩, read, later⟩ := Fault.peel runs
        exact ih (run.readChar percent read) noNul.2 later

end

/-- On a screen without padding the clearing sets all pixels. -/
theorem clearedPixels_eq {gFramebuffer : LimineFramebuffer}
    (sized : gFramebuffer.toFramebuffer.Sized)
    (unpadded : gFramebuffer.pitch.toNat = 4 * gFramebuffer.width.toNat) :
    gFramebuffer.clearedPixels = gFramebuffer.toFramebuffer.pixels := by
  have size := sized.size
  have width : gFramebuffer.pitch.toNat / 4 = gFramebuffer.width.toNat := by omega
  rw [width] at size
  rw [LimineFramebuffer.clearedPixels, Framebuffer.pixels, width, Nat.mul_comm]
  exact Nat.mod_eq_of_lt (by omega)

/-- Whatever was printed before, a print that returns leaves every pixel as the page of the whole
text has it, with what the format means at the end, and the cursor where the page has its own.
This is about all pixels that the clearing sets, and on a screen without padding about all. -/
theorem kprintf_screen {gFramebuffer : LimineFramebuffer} (bits : gFramebuffer.bpp = 32)
    (sized : gFramebuffer.toFramebuffer.Sized) (font : List UInt8) (before : Memory)
    {console after : Console} (run : TerminalRun gFramebuffer.toFramebuffer console)
    {stringAt : UInt64 → CString} {fuel : Nat} {str : CString} {serial terminal : Bool}
    {args rest : List UInt64}
    (runs : kprintf stringAt fuel str serial terminal args console = .ok (rest, after)) :
    TerminalRun gFramebuffer.toFramebuffer after ∧
      (∃ ink, meaning stringAt str.chars false args console.pen = .ok (rest, after.pen, ink) ∧
        let page := pageOf gFramebuffer.toFramebuffer
          (terminalText console.output ++ if terminal then ink else [])
        after.gTerminal.charX.toNat = page.column ∧ after.gTerminal.charY.toNat = page.line ∧
          page.Good gFramebuffer.pageSize ∧
          ShowsPage gFramebuffer font before (gFramebuffer.screen font before after.output) page) ∧
      (gFramebuffer.pitch.toNat = 4 * gFramebuffer.width.toNat →
        gFramebuffer.clearedPixels = gFramebuffer.toFramebuffer.pixels) := by
  have last : TerminalRun gFramebuffer.toFramebuffer after := run.kprintfLoop str.noNul runs
  have refines : Refines .outOfFuel (ShowsRest serial terminal console)
      (fun fuel => kprintf stringAt fuel str serial terminal args console)
      (meaning stringAt str.chars false args console.pen) :=
    kprintfLoop_refines str.noNul false args console
  obtain ⟨⟨rest', pen, ink⟩, means, same, drawn⟩ := refines.of_run runs
  obtain rfl : rest = rest' := same
  obtain rfl : after.pen = pen := drawn.pen
  obtain ⟨_, column, line, shows⟩ := @TerminalRun.onScreen gFramebuffer font before _ bits sized last
  have text : terminalText after.output =
      terminalText console.output ++ if terminal then ink else [] := drawn.terminalText
  rw [text] at column line shows
  exact ⟨last, ⟨ink, means, column, line, pageOf_good _ _, shows⟩, clearedPixels_eq sized⟩

/-- 32 by 32 pixels. -/
def smallScreen : LimineFramebuffer :=
  { height := 32, pitch := 128, address := 0, width := 32, bpp := 32 }

/-- Two letters on a small screen. -/
theorem kprintf_screen_twoLetters : ∃ fuel after,
    kprintf (fun _ => .ofBuffer []) fuel (.ofBuffer (text "Hi")) false true []
      (startConsole smallScreen.toFramebuffer false false 0xFFFFFF) = .ok ([], after) ∧
    after.gTerminal.charX.toNat = 2 ∧
    ShowsPage smallScreen whiteFont (fun _ => 0)
      (smallScreen.screen whiteFont (fun _ => 0) after.output)
      (pageOf smallScreen.toFramebuffer
        [('H'.toUInt8, 0xFFFFFF), ('i'.toUInt8, 0xFFFFFF)]) := by
  have sized : smallScreen.toFramebuffer.Sized := ⟨by decide, by decide, by decide⟩
  have chars : (CString.ofBuffer (text "Hi")).chars = ['H'.toUInt8, 'i'.toUInt8] := by decide
  have plain : ∀ c ∈ ['H'.toUInt8, 'i'.toUInt8], c ≠ '%'.toUInt8 ∧ c ≠ '$'.toUInt8 := by
    rw [List.forall_mem_cons, List.forall_mem_singleton]
    exact ⟨⟨by decide, by decide⟩, by decide, by decide⟩
  have means (pen : Pen) (closed : pen.anything = false) :
      meaning (fun _ => .ofBuffer []) ['H'.toUInt8, 'i'.toUInt8] false [] pen =
        .ok ([], pen, [('H'.toUInt8, pen.fgColor), ('i'.toUInt8, pen.fgColor)]) :=
    meaning_plain plain closed
  have refines : Refines .outOfFuel (ShowsRest false true
        (startConsole smallScreen.toFramebuffer false false 0xFFFFFF))
      (fun fuel => kprintf (fun _ => .ofBuffer []) fuel (.ofBuffer (text "Hi")) false true []
        (startConsole smallScreen.toFramebuffer false false 0xFFFFFF)) _ :=
    kprintfLoop_refines (CString.ofBuffer (text "Hi")).noNul false [] _
  rw [chars, means _ rfl] at refines
  obtain ⟨fuel, ⟨rest, after⟩, ⟨rfl, _⟩, enough⟩ := refines.enough
  have runs := enough fuel (Nat.le_refl _)
  obtain ⟨_, ⟨ink, read, column, _, _, shows⟩, _⟩ := kprintf_screen rfl sized whiteFont
    (fun _ => 0) (.start false false 0xFFFFFF) runs
  rw [chars, means _ rfl] at read
  obtain rfl : [('H'.toUInt8, (0xFFFFFF : UInt32)), ('i'.toUInt8, 0xFFFFFF)] = ink :=
    congrArg (fun drawn => drawn.2.2) (Except.ok.inj read)
  exact ⟨fuel, after, runs, column, shows⟩

end OkeOS
