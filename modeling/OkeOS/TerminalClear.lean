import OkeOS.TerminalScreen

/-!
What the clearing of a full page leaves.  It sets as many pixels as the screen has visible ones,
while the rows of the screen lie a pitch apart, so the pixels at the bottom survive when the rows
are padded.
-/

namespace OkeOS

open ByteMemory

/-- The number of pixels that the clearing sets. -/
def LimineFramebuffer.clearedPixels (gFramebuffer : LimineFramebuffer) : Nat :=
  gFramebuffer.width.toNat * gFramebuffer.height.toNat % 2 ^ 59

/-- The pixel that is seen at column `x` of row `y`. -/
def LimineFramebuffer.Visible (gFramebuffer : LimineFramebuffer) (x y : UInt32) : Prop :=
  x.toNat < gFramebuffer.width.toNat ∧ y.toNat < gFramebuffer.height.toNat

/-- Every character that moves the cursor past the last line leaves a black screen and the cursor
at its start. -/
def ClearErases (gFramebuffer : LimineFramebuffer) (font : List UInt8) : Prop :=
  ∀ (mem : Memory) (console after : Console) (c : UInt8),
    TerminalRun gFramebuffer.toFramebuffer console → console.gTerminal.Wraps c →
    writechar console c = .ok after →
    after.gTerminal.cursor = (0, 0) ∧ ∀ x y, gFramebuffer.Visible x y →
      gFramebuffer.pixel (gFramebuffer.screen font mem after.output)
        (translateToOffset gFramebuffer.toFramebuffer x y) = 0

section

variable {gFramebuffer : LimineFramebuffer} {font : List UInt8} {mem : Memory}
  {console after : Console} {c : UInt8}

theorem clearSize_toNat (bits : gFramebuffer.bpp = 32) :
    gFramebuffer.clearSize.toNat = 4 * gFramebuffer.clearedPixels := by
  have scaled := Nat.mul_mod_mul_right 32 (gFramebuffer.width.toNat * gFramebuffer.height.toNat)
    (2 ^ 59)
  have word : (2 : Nat) ^ 59 * 32 = 2 ^ 64 := by norm_num
  rw [word] at scaled
  simp only [LimineFramebuffer.clearSize, UInt64.toNat_div, UInt64.toNat_mul, bits,
    UInt16.toNat_toUInt64, UInt16.reduceToNat, UInt64.reduceToNat, LimineFramebuffer.clearedPixels]
  omega

theorem wraps_pixel (bits : gFramebuffer.bpp = 32) (wraps : console.gTerminal.Wraps c)
    (runs : writechar console c = .ok after) (index : UInt32) :
    gFramebuffer.pixel (gFramebuffer.screen font mem after.output) index =
      if index.toNat < gFramebuffer.clearedPixels then 0
      else gFramebuffer.pixel (gFramebuffer.screen font mem
        (console.output ++ console.gTerminal.glyph c)) index := by
  have size := clearSize_toNat bits
  obtain ⟨notice, output⟩ := writechar_output runs
  rw [if_pos wraps] at output
  have cleared : gFramebuffer.screen font mem after.output = gFramebuffer.clear
      (gFramebuffer.screen font mem (console.output ++ console.gTerminal.glyph c)) := by
    rw [output, LimineFramebuffer.screen_append, LimineFramebuffer.screen_append]
    simp [LimineFramebuffer.screen, LimineFramebuffer.replay]
  rw [cleared, LimineFramebuffer.pixel_clear index (by omega), size]
  simp only [Nat.mul_lt_mul_left (show 0 < 4 by decide)]

theorem wraps_cursor (wraps : console.gTerminal.Wraps c) (runs : writechar console c = .ok after) :
    after.gTerminal.cursor = (0, 0) := by
  obtain ⟨after', runs', cursor, _⟩ := writechar_step console c
  cases runs.symm.trans runs'
  rw [Terminal.advance, if_pos wraps.1, if_pos wraps.2] at cursor
  exact cursor

/-! A page that is filled with newlines draws nothing. -/

theorem init_maxLines_le (this : Terminal) (gFramebuffer : Framebuffer) :
    (this.init gFramebuffer).maxLines.toNat ≤ 128 := by
  simp only [Terminal.init]
  split
  · decide
  · rename_i below
    exact Nat.le_of_not_lt fun above => below (UInt32.lt_iff_toNat_lt.mpr above)

/-- The console after some newlines on the first page. -/
structure Newlines (gFramebuffer : LimineFramebuffer) (count : Nat) (console : Console) : Prop where
  run : TerminalRun gFramebuffer.toFramebuffer console
  maxLines : console.gTerminal.maxLines =
    (startConsole gFramebuffer.toFramebuffer false false 0xFFFFFF).gTerminal.maxLines
  column : console.gTerminal.charX = 0
  line : console.gTerminal.charY.toNat = count
  blank : ∀ font mem, gFramebuffer.screen font mem console.output = mem

theorem newline_glyph (this : Terminal) : this.glyph '\n'.toUInt8 = [] :=
  if_neg (by decide)

theorem newlines_reached (gFramebuffer : LimineFramebuffer) {count : Nat}
    (within : count ≤ (startConsole gFramebuffer.toFramebuffer false false
      0xFFFFFF).gTerminal.maxLines.toNat) :
    ∃ console, Newlines gFramebuffer count console := by
  induction count with
  | zero => exact ⟨_, .start false false 0xFFFFFF, rfl, rfl, rfl, fun _ _ => rfl⟩
  | succ count ih =>
      obtain ⟨console, before⟩ := ih (by omega)
      have small : (startConsole gFramebuffer.toFramebuffer false false
          0xFFFFFF).gTerminal.maxLines.toNat ≤ 128 := init_maxLines_le _ _
      have lineEq := succ_toNat (show console.gTerminal.charY.toNat ≤ 256 by rw [before.line]; omega)
      have notLast : ¬console.gTerminal.charY + 1 > console.gTerminal.maxLines := by
        rw [gt_iff_lt, UInt32.lt_iff_toNat_lt, lineEq, before.line, before.maxLines]
        omega
      obtain ⟨after, runs, cursor, _, maxLines, _⟩ := writechar_step console '\n'.toUInt8
      obtain ⟨notice, output⟩ := writechar_output runs
      rw [Terminal.advance, if_pos (.inr rfl), if_neg notLast, Prod.mk.injEq] at cursor
      rw [newline_glyph, if_neg fun wraps => notLast wraps.2] at output
      refine ⟨after, before.run.writechar runs, maxLines.trans before.maxLines, cursor.1, ?_, ?_⟩
      · rw [cursor.2, lineEq, before.line]
      · intro font mem
        rw [output, LimineFramebuffer.screen_append, before.blank]
        rfl

/-- Newlines alone fill the page, so that the next one clears it, and draw nothing. -/
theorem newlines_wrap (gFramebuffer : LimineFramebuffer) : ∃ console after,
    TerminalRun gFramebuffer.toFramebuffer console ∧ console.gTerminal.Wraps '\n'.toUInt8 ∧
      writechar console '\n'.toUInt8 = .ok after ∧
      ∀ font mem, gFramebuffer.screen font mem (console.output ++
        console.gTerminal.glyph '\n'.toUInt8) = mem := by
  obtain ⟨console, full⟩ := newlines_reached gFramebuffer (Nat.le_refl _)
  have small : (startConsole gFramebuffer.toFramebuffer false false
      0xFFFFFF).gTerminal.maxLines.toNat ≤ 128 := init_maxLines_le _ _
  have lineEq := succ_toNat (show console.gTerminal.charY.toNat ≤ 256 by rw [full.line]; omega)
  have last : console.gTerminal.charY + 1 > console.gTerminal.maxLines := by
    rw [gt_iff_lt, UInt32.lt_iff_toNat_lt, lineEq, full.line, full.maxLines]
    omega
  obtain ⟨after, runs, _⟩ := writechar_step console '\n'.toUInt8
  refine ⟨console, after, full.run, ⟨.inr rfl, last⟩, runs, fun font mem => ?_⟩
  rw [newline_glyph, List.append_nil]
  exact full.blank font mem

theorem clearErases_iff_below (bits : gFramebuffer.bpp = 32) : ClearErases gFramebuffer font ↔
    ∀ x y, gFramebuffer.Visible x y →
      (translateToOffset gFramebuffer.toFramebuffer x y).toNat < gFramebuffer.clearedPixels := by
  constructor
  · intro erases x y visible
    obtain ⟨console, after, run, wraps, runs, blank⟩ := newlines_wrap gFramebuffer
    have black := (erases (fun _ => 255) console after _ run wraps runs).2 x y visible
    rw [wraps_pixel bits wraps runs, blank] at black
    by_contra beyond
    rw [if_neg beyond] at black
    have white (address : Nat) : load (fun _ => 255) address 4 = 0xFFFFFFFF := by simp [load]
    rw [LimineFramebuffer.pixel, white] at black
    exact absurd black (by decide)
  · intro below mem console after c run wraps runs
    refine ⟨wraps_cursor wraps runs, fun x y visible => ?_⟩
    rw [wraps_pixel bits wraps runs, if_pos (below x y visible)]

theorem padding_iff {width height stride : Nat} (narrow : width ≤ stride) :
    (∀ column < width, ∀ row < height, row * stride + column < width * height) ↔
      width = 0 ∨ height ≤ 1 ∨ stride = width := by
  constructor
  · intro below
    by_contra padded
    rw [not_or, not_or] at padded
    obtain ⟨rows, rfl⟩ : ∃ rows, height = rows + 2 := ⟨height - 2, by omega⟩
    have corner := below (width - 1) (by omega) (rows + 1) (by omega)
    have wider : (rows + 1) * (width + 1) ≤ (rows + 1) * stride := Nat.mul_le_mul_left _ (by omega)
    have expand : (rows + 1) * (width + 1) = width * rows + width + rows + 1 := by ring
    have area : width * (rows + 2) = width * rows + 2 * width := by ring
    omega
  · rintro (empty | single | rfl) column inRow row inColumn
    · omega
    · obtain rfl : row = 0 := by omega
      obtain rfl : height = 1 := by omega
      omega
    · have rows := Nat.mul_le_mul_left stride (show row + 1 ≤ height from inColumn)
      rw [Nat.mul_add, Nat.mul_one, Nat.mul_comm stride row] at rows
      omega

/-- As long as no index wraps around, rows without padding are what it takes. -/
theorem below_iff (aligned : gFramebuffer.pitch.toNat % 4 = 0)
    (wide : 4 * gFramebuffer.width.toNat ≤ gFramebuffer.pitch.toNat)
    (small : gFramebuffer.height.toNat * (gFramebuffer.pitch.toNat / 4) < 2 ^ 32) :
    (∀ x y, gFramebuffer.Visible x y →
      (translateToOffset gFramebuffer.toFramebuffer x y).toNat < gFramebuffer.clearedPixels) ↔
      gFramebuffer.width.toNat = 0 ∨ gFramebuffer.height.toNat ≤ 1 ∨
        gFramebuffer.pitch.toNat = 4 * gFramebuffer.width.toNat := by
  obtain ⟨stride, pitchEq⟩ : ∃ stride, gFramebuffer.pitch.toNat / 4 = stride := ⟨_, rfl⟩
  have narrow : gFramebuffer.width.toNat ≤ stride := by omega
  have few : gFramebuffer.clearedPixels = gFramebuffer.width.toNat * gFramebuffer.height.toNat := by
    have area := Nat.mul_le_mul_left gFramebuffer.height.toNat narrow
    rw [LimineFramebuffer.clearedPixels, Nat.mod_eq_of_lt]
    rw [pitchEq] at small
    rw [Nat.mul_comm]
    omega
  have index {x y : UInt32} (visible : gFramebuffer.Visible x y) :
      (translateToOffset gFramebuffer.toFramebuffer x y).toNat = y.toNat * stride + x.toNat := by
    have rows := Nat.mul_le_mul_right stride (show y.toNat + 1 ≤ gFramebuffer.height.toNat from visible.2)
    have column := visible.1
    rw [Nat.add_mul, Nat.one_mul] at rows
    rw [pitchEq] at small
    rw [translateToOffset, UInt64.toNat_toUInt32, UInt64.toNat_add, UInt64.toNat_mul,
      UInt32.toNat_toUInt64, UInt32.toNat_toUInt64, Framebuffer.stride_toNat, pitchEq]
    omega
  have exact : gFramebuffer.pitch.toNat = 4 * gFramebuffer.width.toNat ↔
      stride = gFramebuffer.width.toNat := by omega
  rw [exact, ← padding_iff narrow, few]
  constructor
  · intro below column inRow row inColumn
    have total : (row + 1) * (column + 1) ≤ gFramebuffer.height.toNat * stride :=
      Nat.mul_le_mul inColumn (Nat.lt_of_lt_of_le inRow narrow)
    have rows : row + 1 ≤ (row + 1) * (column + 1) := Nat.le_mul_of_pos_right _ (by omega)
    have columns : column + 1 ≤ (row + 1) * (column + 1) := Nat.le_mul_of_pos_left _ (by omega)
    rw [pitchEq] at small
    have columnEq : (UInt32.ofNat column).toNat = column :=
      UInt32.toNat_ofNat_of_lt' (by rw [UInt32.size]; omega)
    have rowEq : (UInt32.ofNat row).toNat = row :=
      UInt32.toNat_ofNat_of_lt' (by rw [UInt32.size]; omega)
    have visible : gFramebuffer.Visible (UInt32.ofNat column) (UInt32.ofNat row) :=
      ⟨by rwa [columnEq], by rwa [rowEq]⟩
    have inside := below _ _ visible
    rwa [index visible, columnEq, rowEq] at inside
  · intro below x y visible
    rw [index visible]
    exact below x.toNat visible.1 y.toNat visible.2

/-- The clearing leaves a black screen exactly when every visible pixel has an index below the
number of pixels that it sets: when the rows have no padding, if no index wraps around. -/
theorem clearErases_iff (bits : gFramebuffer.bpp = 32)
    (wide : 4 * gFramebuffer.width.toNat ≤ gFramebuffer.pitch.toNat)
    (aligned : gFramebuffer.pitch.toNat % 4 = 0) :
    (ClearErases gFramebuffer font ↔ ∀ x y, gFramebuffer.Visible x y →
      (translateToOffset gFramebuffer.toFramebuffer x y).toNat < gFramebuffer.clearedPixels) ∧
    (gFramebuffer.height.toNat * (gFramebuffer.pitch.toNat / 4) < 2 ^ 32 →
      (ClearErases gFramebuffer font ↔ gFramebuffer.width.toNat = 0 ∨
        gFramebuffer.height.toNat ≤ 1 ∨
          gFramebuffer.pitch.toNat = 4 * gFramebuffer.width.toNat)) := by
  refine ⟨clearErases_iff_below bits, fun small => ?_⟩
  rw [clearErases_iff_below bits, below_iff aligned wide small]

end

def whiteFont : List UInt8 := List.replicate 2048 255

/-- A screen of 1920 by 1080 pixels without padding. -/
theorem clearErases_fullHd : ClearErases
    { height := 1080, pitch := 7680, address := 0, width := 1920, bpp := 32 }
    whiteFont :=
  ((@clearErases_iff { height := 1080, pitch := 7680, address := 0, width := 1920, bpp := 32 }
    whiteFont rfl (by decide) (by decide)).2 (by decide)).mpr
      (.inr (.inr (by decide)))

/-- 1366 by 768 pixels with rows of 1376. -/
def paddedScreen : LimineFramebuffer :=
  { height := 768, pitch := 5504, address := 0, width := 1366, bpp := 32 }

theorem paddedScreen_sized : paddedScreen.toFramebuffer.Sized := ⟨by decide, by decide, by decide⟩

/-- The lower right corner of a letter in the last line. -/
theorem paddedScreen_corner :
    (translateToOffset paddedScreen.toFramebuffer 16 767, (0xFFFFFF : UInt32)) ∈
      drawChar paddedScreen.toFramebuffer whiteFont 'A'.toUInt8 (0 * 8) (47 * 16) 0xFFFFFF := by
  have glyph : (whiteFont.drop ('A'.toUInt8.toNat * 16)).take 16 = List.replicate 16 255 := by
    have letter : 'A'.toUInt8.toNat = 65 := by decide
    rw [whiteFont, List.drop_replicate, List.take_replicate, letter]
    rfl
  rw [drawChar, drawCharBg, glyph, mem_drawRows]
  refine ⟨15, by decide, mem_drawRow.mpr ⟨0, by decide, by decide, ?_⟩⟩
  simp

/-- A letter of the last line is still there after the clearing. -/
theorem clear_leavesLetter : paddedScreen.bpp = 32 ∧
    4 * paddedScreen.width.toNat ≤ paddedScreen.pitch.toNat ∧ paddedScreen.pitch.toNat % 4 = 0 ∧
    ∃ console after, TerminalRun paddedScreen.toFramebuffer console ∧
      console.gTerminal.Wraps '\n'.toUInt8 ∧ writechar console '\n'.toUInt8 = .ok after ∧
      paddedScreen.Visible 16 767 ∧
      paddedScreen.pixel (paddedScreen.screen whiteFont (fun _ => 0) after.output)
        (translateToOffset paddedScreen.toFramebuffer 16 767) = 0xFFFFFF := by
  obtain ⟨console, filled⟩ := @newlines_reached paddedScreen 47 (by decide)
  have limit : console.gTerminal.maxLines = 47 := filled.maxLines.trans (by decide)
  have line : console.gTerminal.charY = 47 := UInt32.toNat.inj filled.line
  obtain ⟨white, run, terminal⟩ : ∃ white, TerminalRun paddedScreen.toFramebuffer white ∧
      white.gTerminal = { console.gTerminal with fgColor := 0xFFFFFF } :=
    ⟨_, filled.run.between false false 0xFFFFFF [], rfl⟩
  have column : white.gTerminal.charsPerLine.toNat = 171 :=
    (@TerminalRun.shown paddedScreen whiteFont (fun _ => 0) _ paddedScreen_sized run).page.charsPerLine.trans
      (by decide)
  obtain ⟨lettered, letter, cursor, _, maxLines, _⟩ := writechar_step white 'A'.toUInt8
  have within : ¬(white.gTerminal.charX + 1 > white.gTerminal.charsPerLine ∨
      'A'.toUInt8 = '\n'.toUInt8) := by
    rintro (ends | newline)
    · rw [gt_iff_lt, UInt32.lt_iff_toNat_lt, column, terminal, filled.column] at ends
      exact absurd ends (by decide)
    · exact absurd newline (by decide)
  rw [Terminal.advance, if_neg within, Prod.mk.injEq, terminal, line] at cursor
  obtain ⟨_, output⟩ := writechar_output letter
  rw [if_neg fun wraps => within wraps.1, List.append_nil, Terminal.glyph, if_pos (by decide),
    terminal, filled.column, line] at output
  have wraps : lettered.gTerminal.Wraps '\n'.toUInt8 := by
    refine ⟨.inr rfl, ?_⟩
    rw [maxLines, terminal, limit, cursor.2]
    decide
  obtain ⟨after, runs, _⟩ := writechar_step lettered '\n'.toUInt8
  refine ⟨rfl, by decide, by decide, lettered, after, run.writechar letter, wraps, runs,
    ⟨by decide, by decide⟩, ?_⟩
  have index : (translateToOffset paddedScreen.toFramebuffer 16 767).toNat = 1055408 := by decide
  have cleared : paddedScreen.clearedPixels = 1049088 := by decide
  rw [wraps_pixel rfl wraps runs, if_neg (by omega), newline_glyph, List.append_nil]
  rw [List.append_cons] at output
  have shown := @TerminalRun.shown paddedScreen whiteFont (fun _ => 0) _ paddedScreen_sized
    (run.writechar letter)
  obtain ⟨_, _, _, _, _, _, _, pixels⟩ := shown.shown _ _ _ _ _ _ output (by simp)
  have corner := pixels _ paddedScreen_corner
  exact corner

end OkeOS
