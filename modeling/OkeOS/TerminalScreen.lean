import OkeOS.TerminalPixels

/-!
What stays on the screen.  The columns of a glyph lie nine to sixteen pixels right of its cell,
so the cells of a line share one window of a row's length, and no two glyphs share a pixel.
-/

namespace OkeOS

open ByteMemory

section Cells

variable {gFramebuffer : Framebuffer} {charX charY charX' charY' : UInt32}

theorem row_column_unique {row column row' column' stride : Nat} (inside : column < stride)
    (inside' : column' < stride) (same : row * stride + column = row' * stride + column') :
    row = row' ∧ column = column' := by
  have rows (r c : Nat) (bound : c < stride) : (r * stride + c) / stride = r := by
    rw [Nat.add_comm, Nat.add_mul_div_right _ _ (by omega), Nat.div_eq_of_lt bound, Nat.zero_add]
  have rowEq := rows row column inside
  rw [same, rows row' column' inside'] at rowEq
  subst rowEq
  exact ⟨rfl, by omega⟩

theorem Framebuffer.Sized.cell_unique (sized : gFramebuffer.Sized)
    (column : charX.toNat ≤ gFramebuffer.lastColumn) (line : charY.toNat ≤ gFramebuffer.lastLine)
    (column' : charX'.toNat ≤ gFramebuffer.lastColumn)
    (line' : charY'.toNat ≤ gFramebuffer.lastLine) {cx cy cx' cy' : Nat} (cxBound : cx < 8)
    (cyBound : cy < 16) (cxBound' : cx' < 8) (cyBound' : cy' < 16)
    (same : translateToOffset gFramebuffer (charX * 8 + 16 - UInt32.ofNat cx)
        (charY * 16 + UInt32.ofNat cy) =
      translateToOffset gFramebuffer (charX' * 8 + 16 - UInt32.ofNat cx')
        (charY' * 16 + UInt32.ofNat cy')) :
    charX = charX' ∧ charY = charY' ∧ cx = cx' ∧ cy = cy' := by
  have pitch := sized.pitch
  have narrow : gFramebuffer.lastColumn ≤ gFramebuffer.pitch.toNat / 4 / 8 - 1 :=
    Nat.min_le_left _ _
  have sameIndex := congrArg UInt32.toNat same
  rw [sized.cell_index column line cx cy cxBound cyBound,
    sized.cell_index column' line' cx' cy' cxBound' cyBound'] at sameIndex
  obtain ⟨rowEq, columnEq⟩ := @row_column_unique (16 * charY.toNat + cy) (8 * charX.toNat + 7 - cx)
    (16 * charY'.toNat + cy') (8 * charX'.toNat + 7 - cx') (gFramebuffer.pitch.toNat / 4)
    (by omega) (by omega) (by omega)
  refine ⟨UInt32.toNat.inj ?_, UInt32.toNat.inj ?_, ?_, ?_⟩ <;> omega

theorem drawRows_indices (gFramebuffer : Framebuffer) (x y fgColor bgColor : UInt32)
    (glyph : List UInt8) (first : Nat) :
    (drawRows gFramebuffer x y fgColor bgColor glyph first).map Prod.fst =
      (List.range' first glyph.length).flatMap fun cy => (List.range 8).map fun cx =>
        translateToOffset gFramebuffer (x + 16 - UInt32.ofNat cx) (y + UInt32.ofNat cy) := by
  induction glyph generalizing first with
  | nil => rfl
  | cons v glyph ih =>
      rw [drawRows, List.map_append, ih, List.length_cons, List.range'_succ, List.flatMap_cons,
        drawRow, List.map_map]
      rfl

theorem drawCharBg_length {font : List UInt8} {c : UInt8} (x y fgColor bgColor : UInt32)
    (hasGlyph : (c.toNat + 1) * 16 ≤ font.length) :
    (drawCharBg gFramebuffer font c x y fgColor bgColor).length = 128 := by
  have rows : ((font.drop (c.toNat * 16)).take 16).length = 16 := by
    rw [List.length_take, List.length_drop]
    omega
  rw [← List.length_map Prod.fst, drawCharBg, drawRows_indices, rows]
  simp

theorem Framebuffer.Sized.drawCharBg_nodup (sized : gFramebuffer.Sized)
    (column : charX.toNat ≤ gFramebuffer.lastColumn) (line : charY.toNat ≤ gFramebuffer.lastLine)
    (font : List UInt8) (c : UInt8) (fgColor bgColor : UInt32) :
    ((drawCharBg gFramebuffer font c (charX * 8) (charY * 16) fgColor bgColor).map
      Prod.fst).Nodup := by
  have short : ((font.drop (c.toNat * 16)).take 16).length ≤ 16 := by
    rw [List.length_take]
    exact Nat.min_le_left _ _
  rw [drawCharBg, drawRows_indices, List.nodup_flatMap]
  constructor
  · intro cy inGlyph
    rw [List.mem_range'_1] at inGlyph
    refine List.Nodup.map_on ?_ List.nodup_range
    intro cx cxBound cx' cxBound' same
    exact (sized.cell_unique column line column line (List.mem_range.mp cxBound) (by omega)
      (List.mem_range.mp cxBound') (by omega) same).2.2.1
  · refine List.Pairwise.imp_of_mem ?_ List.nodup_range'
    intro cy cy' inGlyph inGlyph' different index inRow inRow'
    obtain ⟨cx, cxBound, rfl⟩ := List.mem_map.mp inRow
    obtain ⟨cx', cxBound', same⟩ := List.mem_map.mp inRow'
    rw [List.mem_range'_1] at inGlyph inGlyph'
    exact different (sized.cell_unique column line column line (List.mem_range.mp cxBound)
      (by omega) (List.mem_range.mp cxBound') (by omega) same.symm).2.2.2

/-- Glyphs in different cells have no pixel in common. -/
theorem Framebuffer.Sized.cells_disjoint (sized : gFramebuffer.Sized)
    (column : charX.toNat ≤ gFramebuffer.lastColumn) (line : charY.toNat ≤ gFramebuffer.lastLine)
    (column' : charX'.toNat ≤ gFramebuffer.lastColumn)
    (line' : charY'.toNat ≤ gFramebuffer.lastLine) (different : (charX, charY) ≠ (charX', charY'))
    (font : List UInt8) (c c' : UInt8) (fgColor bgColor fgColor' bgColor' : UInt32) :
    ∀ point ∈ drawCharBg gFramebuffer font c (charX * 8) (charY * 16) fgColor bgColor,
      ∀ other ∈ drawCharBg gFramebuffer font c' (charX' * 8) (charY' * 16) fgColor' bgColor',
        point.1 ≠ other.1 := by
  rintro ⟨index, color⟩ drawn ⟨other, color'⟩ drawn' same
  obtain ⟨cx, cxBound, cy, cyBound, rfl⟩ := drawCharBg_index drawn
  obtain ⟨cx', cxBound', cy', cyBound', rfl⟩ := drawCharBg_index drawn'
  obtain ⟨sameX, sameY, _, _⟩ :=
    sized.cell_unique column line column' line' cxBound cyBound cxBound' cyBound' same
  exact different (Prod.ext sameX sameY)

end Cells

namespace LimineFramebuffer

variable {gFramebuffer : LimineFramebuffer} {mem : Memory}

theorem pixel_putPoint (index color other : UInt32) :
    gFramebuffer.pixel (gFramebuffer.putPoint mem (index, color)) other =
      if other = index then color else gFramebuffer.pixel mem other := by
  simp only [pixel, putPoint]
  by_cases same : other = index
  · subst same
    have bound : color.toNat % 256 ^ 4 = color.toNat := Nat.mod_eq_of_lt color.toNat_lt
    rw [if_pos rfl, load_store_same, bound, UInt32.ofNat_toNat]
  · have apart : other.toNat ≠ index.toNat := fun equal => same (UInt32.toNat.inj equal)
    rw [if_neg same, load_store_apart _ _ _ _ _ _ (by omega)]

theorem pixel_drawn_other {points : List (UInt32 × UInt32)} {index : UInt32}
    (absent : ∀ point ∈ points, index ≠ point.1) :
    gFramebuffer.pixel (points.foldl gFramebuffer.putPoint mem) index =
      gFramebuffer.pixel mem index := by
  induction points generalizing mem with
  | nil => rfl
  | cons point rest ih =>
      rw [List.foldl_cons, ih fun other member => absent other (by simp [member]), pixel_putPoint,
        if_neg (absent point (by simp))]

theorem pixel_drawn {points : List (UInt32 × UInt32)} (distinct : (points.map Prod.fst).Nodup)
    {index color : UInt32} (member : (index, color) ∈ points) :
    gFramebuffer.pixel (points.foldl gFramebuffer.putPoint mem) index = color := by
  induction points generalizing mem with
  | nil => simp at member
  | cons point rest ih =>
      rw [List.map_cons, List.nodup_cons] at distinct
      rw [List.foldl_cons]
      rcases List.mem_cons.mp member with rfl | later
      · have absent : ∀ other ∈ rest, index ≠ other.1 := by
          intro other inRest same
          exact distinct.1 (List.mem_map.mpr ⟨other, inRest, same.symm⟩)
        rw [pixel_drawn_other absent, pixel_putPoint, if_pos rfl]
      · exact ih distinct.2 later

/-- The clearing sets the bytes below its size to zero. -/
theorem pixel_clear (index : UInt32) (aligned : gFramebuffer.clearSize.toNat % 4 = 0) :
    gFramebuffer.pixel (gFramebuffer.clear mem) index =
      if 4 * index.toNat < gFramebuffer.clearSize.toNat then 0 else gFramebuffer.pixel mem index := by
  simp only [pixel, clear]
  split
  · rename_i inside
    rw [load_zero]
    · rfl
    · intro address lower upper
      rw [memset_apply, if_pos (by omega)]
      rfl
  · rename_i outside
    congr 1
    apply load_congr
    intro address lower upper
    exact memset_outside _ (by omega)

theorem screen_append (font : List UInt8) (first second : List Event) :
    gFramebuffer.screen font mem (first ++ second) =
      gFramebuffer.screen font (gFramebuffer.screen font mem first) second :=
  List.foldl_append

end LimineFramebuffer

/-! What a character adds to the output. -/

/-- `writechar` moves the cursor past the last line. -/
def Terminal.Wraps (this : Terminal) (c : UInt8) : Prop :=
  (this.charX + 1 > this.charsPerLine ∨ c = '\n'.toUInt8) ∧ this.charY + 1 > this.maxLines

instance (this : Terminal) (c : UInt8) : Decidable (this.Wraps c) :=
  inferInstanceAs (Decidable (_ ∧ _))

/-- The glyph that is drawn for `c`. -/
def Terminal.glyph (this : Terminal) (c : UInt8) : List Event :=
  if 31 < c.toNat ∧ c.toNat < 128 then
    [.drawChar c (this.charX * 8) (this.charY * 16) this.fgColor]
  else []

theorem showChar_output (console : Console) (c : UInt8) :
    (showChar console c).output = console.output ++
      .terminal c console.gTerminal.fgColor :: console.gTerminal.glyph c := by
  simp only [showChar, Terminal.glyph]
  split <;> simp [Console.send]

theorem writechar_output {console after : Console} {c : UInt8}
    (runs : writechar console c = .ok after) :
    ∃ notice, after.output = console.output ++
      .terminal c console.gTerminal.fgColor :: (console.gTerminal.glyph c ++
        if console.gTerminal.Wraps c then [.pageWrap notice] else []) := by
  have same : (showChar console c).gTerminal = console.gTerminal := (showChar_shown console c).2.2.1
  have shown := showChar_output console c
  simp only [writechar, same] at runs
  split at runs
  · rename_i ends
    split at runs
    · rename_i last
      obtain ⟨⟨args, cleared⟩, _, result⟩ := Fault.peel runs
      simp only [Except.ok.injEq] at result
      subst result
      exact ⟨serialLine cleared.output, by simp [shown, Terminal.Wraps, ends, last]⟩
    · rename_i within
      simp only [Except.ok.injEq] at runs
      subst runs
      exact ⟨[], by simp [shown, Terminal.Wraps, within]⟩
  · rename_i within
    simp only [Except.ok.injEq] at runs
    subst runs
    exact ⟨[], by simp [shown, Terminal.Wraps, within]⟩

/-- The states of the console after `Terminal::init`.  Between two characters the escapes may
change the colour, and other prints may go to serial. -/
inductive TerminalRun (gFramebuffer : Framebuffer) : Console → Prop
  | start (anything color : Bool) (fgColor : UInt32) :
      TerminalRun gFramebuffer (startConsole gFramebuffer anything color fgColor)
  | writechar {console after : Console} {c : UInt8} : TerminalRun gFramebuffer console →
      OkeOS.writechar console c = .ok after → TerminalRun gFramebuffer after
  | between {console : Console} (anything color : Bool) (fgColor : UInt32) (line : List UInt8) :
      TerminalRun gFramebuffer console → TerminalRun gFramebuffer
        { currentlyReadingAnything := anything
          currentlyReadingColor := color
          gTerminal := { console.gTerminal with fgColor := fgColor }
          output := console.output ++ line.map .serial }

theorem split_append {α : Type} {output extra earlier later : List α} {event : α}
    (split : output ++ extra = earlier ++ event :: later) :
    (∃ between, output = earlier ++ event :: between ∧ later = between ++ extra) ∨
      ∃ front, extra = front ++ event :: later := by
  rcases List.append_eq_append_iff.mp split with ⟨front, _, extraEq⟩ | ⟨rest, outputEq, restEq⟩
  · exact .inr ⟨front, extraEq⟩
  · cases rest with
    | nil => exact .inr ⟨[], restEq.symm⟩
    | cons head between =>
        obtain ⟨rfl, laterEq⟩ := List.cons.inj restEq
        exact .inl ⟨between, outputEq, laterEq⟩

/-- The order in which the cells of a page are filled. -/
def CellBefore (first second : UInt32 × UInt32) : Prop :=
  first.2.toNat < second.2.toNat ∨ first.2 = second.2 ∧ first.1.toNat < second.1.toNat

theorem CellBefore.trans {first second third : UInt32 × UInt32} (left : CellBefore first second)
    (right : CellBefore second third) : CellBefore first third := by
  rcases left with above | ⟨sameLine, left⟩
  · rcases right with above' | ⟨sameLine', _⟩
    · exact .inl (by omega)
    · exact .inl (sameLine' ▸ above)
  · rcases right with above' | ⟨sameLine', right⟩
    · exact .inl (sameLine ▸ above')
    · exact .inr ⟨sameLine.trans sameLine', by omega⟩

theorem CellBefore.ne {first second : UInt32 × UInt32} (before : CellBefore first second) :
    first ≠ second := by
  rintro rfl
  rcases before with above | ⟨_, left⟩ <;> omega

def Terminal.cursor (this : Terminal) : UInt32 × UInt32 := (this.charX, this.charY)

section Run

variable {gFramebuffer : LimineFramebuffer} {font : List UInt8} {mem : Memory} {console : Console}

/-- As long as the page is not full the cursor goes on. -/
theorem OnPage.advance_later {gFramebuffer : Framebuffer} (page : OnPage gFramebuffer console)
    {c : UInt8} (within : ¬console.gTerminal.Wraps c) :
    CellBefore console.gTerminal.cursor (console.gTerminal.advance c) := by
  have columnEq := succ_toNat (page.column.trans Framebuffer.lastColumn_le)
  have lineEq := succ_toNat (page.line.trans (Framebuffer.lastLine_le.trans (by decide)))
  rw [Terminal.advance]
  by_cases ends : console.gTerminal.charX + 1 > console.gTerminal.charsPerLine ∨ c = '\n'.toUInt8
  · rw [if_pos ends, if_neg fun last => within ⟨ends, last⟩]
    refine .inl ?_
    show console.gTerminal.charY.toNat < (console.gTerminal.charY + 1).toNat
    omega
  · rw [if_neg ends]
    refine .inr ⟨rfl, ?_⟩
    show console.gTerminal.charX.toNat < (console.gTerminal.charX + 1).toNat
    omega

/-- The invariant of a run: the glyphs of the present page lie before the cursor, and the screen
shows them. -/
structure PageShown (gFramebuffer : LimineFramebuffer) (font : List UInt8) (mem : Memory)
    (console : Console) : Prop where
  page : OnPage gFramebuffer.toFramebuffer console
  shown : ∀ earlier c x y fgColor later,
    console.output = earlier ++ .drawChar c x y fgColor :: later →
    (∀ notice, Event.pageWrap notice ∉ later) →
    ∃ charX charY : UInt32, x = charX * 8 ∧ y = charY * 16 ∧
      charX.toNat ≤ gFramebuffer.lastColumn ∧ charY.toNat ≤ gFramebuffer.lastLine ∧
      CellBefore (charX, charY) console.gTerminal.cursor ∧
      ∀ point ∈ drawChar gFramebuffer.toFramebuffer font c x y fgColor,
        gFramebuffer.pixel (gFramebuffer.screen font mem console.output) point.1 = point.2

theorem startConsole_shown (sized : gFramebuffer.toFramebuffer.Sized) (anything color : Bool)
    (fgColor : UInt32) : PageShown gFramebuffer font mem
      (startConsole gFramebuffer.toFramebuffer anything color fgColor) where
  page := startConsole_onPage sized anything color fgColor
  shown := by
    intro earlier c x y fgColor later split
    simp [startConsole] at split

theorem screen_serial (output : List Event) (line : List UInt8) :
    gFramebuffer.screen font mem (output ++ line.map .serial) =
      gFramebuffer.screen font mem output := by
  rw [LimineFramebuffer.screen_append]
  generalize gFramebuffer.screen font mem output = shown
  induction line with
  | nil => rfl
  | cons c line ih => exact ih

theorem PageShown.between (shown : PageShown gFramebuffer font mem console)
    (anything color : Bool) (fgColor : UInt32) (line : List UInt8) :
    PageShown gFramebuffer font mem
      { currentlyReadingAnything := anything
        currentlyReadingColor := color
        gTerminal := { console.gTerminal with fgColor := fgColor }
        output := console.output ++ line.map .serial } where
  page :=
    { charsPerLine := shown.page.charsPerLine
      maxLines := shown.page.maxLines
      column := shown.page.column
      line := shown.page.line
      drawn := by
        intro c x y fgColor event
        rcases List.mem_append.mp event with before | serial
        · exact shown.page.drawn c x y fgColor before
        · simp at serial }
  shown := by
    intro earlier c x y color' later split untouched
    rcases split_append split with ⟨between, outputEq, rfl⟩ | ⟨front, serial⟩
    · rw [screen_serial]
      exact shown.shown earlier c x y color' between outputEq
        fun notice member => untouched notice (by simp [member])
    · have member : Event.drawChar c x y color' ∈ line.map Event.serial := by simp [serial]
      simp at member

/-- A character that ends the page is followed by the clearing. -/
theorem writechar_unwrapped {earlier later : List Event} {after : Console} {c d : UInt8}
    {x y fgColor : UInt32} (runs : writechar console c = .ok after)
    (split : after.output = earlier ++ .drawChar d x y fgColor :: later)
    (untouched : ∀ notice, Event.pageWrap notice ∉ later) :
    ¬console.gTerminal.Wraps c ∧ after.output = console.output ++
      .terminal c console.gTerminal.fgColor :: console.gTerminal.glyph c := by
  obtain ⟨notice, output⟩ := writechar_output runs
  by_cases wraps : console.gTerminal.Wraps c
  · exfalso
    rw [if_pos wraps, ← List.cons_append, ← List.append_assoc] at output
    rcases List.eq_nil_or_concat later with rfl | ⟨front, last, rfl⟩
    · have ends := List.append_inj_right' (output.symm.trans split) rfl
      simp at ends
    · rw [List.concat_eq_append, ← List.cons_append, ← List.append_assoc] at split
      have ends := List.append_inj_right' (output.symm.trans split) rfl
      rw [List.singleton_inj] at ends
      exact untouched notice (by simp [← ends])
  · rw [if_neg wraps, List.append_nil] at output
    exact ⟨wraps, output⟩

theorem PageShown.writechar (sized : gFramebuffer.toFramebuffer.Sized)
    (shown : PageShown gFramebuffer font mem console) {c : UInt8} {after : Console}
    (runs : OkeOS.writechar console c = .ok after) : PageShown gFramebuffer font mem after := by
  obtain ⟨after', runs', page⟩ := shown.page.writechar c
  cases runs.symm.trans runs'
  refine ⟨page, ?_⟩
  intro earlier d x y fgColor later split untouched
  obtain ⟨within, output⟩ := writechar_unwrapped runs split untouched
  obtain ⟨after', runs', cursor, _⟩ := writechar_step console c
  cases runs.symm.trans runs'
  have forward : CellBefore console.gTerminal.cursor after.gTerminal.cursor := by
    rw [show after.gTerminal.cursor = console.gTerminal.advance c from cursor]
    exact shown.page.advance_later within
  rw [output, LimineFramebuffer.screen_append]
  rw [output] at split
  rcases split_append split with ⟨between, outputEq, laterEq⟩ | ⟨front, glyphEq⟩
  · obtain ⟨charX, charY, xEq, yEq, column, line, before, pixels⟩ :=
      shown.shown earlier d x y fgColor between outputEq
        fun notice member => untouched notice (by simp [laterEq, member])
    refine ⟨charX, charY, xEq, yEq, column, line, before.trans forward, ?_⟩
    intro point drawn
    rw [← pixels point drawn, Terminal.glyph]
    split
    · refine LimineFramebuffer.pixel_drawn_other ?_
      rw [xEq, yEq] at drawn
      exact sized.cells_disjoint column line shown.page.column shown.page.line before.ne font d c
        fgColor 0 console.gTerminal.fgColor 0 point drawn
    · rfl
  · have member : Event.drawChar d x y fgColor ∈
        .terminal c console.gTerminal.fgColor :: console.gTerminal.glyph c := by simp [glyphEq]
    rw [Terminal.glyph] at member ⊢
    split at member
    · rename_i visible
      simp only [List.mem_cons, reduceCtorEq, Event.drawChar.injEq, List.not_mem_nil, or_false,
        false_or] at member
      obtain ⟨rfl, rfl, rfl, rfl⟩ := member
      refine ⟨console.gTerminal.charX, console.gTerminal.charY, rfl, rfl, shown.page.column,
        shown.page.line, forward, ?_⟩
      rintro ⟨index, color⟩ drawn
      rw [if_pos visible]
      exact LimineFramebuffer.pixel_drawn
        (sized.drawCharBg_nodup shown.page.column shown.page.line font d _ 0) drawn
    · simp at member

theorem TerminalRun.shown (sized : gFramebuffer.toFramebuffer.Sized)
    (run : TerminalRun gFramebuffer.toFramebuffer console) :
    PageShown gFramebuffer font mem console := by
  induction run with
  | start anything color fgColor => exact startConsole_shown sized anything color fgColor
  | writechar _ runs ih => exact ih.writechar sized runs
  | between anything color fgColor line _ ih => exact ih.between anything color fgColor line

theorem TerminalRun.writechars {gFramebuffer : Framebuffer} (run : TerminalRun gFramebuffer console)
    (text : List UInt8) : ∃ final, OkeOS.writechars text console = .ok final ∧
      TerminalRun gFramebuffer final := by
  induction text generalizing console with
  | nil => exact ⟨console, rfl, run⟩
  | cons c text ih =>
      obtain ⟨after, runs, _⟩ := writechar_step console c
      obtain ⟨final, rest, last⟩ := ih (run.writechar runs)
      refine ⟨final, ?_, last⟩
      rw [OkeOS.writechars, List.foldlM_cons, runs]
      exact rest

end Run

/-- The glyphs of two cells have no pixel in common, and a glyph of the present page stays on the
screen whatever is written. -/
theorem cells_intact {gFramebuffer : LimineFramebuffer} (sized : gFramebuffer.toFramebuffer.Sized)
    (font : List UInt8) :
    (∀ (this : Terminal) (charX charY charX' charY' : UInt32),
      charX ≤ (this.init gFramebuffer.toFramebuffer).charsPerLine →
      charY ≤ (this.init gFramebuffer.toFramebuffer).maxLines →
      charX' ≤ (this.init gFramebuffer.toFramebuffer).charsPerLine →
      charY' ≤ (this.init gFramebuffer.toFramebuffer).maxLines →
      (charX, charY) ≠ (charX', charY') →
      ∀ c c' fgColor bgColor fgColor' bgColor',
        ((c.toNat + 1) * 16 ≤ font.length →
          ((drawCharBg gFramebuffer.toFramebuffer font c (charX * 8) (charY * 16) fgColor
            bgColor).map Prod.fst).Nodup ∧
          (drawCharBg gFramebuffer.toFramebuffer font c (charX * 8) (charY * 16) fgColor
            bgColor).length = 128) ∧
        ∀ point ∈ drawCharBg gFramebuffer.toFramebuffer font c (charX * 8) (charY * 16) fgColor
            bgColor,
          ∀ other ∈ drawCharBg gFramebuffer.toFramebuffer font c' (charX' * 8) (charY' * 16)
              fgColor' bgColor', point.1 ≠ other.1) ∧
    ∀ (mem : Memory) (console : Console), TerminalRun gFramebuffer.toFramebuffer console →
      ∀ text, ∃ final, writechars text console = .ok final ∧
        ∀ earlier c x y fgColor later,
          final.output = earlier ++ .drawChar c x y fgColor :: later →
          (∀ notice, Event.pageWrap notice ∉ later) →
          ∀ point ∈ drawChar gFramebuffer.toFramebuffer font c x y fgColor,
            gFramebuffer.pixel (gFramebuffer.screen font mem final.output) point.1 = point.2 := by
  constructor
  · intro this charX charY charX' charY' column line column' line' different c c' fgColor bgColor
      fgColor' bgColor'
    rw [UInt32.le_iff_toNat_le, sized.init_charsPerLine] at column column'
    rw [UInt32.le_iff_toNat_le, sized.init_maxLines] at line line'
    refine ⟨fun hasGlyph => ⟨?_, drawCharBg_length _ _ _ _ hasGlyph⟩, ?_⟩
    · exact sized.drawCharBg_nodup column line font c fgColor bgColor
    · exact sized.cells_disjoint column line column' line' different font c c' fgColor bgColor
        fgColor' bgColor'
  · intro mem console run text
    obtain ⟨final, runs, last⟩ := run.writechars text
    refine ⟨final, runs, ?_⟩
    intro earlier c x y fgColor later split untouched
    obtain ⟨_, _, _, _, _, _, _, pixels⟩ :=
      (last.shown sized).shown earlier c x y fgColor later split untouched
    exact pixels

/-- Two letters on a screen of 32 by 32 pixels. -/
theorem cells_intact_twoLetters :
    let gFramebuffer : LimineFramebuffer :=
      { height := 32, pitch := 128, address := 0, width := 32, bpp := 32 }
    ∃ final, writechars (text "AB") (startConsole gFramebuffer.toFramebuffer false false 0xFFFFFF) =
        .ok final ∧
      ∀ earlier c x y fgColor later,
        final.output = earlier ++ .drawChar c x y fgColor :: later →
        (∀ notice, Event.pageWrap notice ∉ later) →
        ∀ point ∈ drawChar gFramebuffer.toFramebuffer (List.replicate 2048 0) c x y fgColor,
          gFramebuffer.pixel (gFramebuffer.screen (List.replicate 2048 0) (fun _ => 0)
            final.output) point.1 = point.2 :=
  (@cells_intact { height := 32, pitch := 128, address := 0, width := 32, bpp := 32 }
    ⟨by decide, by decide, by decide⟩ (List.replicate 2048 0)).2 (fun _ => 0) _
      (.start false false 0xFFFFFF) (text "AB")

end OkeOS
