import Mathlib.Tactic.Common

/-!
A page of text: cells with marks, and a cursor that goes through them line by line.  A page that is
full is turned: what comes next starts on an empty one.
-/

namespace TextPage

structure Size where
  lastColumn : Nat
  lastLine : Nat

/-- What is typed: a mark, a gap of one cell, or the end of the line. -/
inductive Key (α : Type) where
  | mark (glyph : α)
  | gap
  | newline

def Key.isNewline {α : Type} : Key α → Bool
  | .newline => true
  | _ => false

structure Page (α : Type) where
  column : Nat
  line : Nat
  cells : Nat → Nat → Option α
  turned : Bool

namespace Page

variable {α : Type}

def fresh (turned : Bool) : Page α :=
  { column := 0, line := 0, cells := fun _ _ => none, turned := turned }

def put (page : Page α) (glyph : α) : Page α :=
  { page with
    cells := fun column line =>
      if column = page.column ∧ line = page.line then some glyph else page.cells column line }

/-- What a key leaves in the cell at the cursor. -/
def mark (page : Page α) : Key α → Page α
  | .mark glyph => page.put glyph
  | _ => page

variable (size : Size)

def endLine (page : Page α) : Page α :=
  if page.line + 1 > size.lastLine then fresh true
  else { page with column := 0, line := page.line + 1 }

def forward (page : Page α) : Page α :=
  if page.column + 1 > size.lastColumn then page.endLine size
  else { page with column := page.column + 1 }

def type (page : Page α) : Key α → Page α
  | .mark glyph => (page.put glyph).forward size
  | .gap => page.forward size
  | .newline => page.endLine size

def typeAll (page : Page α) (keys : List (Key α)) : Page α := keys.foldl (type size) page

/-- The cell lies at the cursor or behind it. -/
def Ahead (page : Page α) (column line : Nat) : Prop :=
  page.line < line ∨ page.line = line ∧ page.column ≤ column

/-- The cursor is on the page, and no mark is ahead of it. -/
structure Good (page : Page α) : Prop where
  column : page.column ≤ size.lastColumn
  line : page.line ≤ size.lastLine
  empty : ∀ column line, page.Ahead column line → page.cells column line = none

/-- The key takes the cursor past the last cell of the page. -/
def Turns (page : Page α) (key : Key α) : Prop :=
  (page.column + 1 > size.lastColumn ∨ key.isNewline = true) ∧ page.line + 1 > size.lastLine

variable {size} {page : Page α}

theorem fresh_good (turned : Bool) : (fresh turned : Page α).Good size where
  column := Nat.zero_le _
  line := Nat.zero_le _
  empty := fun _ _ _ => rfl

theorem put_same (glyph : α) : (page.put glyph).cells page.column page.line = some glyph :=
  if_pos ⟨rfl, rfl⟩

theorem put_other (glyph : α) {column line : Nat}
    (other : ¬(column = page.column ∧ line = page.line)) :
    (page.put glyph).cells column line = page.cells column line :=
  if_neg other

/-- At the end of a line only the lines below matter. -/
theorem endLine_good (empty : ∀ column line, page.line < line → page.cells column line = none) :
    (page.endLine size).Good size := by
  rw [endLine]
  split
  · exact fresh_good true
  · rename_i below
    refine ⟨Nat.zero_le _, Nat.le_of_not_lt below, fun column line ahead => empty column line ?_⟩
    rcases ahead with behind | ⟨same, _⟩
    · exact Nat.lt_of_succ_lt behind
    · exact Nat.lt_of_succ_le (Nat.le_of_eq same)

/-- Going on from a cell, only those behind it matter. -/
theorem forward_good (onPage : page.line ≤ size.lastLine)
    (empty : ∀ column line, page.line < line ∨ page.line = line ∧ page.column < column →
      page.cells column line = none) : (page.forward size).Good size := by
  rw [forward]
  split
  · exact endLine_good fun column line below => empty column line (.inl below)
  · rename_i within
    refine ⟨Nat.le_of_not_lt within, onPage, fun column line ahead => empty column line ?_⟩
    rcases ahead with below | ⟨same, right⟩
    · exact .inl below
    · exact .inr ⟨same, right⟩

theorem Good.type (good : page.Good size) (key : Key α) : (page.type size key).Good size := by
  cases key with
  | mark glyph =>
      refine forward_good good.line fun column line behind => ?_
      rw [put_other]
      · exact good.empty column line (behind.imp id fun right => ⟨right.1, Nat.le_of_lt right.2⟩)
      · rintro ⟨rfl, rfl⟩
        rcases behind with below | ⟨_, right⟩
        · exact absurd below (Nat.lt_irrefl _)
        · exact absurd right (Nat.lt_irrefl _)
  | gap =>
      exact forward_good good.line fun column line behind => good.empty column line
        (behind.imp id fun right => ⟨right.1, Nat.le_of_lt right.2⟩)
  | newline => exact endLine_good fun column line below => good.empty column line (.inl below)

theorem Good.typeAll (good : page.Good size) (keys : List (Key α)) :
    (page.typeAll size keys).Good size := by
  induction keys generalizing page with
  | nil => exact good
  | cons key rest ih => exact ih (good.type key)

/-- The cells after a key that does not turn the page. -/
theorem type_cells {key : Key α} (stays : ¬page.Turns size key) :
    (page.type size key).turned = page.turned ∧
      (page.type size key).cells = (page.mark key).cells := by
  have endLine_stays {other : Page α} (below : ¬other.line + 1 > size.lastLine) :
      (other.endLine size).turned = other.turned ∧ (other.endLine size).cells = other.cells := by
    rw [endLine, if_neg below]
    exact ⟨rfl, rfl⟩
  have forward_stays {other : Page α}
      (within : ¬(other.column + 1 > size.lastColumn ∧ other.line + 1 > size.lastLine)) :
      (other.forward size).turned = other.turned ∧ (other.forward size).cells = other.cells := by
    rw [forward]
    split
    · rename_i ends
      exact endLine_stays fun last => within ⟨ends, last⟩
    · exact ⟨rfl, rfl⟩
  cases key with
  | mark glyph => exact forward_stays fun ends => stays ⟨.inl ends.1, ends.2⟩
  | gap => exact forward_stays fun ends => stays ⟨.inl ends.1, ends.2⟩
  | newline => exact endLine_stays fun last => stays ⟨.inr rfl, last⟩

theorem type_turns {key : Key α} (turns : page.Turns size key) :
    page.type size key = fresh true := by
  obtain ⟨ends, last⟩ := turns
  have forward_turns {other : Page α} (full : other.column + 1 > size.lastColumn)
      (last : other.line + 1 > size.lastLine) : other.forward size = fresh true := by
    rw [forward, if_pos full]
    exact if_pos last
  cases key with
  | mark glyph => exact forward_turns (ends.resolve_right (by simp [Key.isNewline])) last
  | gap => exact forward_turns (ends.resolve_right (by simp [Key.isNewline])) last
  | newline => exact if_pos last

/-- Where the cursor goes. -/
theorem type_cursor (size : Size) (page : Page α) (key : Key α) :
    ((page.type size key).column, (page.type size key).line) =
      if page.column + 1 > size.lastColumn ∨ key.isNewline then
        if page.line + 1 > size.lastLine then (0, 0) else (0, page.line + 1)
      else (page.column + 1, page.line) := by
  have endLine_cursor (other : Page α) : ((other.endLine size).column, (other.endLine size).line) =
      if other.line + 1 > size.lastLine then (0, 0) else (0, other.line + 1) := by
    rw [endLine]
    split
    · rfl
    · rfl
  have forward_cursor (other : Page α) : ((other.forward size).column, (other.forward size).line) =
      if other.column + 1 > size.lastColumn then
        if other.line + 1 > size.lastLine then (0, 0) else (0, other.line + 1)
      else (other.column + 1, other.line) := by
    rw [forward]
    split
    · exact endLine_cursor other
    · rfl
  cases key with
  | mark glyph =>
      simp only [Key.isNewline, Bool.false_eq_true, or_false]
      exact forward_cursor (page.put glyph)
  | gap =>
      simp only [Key.isNewline, Bool.false_eq_true, or_false]
      exact forward_cursor page
  | newline =>
      simp only [Key.isNewline, or_true, if_true]
      exact endLine_cursor page

end Page

end TextPage
