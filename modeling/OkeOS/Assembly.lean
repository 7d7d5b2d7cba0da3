import Mathlib.Algebra.Ring.Nat
import Mathlib.Data.List.Basic
import Mathlib.Logic.Relation

/-!
Assembly sources: lines that are laid out one after another, with labels and alignment, and a
machine that runs what was laid out.  How many bytes an instruction takes is a parameter.
-/

namespace Assembly

inductive Line (Label Instr : Type) where
  | align (bytes : Nat)
  | label (name : Label)
  | code (instr : Instr)

/-- What an instruction does: go on behind it, go to a label, or end the run. -/
inductive Effect (Label State : Type) where
  | next (state : State)
  | jump (target : Label) (state : State)
  | stop

/-- `effect` gets the offset behind the instruction. -/
structure Program (Label Instr State : Type) where
  lines : List (Line Label Instr)
  size : Instr → Nat
  effect : Nat → Instr → State → Effect Label State

def alignUp (bytes offset : Nat) : Nat := offset + (bytes - offset % bytes) % bytes

section

variable {Label Instr : Type} (size : Instr → Nat)

/-- Where the next line starts. -/
def Line.behind (offset : Nat) : Line Label Instr → Nat
  | .align bytes => alignUp bytes offset
  | .label _ => offset
  | .code instr => offset + size instr

def endOf (offset : Nat) (lines : List (Line Label Instr)) : Nat :=
  lines.foldl (Line.behind size) offset

/-- The instructions, each with its offset. -/
def placed : Nat → List (Line Label Instr) → List (Nat × Instr)
  | _, [] => []
  | offset, .code instr :: rest => (offset, instr) :: placed (offset + size instr) rest
  | offset, .align bytes :: rest => placed (alignUp bytes offset) rest
  | offset, .label _ :: rest => placed offset rest

def offsetOf [DecidableEq Label] (name : Label) : Nat → List (Line Label Instr) → Option Nat
  | _, [] => none
  | offset, .label other :: rest => if other = name then some offset else offsetOf name offset rest
  | offset, line :: rest => offsetOf name (line.behind size offset) rest

/-- The bytes of instructions without gaps. -/
def bytes (body : List Instr) : Nat := (body.map size).sum

/-- An aligned piece of code under a label. -/
def block (alignment : Nat) (name : Label) (body : List Instr) : List (Line Label Instr) :=
  .align alignment :: .label name :: body.map .code

def blocks (alignment : Nat) (name : Nat → Label) (body : Nat → List Instr) (count : Nat) :
    List (Line Label Instr) :=
  (List.range count).flatMap fun index => block alignment (name index) (body index)

end

namespace Program

variable {Label Instr State : Type} [DecidableEq Label] (program : Program Label Instr State)

def fetch (offset : Nat) : Option Instr :=
  ((placed program.size 0 program.lines).find? fun entry => entry.1 = offset).map Prod.snd

def step (before : Nat × State) : Option (Nat × State) :=
  (program.fetch before.1).bind fun instr =>
    match program.effect (before.1 + program.size instr) instr before.2 with
    | .next state => some (before.1 + program.size instr, state)
    | .jump target state =>
        (offsetOf program.size target 0 program.lines).map fun offset => (offset, state)
    | .stop => none

def Reaches : Nat × State → Nat × State → Prop :=
  Relation.ReflTransGen fun before after => program.step before = some after

end Program

/-! The layout. -/

section

variable {Label Instr : Type} {size : Instr → Nat}

theorem alignUp_dvd {alignment : Nat} (positive : 0 < alignment) (offset : Nat) :
    alignment ∣ alignUp alignment offset := by
  have small := Nat.mod_lt offset positive
  apply Nat.dvd_of_mod_eq_zero
  rw [alignUp, Nat.add_mod_mod, ← Nat.mod_add_mod,
    show offset % alignment + (alignment - offset % alignment) = alignment by omega, Nat.mod_self]

/-- Behind no more than one piece the next one starts at the next multiple. -/
theorem alignUp_next {alignment base length : Nat} (aligned : alignment ∣ base)
    (positive : 0 < length) (fits : length ≤ alignment) :
    alignUp alignment (base + length) = base + alignment := by
  obtain ⟨count, rfl⟩ := aligned
  rw [alignUp, Nat.mul_add_mod]
  rcases Nat.lt_or_eq_of_le fits with less | rfl
  · rw [Nat.mod_eq_of_lt less, Nat.mod_eq_of_lt (by omega)]
    omega
  · rw [Nat.mod_self, Nat.sub_zero, Nat.mod_self, Nat.add_zero]

theorem endOf_append (front back : List (Line Label Instr)) (offset : Nat) :
    endOf size offset (front ++ back) = endOf size (endOf size offset front) back :=
  List.foldl_append

theorem placed_append (front back : List (Line Label Instr)) (offset : Nat) :
    placed size offset (front ++ back) =
      placed size offset front ++ placed size (endOf size offset front) back := by
  induction front generalizing offset with
  | nil => rfl
  | cons line rest ih =>
      cases line with
      | align bytes => exact ih _
      | label name => exact ih _
      | code instr => exact congrArg ((offset, instr) :: ·) (ih _)

theorem endOf_instrs (body : List Instr) (offset : Nat) :
    endOf size offset (body.map .code : List (Line Label Instr)) = offset + bytes size body := by
  induction body generalizing offset with
  | nil => rfl
  | cons instr rest ih =>
      rw [List.map_cons, endOf, List.foldl_cons]
      refine (ih _).trans ?_
      rw [Line.behind, bytes, bytes, List.map_cons, List.sum_cons, Nat.add_assoc]

theorem endOf_block (alignment : Nat) (name : Label) (body : List Instr) (offset : Nat) :
    endOf size offset (block alignment name body) = alignUp alignment offset + bytes size body :=
  endOf_instrs body _

theorem placed_block (alignment : Nat) (name : Label) (body : List Instr) (offset : Nat) :
    placed size offset (block alignment name body) =
      placed size (alignUp alignment offset) (body.map .code : List (Line Label Instr)) := rfl

theorem placed_within {lines : List (Line Label Instr)} {offset : Nat} {entry : Nat × Instr}
    (member : entry ∈ placed size offset lines) : offset ≤ entry.1 := by
  induction lines generalizing offset with
  | nil => cases member
  | cons line rest ih =>
      cases line with
      | align bytes => exact Nat.le_trans (Nat.le_add_right _ _) (ih member)
      | label name => exact ih member
      | code instr =>
          rcases List.mem_cons.mp member with rfl | later
          · exact Nat.le_refl _
          · exact Nat.le_trans (Nat.le_add_right _ _) (ih later)

/-- The instructions lie one behind the other. -/
theorem placed_pairwise (positive : ∀ instr, 0 < size instr) (lines : List (Line Label Instr))
    (offset : Nat) : (placed size offset lines).Pairwise fun first second => first.1 < second.1 := by
  induction lines generalizing offset with
  | nil => exact List.Pairwise.nil
  | cons line rest ih =>
      cases line with
      | align bytes => exact ih _
      | label name => exact ih _
      | code instr =>
          refine List.Pairwise.cons ?_ (ih _)
          intro entry member
          have behind := placed_within member
          have some := positive instr
          change offset < entry.1
          omega

section

variable {alignment : Nat} {name : Nat → Label} {body : Nat → List Instr}

theorem blocks_succ (count : Nat) : blocks alignment name body (count + 1) =
    blocks alignment name body count ++ block alignment (name count) (body count) := by
  rw [blocks, List.range_succ, List.flatMap_append, List.flatMap_singleton]
  rfl

variable (positive : 0 < alignment)
  (fits : ∀ index, 0 < bytes size (body index) ∧ bytes size (body index) ≤ alignment)

include positive fits

/-- Blocks that fit into the alignment start at consecutive multiples of it. -/
theorem alignUp_endOf_blocks (count offset : Nat) :
    alignUp alignment (endOf size offset (blocks alignment name body count)) =
      alignUp alignment offset + alignment * count := by
  induction count with
  | zero => rfl
  | succ count ih =>
      have aligned : alignment ∣ alignUp alignment offset + alignment * count :=
        Nat.dvd_add (alignUp_dvd positive offset) (Nat.dvd_mul_right _ _)
      rw [blocks_succ, endOf_append, endOf_block, ih,
        alignUp_next aligned (fits count).1 (fits count).2, Nat.mul_succ, Nat.add_assoc]

theorem placed_blocks {index count : Nat} (less : index < count) (offset : Nat)
    {entry : Nat × Instr} (member : entry ∈ placed size
      (alignUp alignment offset + alignment * index)
      ((body index).map .code : List (Line Label Instr))) :
    entry ∈ placed size offset (blocks alignment name body count) := by
  induction count with
  | zero => exact absurd less (Nat.not_lt_zero _)
  | succ count ih =>
      rw [blocks_succ, placed_append]
      rcases Nat.lt_succ_iff_lt_or_eq.mp less with earlier | rfl
      · exact List.mem_append_left _ (ih earlier)
      · apply List.mem_append_right
        rw [placed_block, alignUp_endOf_blocks positive fits]
        exact member

end

section

variable [DecidableEq Label]

theorem offsetOf_append (wanted : Label) (front back : List (Line Label Instr)) (offset : Nat) :
    offsetOf size wanted offset (front ++ back) =
      (offsetOf size wanted offset front).or
        (offsetOf size wanted (endOf size offset front) back) := by
  induction front generalizing offset with
  | nil => rfl
  | cons line rest ih =>
      cases line with
      | align bytes => exact ih _
      | code instr => exact ih _
      | label other =>
          rw [List.cons_append, offsetOf, offsetOf]
          split
          · rfl
          · exact ih _

theorem offsetOf_block (alignment : Nat) (wanted : Label) (body : List Instr) (offset : Nat) :
    offsetOf size wanted offset (block alignment wanted body) = some (alignUp alignment offset) :=
  if_pos rfl

theorem offsetOf_blocks (alignment : Nat) (name : Nat → Label) (body : Nat → List Instr)
    (count offset : Nat) :
    offsetOf size (name 0) offset (blocks alignment name body (count + 1)) =
      some (alignUp alignment offset) := by
  induction count with
  | zero =>
      rw [blocks_succ]
      exact offsetOf_block alignment (name 0) (body 0) offset
  | succ count ih => rw [blocks_succ, offsetOf_append, ih, Option.some_or]

theorem offsetOf_unlabelled (wanted : Label) (body : List Instr) (offset : Nat) :
    offsetOf size wanted offset (body.map .code : List (Line Label Instr)) = none := by
  induction body generalizing offset with
  | nil => rfl
  | cons instr rest ih => exact ih _

end

end

/-! Runs. -/

theorem find?_sorted {α : Type} {entries : List (Nat × α)}
    (sorted : entries.Pairwise fun first second => first.1 < second.1) {entry : Nat × α}
    (member : entry ∈ entries) : entries.find? (fun other => other.1 = entry.1) = some entry := by
  induction sorted with
  | nil => cases member
  | cons first _ ih =>
      rcases List.mem_cons.mp member with rfl | later
      · simp
      · have less := first entry later
        rw [List.find?_cons_of_neg (by simpa using Nat.ne_of_lt less), ih later]

namespace Program

variable {Label Instr State : Type} {program : Program Label Instr State}

theorem fetch_placed (positive : ∀ instr, 0 < program.size instr) {entry : Nat × Instr}
    (member : entry ∈ placed program.size 0 program.lines) :
    program.fetch entry.1 = some entry.2 := by
  rw [fetch, find?_sorted (placed_pairwise positive program.lines 0) member]
  rfl

variable [DecidableEq Label]

theorem reaches_next {offset : Nat} {instr : Instr} {state after : State}
    (here : program.fetch offset = some instr)
    (effect : program.effect (offset + program.size instr) instr state = .next after) :
    program.Reaches (offset, state) (offset + program.size instr, after) := by
  apply Relation.ReflTransGen.single
  rw [step, here, Option.bind_some, effect]

theorem reaches_jump {offset destination : Nat} {instr : Instr} {state after : State}
    {target : Label} (here : program.fetch offset = some instr)
    (effect : program.effect (offset + program.size instr) instr state = .jump target after)
    (there : offsetOf program.size target 0 program.lines = some destination) :
    program.Reaches (offset, state) (destination, after) := by
  apply Relation.ReflTransGen.single
  simp only [step, here, Option.bind_some, effect, there, Option.map_some]

/-- Instructions that go on run one after another to the end of their bytes. -/
theorem reaches_straight (run : State → Instr → State) {body : List Instr} (state : State)
    (offset : Nat) (lies : ∀ entry ∈ placed program.size offset
      (body.map .code : List (Line Label Instr)), program.fetch entry.1 = some entry.2)
    (goesOn : ∀ instr ∈ body, ∀ behind state,
      program.effect behind instr state = .next (run state instr)) :
    program.Reaches (offset, state) (offset + bytes program.size body, body.foldl run state) := by
  induction body generalizing state offset with
  | nil => exact Relation.ReflTransGen.refl
  | cons instr rest ih =>
      have first := reaches_next (lies (offset, instr) List.mem_cons_self)
        (goesOn instr List.mem_cons_self _ state)
      have later := ih (run state instr) (offset + program.size instr)
        (fun entry member => lies entry (List.mem_cons_of_mem _ member))
        (fun other member => goesOn other (List.mem_cons_of_mem _ member))
      rw [bytes, List.map_cons, List.sum_cons, ← Nat.add_assoc]
      exact first.trans later

end Program

end Assembly
