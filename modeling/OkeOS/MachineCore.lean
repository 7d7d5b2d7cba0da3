import OkeOS.ByteMemory

/-!
What every part of the kernel model shares: the ways a call can fail to return,
64-bit arithmetic, and the memory functions of `lib/mem.cpp`.
-/

namespace OkeOS

open ByteMemory

/-- A call that does not return halts in `panic`, loops, reads an argument that was not passed,
or faults at an address that is not mapped. -/
inductive Fault where
  | panic (msg : String)
  | outOfFuel
  | missingArgument
  | unmapped (address : Nat)
deriving DecidableEq, Repr

theorem Fault.peel {α β : Type} {call : Except Fault α} {next : α → Except Fault β} {result : β}
    (run : (do let value ← call; next value) = .ok result) :
    ∃ value, call = .ok value ∧ next value = .ok result := by
  rcases call with fault | value
  · exact absurd run (by simp [Bind.bind, Except.bind])
  · exact ⟨value, rfl, run⟩

theorem Fault.peel_error {α β : Type} {call : Except Fault α} {next : α → Except Fault β}
    {fault : Fault} (run : (do let value ← call; next value) = .error fault) :
    call = .error fault ∨ ∃ value, call = .ok value ∧ next value = .error fault := by
  rcases call with other | value
  · exact Or.inl (by simpa [Bind.bind, Except.bind] using run)
  · exact Or.inr ⟨value, rfl, run⟩

def add64 (left right : Nat) : Nat := (left + right) % 2 ^ 64

def sub64 (left right : Nat) : Nat := (left + 2 ^ 64 - right) % 2 ^ 64

def mul64 (left right : Nat) : Nat := left * right % 2 ^ 64

/-- The conversion from `uint64_t` to `int64_t`. -/
def toInt64 (value : Nat) : Int :=
  if value < 2 ^ 63 then value else (value : Int) - 2 ^ 64

/-- The conversion from `uint32_t` to `int`. -/
def toInt32 (value : Nat) : Int :=
  if value < 2 ^ 31 then value else (value : Int) - 2 ^ 32

theorem toInt32_of_lt {value : Nat} (bound : value < 2 ^ 31) : toInt32 value = value :=
  if_pos bound

theorem add64_of_lt {left right : Nat} (bound : left + right < 2 ^ 64) :
    add64 left right = left + right :=
  Nat.mod_eq_of_lt bound

theorem sub64_of_le {left right : Nat} (le : right ≤ left) (bound : left < 2 ^ 64) :
    sub64 left right = left - right := by
  have shifted : left + 2 ^ 64 - right = left - right + 2 ^ 64 := by omega
  rw [sub64, shifted, Nat.add_mod_right, Nat.mod_eq_of_lt (by omega)]

def memset (mem : Memory) (s c n : Nat) : Memory :=
  fill mem s (UInt8.ofNat c) n

theorem memset_apply (mem : Memory) (s c n address : Nat) :
    memset mem s c n address =
      if s ≤ address ∧ address < s + n then UInt8.ofNat c else mem address :=
  fill_apply mem s _ n address

theorem memset_outside (mem : Memory) {s c n address : Nat}
    (outside : address < s ∨ s + n ≤ address) :
    memset mem s c n address = mem address := by
  rw [memset_apply, if_neg (by omega)]

/-- Physical memory together with the globals that manage it. -/
structure Phys (α : Type) where
  mem : Memory
  globals : α

end OkeOS
