import Mathlib.Data.List.Induction
import OkeOS.PagingEntries

/-!
What any sequence of `SetAddress` and `SetFlag` calls leaves of an entry, and what the four
indices keep of an address.
-/

namespace OkeOS

/-! A value with fields, changed step by step: a field holds what the last step that sets it
has put there. -/

/-- What the last element that sets something sets. -/
def lastSet {α β : Type} (set : α → Option β) (steps : List α) : Option β :=
  steps.reverse.findSome? set

section

variable {σ α β γ : Type} {step : σ → α → σ} {set : α → Option β}

theorem lastSet_concat (steps : List α) (last : α) :
    lastSet set (steps ++ [last]) = (set last).or (lastSet set steps) := by
  rw [lastSet, List.reverse_concat, List.findSome?_cons]
  cases set last with
  | none => rfl
  | some value => rfl

theorem lastSet_none {steps : List α} (untouched : ∀ last ∈ steps, set last = none) :
    lastSet set steps = none := by
  rw [lastSet, List.findSome?_eq_none_iff]
  intro last member
  exact untouched last (List.mem_reverse.mp member)

theorem lastSet_map (put : β → γ) (steps : List α) :
    lastSet (fun step => (set step).map put) steps = (lastSet set steps).map put := by
  rw [lastSet, lastSet, List.map_findSome?]
  rfl

theorem foldl_field (field : σ → β)
    (law : ∀ state last, field (step state last) = (set last).getD (field state)) (state : σ)
    (steps : List α) :
    field (steps.foldl step state) = (lastSet set steps).getD (field state) := by
  induction steps using List.reverseRecOn with
  | nil => rfl
  | append_singleton steps last ih =>
      rw [List.foldl_append, List.foldl_cons, List.foldl_nil, law, ih, lastSet_concat]
      cases set last with
      | none => rfl
      | some value => rfl

end

namespace PageDirectoryEntry

inductive EntryUpdate where
  | setAddress (address : BitVec 64)
  | setFlag (flag : PtFlag) (enabled : Bool)

namespace EntryUpdate

def run (value : BitVec 64) : EntryUpdate → BitVec 64
  | setAddress address => PageDirectoryEntry.setAddress value address
  | setFlag flag enabled => PageDirectoryEntry.setFlag value flag enabled

def newAddress : EntryUpdate → Option (BitVec 64)
  | setAddress address => some address
  | setFlag _ _ => none

/-- What a call sets `flag` to. -/
def newFlag (flag : PtFlag) : EntryUpdate → Option Bool
  | setAddress _ => none
  | setFlag other enabled => if other = flag then some enabled else none

/-- What a call sets bit `i` to. -/
def newBit (i : Nat) : EntryUpdate → Option Bool
  | setAddress address => if 12 ≤ i ∧ i < 52 then some (address.getLsbD (i - 12)) else none
  | setFlag flag enabled => if i = flag.value then some enabled else none

/-- The calls one after another. -/
def runAll (value : BitVec 64) (updates : List EntryUpdate) : BitVec 64 := updates.foldl run value

end EntryUpdate

open EntryUpdate

theorem flag_outside (flag : PtFlag) : ¬(12 ≤ flag.value ∧ flag.value < 52) := by
  cases flag <;> decide

theorem flag_value_injective {flag other : PtFlag} (same : flag.value = other.value) :
    flag = other := by
  cases flag <;> cases other <;> first | rfl | exact absurd same (by decide)

theorem getLsbD_setAddress (value address : BitVec 64) {i : Nat} (bound : i < 64) :
    (setAddress value address).getLsbD i =
      if 12 ≤ i ∧ i < 52 then address.getLsbD (i - 12) else value.getLsbD i := by
  have kept : ∀ i < 64, (0xfff0000000000fff#64).getLsbD i = decide (¬(12 ≤ i ∧ i < 52)) := by
    decide
  have low : ∀ i < 64, (0x000000ffffffffff#64).getLsbD i = decide (i < 40) := by decide
  simp only [setAddress, BitVec.getLsbD_or, BitVec.getLsbD_and, BitVec.getLsbD_shiftLeft, bound,
    kept i bound, low (i - 12) (by omega), decide_true, Bool.true_and]
  by_cases inside : 12 ≤ i ∧ i < 52
  · simp [inside, show ¬i < 12 by omega, show i - 12 < 40 by omega]
  · rw [if_neg inside]
    by_cases below : i < 12
    · simp [inside, below]
    · simp [inside, show ¬i - 12 < 40 by omega]

theorem getLsbD_getAddress (value : BitVec 64) {i : Nat} (inside : i < 40) :
    (getAddress value).getLsbD i = value.getLsbD (i + 12) := by
  have mask : ∀ i < 64, (0x000ffffffffff000#64).getLsbD i = decide (12 ≤ i ∧ i < 52) := by decide
  rw [getAddress, BitVec.getLsbD_ushiftRight, BitVec.getLsbD_and, Nat.add_comm 12,
    mask (i + 12) (by omega)]
  simp [show i + 12 < 52 by omega]

theorem getLsbD_run (value : BitVec 64) (update : EntryUpdate) {i : Nat} (bound : i < 64) :
    (update.run value).getLsbD i = (update.newBit i).getD (value.getLsbD i) := by
  cases update with
  | setAddress address =>
      rw [run, newBit, getLsbD_setAddress value address bound]
      split
      · rfl
      · rfl
  | setFlag flag enabled =>
      rw [run, newBit, getLsbD_setFlag value flag enabled bound]
      split
      · rfl
      · rfl

theorem getFlag_run (flag : PtFlag) (value : BitVec 64) (update : EntryUpdate) :
    getFlag (update.run value) flag = (update.newFlag flag).getD (getFlag value flag) := by
  rw [getFlag_eq, getFlag_eq, getLsbD_run value update (flag_lt flag)]
  cases update with
  | setAddress address => rw [newBit, newFlag, if_neg (flag_outside flag)]
  | setFlag other enabled =>
      rw [newBit, newFlag]
      by_cases same : other = flag
      · rw [same, if_pos rfl, if_pos rfl]
      · rw [if_neg same, if_neg fun values => same (flag_value_injective values.symm)]

theorem getAddress_run (value : BitVec 64) (update : EntryUpdate) :
    getAddress (update.run value) =
      (update.newAddress.map (· &&& 0x000000ffffffffff#64)).getD (getAddress value) := by
  cases update with
  | setAddress address => exact getAddress_setAddress value address
  | setFlag flag enabled =>
      have outside : ∀ flag : PtFlag, (0x000ffffffffff000#64).getLsbD flag.value = false := by
        intro flag
        cases flag <;> decide
      exact getAddress_setFlag value flag enabled (outside flag)

section

variable (value : BitVec 64) (updates : List EntryUpdate)

theorem getAddress_runAll : getAddress (runAll value updates) =
    ((lastSet newAddress updates).map (· &&& 0x000000ffffffffff#64)).getD (getAddress value) := by
  rw [runAll, foldl_field getAddress getAddress_run, lastSet_map]

theorem getFlag_runAll (flag : PtFlag) : getFlag (runAll value updates) flag =
    (lastSet (newFlag flag) updates).getD (getFlag value flag) :=
  foldl_field (getFlag · flag) (getFlag_run flag) value updates

theorem getLsbD_runAll {i : Nat} (bound : i < 64) : (runAll value updates).getLsbD i =
    (lastSet (newBit i) updates).getD (value.getLsbD i) :=
  foldl_field (BitVec.getLsbD · i) (fun value update => getLsbD_run value update bound) value updates

theorem getLsbD_runAll_untouched {i : Nat} (bound : i < 64)
    (untouched : ∀ update ∈ updates, update.newBit i = none) :
    (runAll value updates).getLsbD i = value.getLsbD i := by
  rw [getLsbD_runAll value updates bound, lastSet_none untouched]
  rfl

variable {updates}

/-- The entry is fixed by the last address and the last value of every flag. -/
theorem runAll_determined {others : List EntryUpdate}
    (sameAddress : lastSet newAddress others = lastSet newAddress updates)
    (sameFlags : ∀ flag, lastSet (newFlag flag) others = lastSet (newFlag flag) updates) :
    runAll value others = runAll value updates := by
  have addresses : getAddress (runAll value others) = getAddress (runAll value updates) := by
    rw [getAddress_runAll, getAddress_runAll, sameAddress]
  apply BitVec.eq_of_getLsbD_eq
  intro i bound
  by_cases inside : 12 ≤ i ∧ i < 52
  · obtain ⟨low, rfl⟩ : ∃ low, i = low + 12 := ⟨i - 12, by omega⟩
    rw [← getLsbD_getAddress _ (by omega), addresses, getLsbD_getAddress _ (by omega)]
  · by_cases isFlag : ∃ flag : PtFlag, i = flag.value
    · obtain ⟨flag, rfl⟩ := isFlag
      rw [← getFlag_eq, ← getFlag_eq, getFlag_runAll, getFlag_runAll, sameFlags]
    · have untouched (update : EntryUpdate) : update.newBit i = none := by
        cases update with
        | setAddress address => exact if_neg inside
        | setFlag flag enabled => exact if_neg fun same => isFlag ⟨flag, same⟩
      rw [getLsbD_runAll_untouched value _ bound fun update _ => untouched update,
        getLsbD_runAll_untouched value _ bound fun update _ => untouched update]

end

end PageDirectoryEntry

/-! The four indices together. -/

/-- The indices shifted back to where they come from. -/
def PageMapIndexer.recombined (indexer : PageMapIndexer) : Nat :=
  indexer.pdpI <<< 39 ||| indexer.pdI <<< 30 ||| indexer.ptI <<< 21 ||| indexer.pI <<< 12

theorem indexer_small (virt : Nat) : ∀ index ∈ (pageMapIndexerFrom virt).path, index < 512 := by
  intro index member
  rw [indexer_eq] at member
  simp only [PageMapIndexer.path, List.mem_cons, List.not_mem_nil, or_false] at member
  omega

theorem recombined_testBit (virt i : Nat) : (pageMapIndexerFrom virt).recombined.testBit i =
    (decide (12 ≤ i ∧ i < 48) && virt.testBit i) := by
  have shifted (shift : Nat) : (virt / 2 ^ shift % 512 * 2 ^ shift).testBit i =
      (decide (shift ≤ i ∧ i < shift + 9) && virt.testBit i) := by
    rw [Nat.testBit_mul_two_pow, index_testBit]
    by_cases low : shift ≤ i
    · rw [show shift + (i - shift) = i by omega]
      simp [low, show i - shift < 9 ↔ i < shift + 9 by omega]
    · simp [low]
  rw [indexer_eq]
  simp only [PageMapIndexer.recombined, Nat.testBit_or, Nat.shiftLeft_eq, shifted]
  cases virt.testBit i with
  | false => simp
  | true =>
      simp only [Bool.and_true, ← Bool.decide_or, decide_eq_decide]
      omega

theorem recombined_eq (virt : Nat) :
    (pageMapIndexerFrom virt).recombined = virt &&& 0x0000fffffffff000 := by
  apply Nat.eq_of_testBit_eq
  intro i
  have mask : (0x0000fffffffff000).testBit i = decide (12 ≤ i ∧ i < 48) := by
    rw [show 0x0000fffffffff000 = (2 ^ 36 - 1) * 2 ^ 12 from rfl, Nat.testBit_mul_two_pow,
      Nat.testBit_two_pow_sub_one, ← Bool.decide_and, decide_eq_decide]
    omega
  rw [recombined_testBit, Nat.testBit_and, mask, Bool.and_comm]

open PageDirectoryEntry EntryUpdate in
/-- An entry keeps what was last put into each of its fields and nothing else; the indices keep
bits 12 to 47 of an address. -/
theorem page_codec (value : BitVec 64) (updates : List EntryUpdate) (virt : Nat) :
    (getAddress (runAll value updates)).toNat =
        ((lastSet newAddress updates).map fun address => address.toNat % 2 ^ 40).getD
          (getAddress value).toNat ∧
      (∀ flag, getFlag (runAll value updates) flag =
        (lastSet (newFlag flag) updates).getD (getFlag value flag)) ∧
      (∀ i < 64, (∀ update ∈ updates, update.newBit i = none) →
        (runAll value updates).getLsbD i = value.getLsbD i) ∧
      (∀ others, lastSet newAddress others = lastSet newAddress updates →
        (∀ flag, lastSet (newFlag flag) others = lastSet (newFlag flag) updates) →
          runAll value others = runAll value updates) ∧
      (∀ index ∈ (pageMapIndexerFrom virt).path, index < 512) ∧
      (pageMapIndexerFrom virt).recombined = virt &&& 0x0000fffffffff000 ∧
      ∀ other, pageMapIndexerFrom virt = pageMapIndexerFrom other ↔
        ∀ bit, 12 ≤ bit → bit ≤ 47 → virt.testBit bit = other.testBit bit := by
  refine ⟨?_, getFlag_runAll value updates, ?_, ?_, indexer_small virt, recombined_eq virt, ?_⟩
  · rw [getAddress_runAll]
    cases lastSet newAddress updates with
    | none => rfl
    | some address =>
        have mask : (0x000000ffffffffff#64).toNat = 2 ^ 40 - 1 := by decide
        simp only [Option.map_some, Option.getD_some, BitVec.toNat_and, mask,
          Nat.and_two_pow_sub_one_eq_mod]
  · intro i bound untouched
    exact getLsbD_runAll_untouched value updates bound untouched
  · intro others sameAddress sameFlags
    exact runAll_determined value sameAddress sameFlags
  · intro other
    rw [← samePage_iff, samePage_testBit]

end OkeOS
