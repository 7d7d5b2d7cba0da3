/-!
Computations that are given fuel.  What such a computation returns is what it returns with
every large enough amount of fuel; one that uses up every amount does not return.
-/

namespace Fuel

variable {ε α β : Type} {starved : ε}

/-- `run` comes to `result` with enough fuel; with less fuel it may stop early. -/
structure Comes (starved : ε) (run : Nat → Except ε α) (result : Except ε α) : Prop where
  enough : ∃ needed, ∀ fuel, needed ≤ fuel → run fuel = result
  early : ∀ fuel, run fuel = .error starved ∨ run fuel = result

section

variable {run : Nat → Except ε α} {result : Except ε α}

theorem Comes.const (result : Except ε α) : Comes starved (fun _ => result) result where
  enough := ⟨0, fun _ _ => rfl⟩
  early _ := Or.inr rfl

/-- The computation uses up every amount of fuel exactly when it comes to no other result. -/
theorem Comes.starves_iff (comes : Comes starved run result) :
    (∀ fuel, run fuel = .error starved) ↔ result = .error starved := by
  obtain ⟨needed, later⟩ := comes.enough
  constructor
  · intro never
    rw [← later needed (Nat.le_refl _), never]
  · rintro rfl fuel
    rcases comes.early fuel with stopped | same
    · exact stopped
    · exact same

theorem Comes.of_run {fuel : Nat} {value : α} (comes : Comes starved run result)
    (returns : run fuel = .ok value) : result = .ok value := by
  rcases comes.early fuel with stopped | same
  · rw [returns] at stopped
    simp at stopped
  · rw [← same, returns]

/-- One computation after the other. -/
theorem Comes.bind {next : Nat → α → Except ε β} (first : Comes starved run result)
    (results : α → Except ε β)
    (later : ∀ value, result = .ok value →
      Comes starved (fun fuel => next fuel value) (results value)) :
    Comes starved (fun fuel => run fuel >>= next fuel) (result >>= results) := by
  obtain ⟨needed, enough⟩ := first.enough
  cases result with
  | error fault =>
      refine ⟨⟨needed, fun fuel le => by rw [enough fuel le]; rfl⟩, fun fuel => ?_⟩
      rcases first.early fuel with stopped | same
      · exact Or.inl (by rw [stopped]; rfl)
      · exact Or.inr (by rw [same]; rfl)
  | ok value =>
      obtain ⟨needed', enough'⟩ := (later value rfl).enough
      constructor
      · refine ⟨max needed needed', fun fuel le => ?_⟩
        rw [enough fuel (Nat.le_trans (Nat.le_max_left _ _) le)]
        exact enough' fuel (Nat.le_trans (Nat.le_max_right _ _) le)
      · intro fuel
        rcases first.early fuel with stopped | same
        · exact Or.inl (by rw [stopped]; rfl)
        · rw [same]
          exact (later value rfl).early fuel

end

/-- Both fail alike, or both return and the values are related. -/
inductive Agree (R : α → β → Prop) : Except ε α → Except ε β → Prop
  | error (fault : ε) : Agree R (.error fault) (.error fault)
  | ok {left : α} {right : β} (related : R left right) : Agree R (.ok left) (.ok right)

/-- The computation does what `meaning` says, up to `R`; where the meaning is to starve, it
never returns. -/
def Refines (starved : ε) (R : α → β → Prop) (run : Nat → Except ε α) (meaning : Except ε β) :
    Prop :=
  ∃ result, Comes starved run result ∧ Agree R result meaning

section

variable {γ δ : Type} {R : α → β → Prop} {S : γ → δ → Prop} {run : Nat → Except ε α}
  {meaning : Except ε β}

theorem Refines.ok {left : α} {right : β} (related : R left right) :
    Refines starved R (fun _ => .ok left) (.ok right) :=
  ⟨_, Comes.const _, .ok related⟩

theorem Refines.error (fault : ε) : Refines starved R (fun _ => .error fault) (.error fault) :=
  ⟨_, Comes.const _, .error fault⟩

theorem Refines.bind {next : Nat → α → Except ε γ} {meanings : β → Except ε δ}
    (first : Refines starved R run meaning)
    (later : ∀ left right, R left right →
      Refines starved S (fun fuel => next fuel left) (meanings right)) :
    Refines starved S (fun fuel => run fuel >>= next fuel) (meaning >>= meanings) := by
  obtain ⟨result, comes, agree⟩ := first
  cases agree with
  | error fault =>
      refine ⟨.error fault, comes.bind (fun _ => .error fault) ?_, .error fault⟩
      intro value returns
      simp at returns
  | @ok left right related =>
      obtain ⟨result', comes', agree'⟩ := later left right related
      refine ⟨result', comes.bind (fun _ => result') (fun value returns => ?_), agree'⟩
      rw [Except.ok.injEq] at returns
      exact returns ▸ comes'

/-- One computation after another one that returns. -/
theorem Refines.andThen {next : Nat → α → Except ε γ} {right : β} {meanings : Except ε δ}
    (first : Refines starved R run (.ok right))
    (later : ∀ left, R left right → Refines starved S (fun fuel => next fuel left) meanings) :
    Refines starved S (fun fuel => run fuel >>= next fuel) meanings := by
  obtain ⟨result, comes, agree⟩ := first
  cases agree with
  | @ok left _ related =>
      obtain ⟨result', comes', agree'⟩ := later left related
      refine ⟨result', comes.bind (fun _ => result') (fun value returns => ?_), agree'⟩
      rw [Except.ok.injEq] at returns
      exact returns ▸ comes'

theorem Refines.imp {S : α → β → Prop} (refines : Refines starved R run meaning)
    (weaker : ∀ left right, R left right → S left right) : Refines starved S run meaning := by
  obtain ⟨result, comes, agree⟩ := refines
  refine ⟨result, comes, ?_⟩
  cases agree with
  | error fault => exact .error fault
  | ok related => exact .ok (weaker _ _ related)

theorem Refines.map {after : α → γ} {S : γ → β → Prop} (refines : Refines starved R run meaning)
    (same : ∀ left right, R left right → S (after left) right) :
    Refines starved S (fun fuel => run fuel >>= fun left => .ok (after left)) meaning := by
  obtain ⟨result, comes, agree⟩ := refines
  refine ⟨_, comes.bind (fun left => .ok (after left)) fun _ _ => Comes.const _, ?_⟩
  cases agree with
  | error fault => exact .error fault
  | ok related => exact .ok (same _ _ related)

/-- Enough fuel for a computation that returns. -/
theorem Refines.enough {right : β} (refines : Refines starved R run (.ok right)) :
    ∃ needed left, R left right ∧ ∀ fuel, needed ≤ fuel → run fuel = .ok left := by
  obtain ⟨result, comes, agree⟩ := refines
  obtain ⟨needed, later⟩ := comes.enough
  cases agree with
  | @ok left _ related => exact ⟨needed, left, related, later⟩

/-- What a run that returns has returned. -/
theorem Refines.of_run {fuel : Nat} {left : α} (refines : Refines starved R run meaning)
    (returns : run fuel = .ok left) : ∃ right, meaning = .ok right ∧ R left right := by
  obtain ⟨result, comes, agree⟩ := refines
  obtain rfl := comes.of_run returns
  cases agree with
  | @ok _ right related => exact ⟨right, rfl, related⟩

theorem Refines.starves_iff (refines : Refines starved R run meaning) :
    (∀ fuel, run fuel = .error starved) ↔ meaning = .error starved := by
  obtain ⟨result, comes, agree⟩ := refines
  rw [comes.starves_iff]
  cases agree with
  | error fault => simp
  | ok related => simp

end

end Fuel
