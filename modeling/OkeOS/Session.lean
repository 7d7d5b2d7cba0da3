import Mathlib.Tactic.Common

/-!
Systems that take requests and give replies, and models of them that are functions.  A system that
refines a model replies as the model does, so states with the same model cannot be told apart.
-/

namespace Session

variable {State Model Request Reply : Type}

/-- Requests served one after another. -/
inductive Run (Step : State → Request → Reply → State → Prop) :
    State → List Request → List Reply → State → Prop
  | nil (state : State) : Run Step state [] [] state
  | cons {state next last : State} {request : Request} {reply : Reply} {requests : List Request}
      {replies : List Reply} : Step state request reply next → Run Step next requests replies last →
      Run Step state (request :: requests) (reply :: replies) last

/-- The replies of a model; a request that it does not serve ends the session. -/
def replay (serve : Model → Request → Option (Reply × Model)) :
    Model → List Request → Option (List Reply × Model)
  | model, [] => some ([], model)
  | model, request :: requests => do
      let (reply, next) ← serve model request
      let (replies, last) ← replay serve next requests
      some (reply :: replies, last)

/-- The system serves what the model serves, with the same replies. -/
structure Refines (Step : State → Request → Reply → State → Prop)
    (serve : Model → Request → Option (Reply × Model)) (Models : State → Model → Prop) : Prop where
  forth : ∀ {state next : State} {model : Model} {request : Request} {reply : Reply},
    Models state model → Step state request reply next →
      ∃ model', serve model request = some (reply, model') ∧ Models next model'
  back : ∀ {state : State} {model model' : Model} {request : Request} {reply : Reply},
    Models state model → serve model request = some (reply, model') →
      ∃ next, Step state request reply next ∧ Models next model'

/-- A program and its model that succeed together, with related results. -/
def Together {ε α β : Type} (Post : α → β → Prop) (program : Except ε α) (model : Option β) : Prop :=
  (∃ result value, program = .ok result ∧ model = some value ∧ Post result value) ∨
    (∃ fault, program = .error fault) ∧ model = none

section

variable {ε α β α' β' : Type} {Post : α → β → Prop} {Post' : α' → β' → Prop}
  {program : Except ε α} {model : Option β}

theorem Together.bind {next : α → Except ε α'} {nextModel : β → Option β'}
    (first : Together Post program model)
    (second : ∀ result value, Post result value → Together Post' (next result) (nextModel value)) :
    Together Post' (program >>= next) (model >>= nextModel) := by
  rcases first with ⟨result, value, rfl, rfl, related⟩ | ⟨⟨fault, rfl⟩, rfl⟩
  · exact second result value related
  · exact Or.inr ⟨⟨fault, rfl⟩, rfl⟩

theorem Together.forth {result : α} (together : Together Post program model)
    (run : program = .ok result) : ∃ value, model = some value ∧ Post result value := by
  rcases together with ⟨_, value, succeeds, served, related⟩ | ⟨⟨fault, fails⟩, _⟩
  · rw [run, Except.ok.injEq] at succeeds
    exact ⟨value, served, succeeds ▸ related⟩
  · rw [run] at fails
    cases fails

theorem Together.back {value : β} (together : Together Post program model)
    (served : model = some value) : ∃ result, program = .ok result ∧ Post result value := by
  rcases together with ⟨result, _, succeeds, serves, related⟩ | ⟨_, refuses⟩
  · rw [served, Option.some.injEq] at serves
    exact ⟨result, succeeds, serves ▸ related⟩
  · rw [served] at refuses
    cases refuses

end

section

variable {Step : State → Request → Reply → State → Prop}
  {serve : Model → Request → Option (Reply × Model)} {Models : State → Model → Prop}

theorem replay_cons {model : Model} {request : Request} {requests : List Request}
    {replies : List Reply} {last : Model} :
    replay serve model (request :: requests) = some (replies, last) ↔
      ∃ reply next rest, serve model request = some (reply, next) ∧
        replay serve next requests = some (rest, last) ∧ replies = reply :: rest := by
  rw [replay]
  constructor
  · intro served
    obtain ⟨⟨reply, next⟩, first, served⟩ := Option.bind_eq_some_iff.mp served
    obtain ⟨⟨rest, last'⟩, later, result⟩ := Option.bind_eq_some_iff.mp served
    cases result
    exact ⟨reply, next, rest, first, later, rfl⟩
  · rintro ⟨reply, next, rest, first, later, rfl⟩
    simp only [first, later, Option.bind_eq_bind, Option.bind_some]

theorem Run.forth {state last : State} {model : Model} {requests : List Request}
    {replies : List Reply} (run : Run Step state requests replies last)
    (forth : ∀ {state next : State} {model : Model} {request : Request} {reply : Reply},
      Models state model → Step state request reply next →
      ∃ model', serve model request = some (reply, model') ∧ Models next model')
    (models : Models state model) :
    ∃ model', replay serve model requests = some (replies, model') ∧ Models last model' := by
  induction run generalizing model with
  | nil state => exact ⟨model, rfl, models⟩
  | cons step _ ih =>
      obtain ⟨next, served, models⟩ := forth models step
      obtain ⟨last, replayed, models⟩ := ih models
      exact ⟨last, replay_cons.mpr ⟨_, next, _, served, replayed, rfl⟩, models⟩

theorem Refines.run_forth (refines : Refines Step serve Models) {state last : State} {model : Model}
    {requests : List Request} {replies : List Reply} (models : Models state model)
    (run : Run Step state requests replies last) :
    ∃ model', replay serve model requests = some (replies, model') ∧ Models last model' :=
  run.forth refines.forth models

theorem Refines.run_back (refines : Refines Step serve Models) {state : State}
    {model model' : Model} {requests : List Request} {replies : List Reply}
    (models : Models state model) (replayed : replay serve model requests = some (replies, model')) :
    ∃ last, Run Step state requests replies last ∧ Models last model' := by
  induction requests generalizing state model replies with
  | nil =>
      cases replayed
      exact ⟨state, .nil state, models⟩
  | cons request requests ih =>
      obtain ⟨reply, next, rest, served, later, rfl⟩ := replay_cons.mp replayed
      obtain ⟨between, step, models⟩ := refines.back models served
      obtain ⟨last, run, models⟩ := ih models later
      exact ⟨last, .cons step run, models⟩

/-- What a client sees of a state is its model. -/
theorem Refines.alike (refines : Refines Step serve Models) {first second last : State}
    {model : Model} {requests : List Request} {replies : List Reply} (left : Models first model)
    (right : Models second model) (run : Run Step first requests replies last) :
    (∃ last', Run Step second requests replies last') ∧
      ∀ replies' last', Run Step second requests replies' last' →
        replies' = replies ∧ ∃ model', Models last model' ∧ Models last' model' := by
  obtain ⟨model', replayed, models⟩ := refines.run_forth left run
  obtain ⟨last', run', _⟩ := refines.run_back right replayed
  refine ⟨⟨last', run'⟩, fun replies' other run'' => ?_⟩
  obtain ⟨model'', replayed', models'⟩ := refines.run_forth right run''
  rw [replayed, Option.some.injEq, Prod.mk.injEq] at replayed'
  obtain ⟨rfl, rfl⟩ := replayed'
  exact ⟨rfl, model', models, models'⟩

end

end Session
