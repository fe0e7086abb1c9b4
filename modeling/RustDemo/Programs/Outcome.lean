import Mathlib.Data.Nat.Notation
import Mathlib.Tactic.TypeStar

/-!
# Programs that may panic or run forever

A program is run with fuel.  A loop is a body that either goes round again or
ends with a result, and each round takes one unit of fuel.  A program that
returns does so with all fuel from some amount on; one that never returns is
unfinished with any fuel.
-/

namespace RustDemo.Programs

/-- What a program comes to with the fuel it was given. -/
inductive Outcome (α : Type) where
  | returned (value : α)
  | panicked
  | unfinished
  deriving DecidableEq

namespace Outcome

variable {α β : Type}

def bind (outcome : Outcome α) (next : α → Outcome β) : Outcome β :=
  match outcome with
  | .returned value => next value
  | .panicked => .panicked
  | .unfinished => .unfinished

instance : Monad Outcome where
  pure := .returned
  bind := bind

@[simp] theorem pure_eq (value : α) : (pure value : Outcome α) = .returned value := rfl

@[simp] theorem returned_bind (value : α) (next : α → Outcome β) :
    (Outcome.returned value >>= next) = next value := rfl

@[simp] theorem panicked_bind (next : α → Outcome β) :
    ((Outcome.panicked : Outcome α) >>= next) = .panicked := rfl

@[simp] theorem unfinished_bind (next : α → Outcome β) :
    ((Outcome.unfinished : Outcome α) >>= next) = .unfinished := rfl

end Outcome

section Returns

variable {α : Type}

/-- The program returns the value with enough fuel. -/
def Returns (program : Nat → Outcome α) (value : α) : Prop :=
  ∃ enough, ∀ fuel, enough ≤ fuel → program fuel = .returned value

/-- Whatever the fuel, the program is not finished. -/
def RunsForever (program : Nat → Outcome α) : Prop := ∀ fuel, program fuel = .unfinished

theorem RunsForever.not_returns {program : Nat → Outcome α} (forever : RunsForever program)
    (value : α) : ¬ Returns program value := by
  rintro ⟨enough, returns⟩
  have returned := returns enough (Nat.le_refl enough)
  rw [forever enough] at returned
  cases returned

theorem Returns.of_succ {program : Nat → Outcome α} {value : α}
    (returns : Returns (fun fuel => program (fuel + 1)) value) : Returns program value := by
  obtain ⟨enough, returned⟩ := returns
  refine ⟨enough + 1, fun fuel more => ?_⟩
  cases fuel with
  | zero => exact absurd more (Nat.not_succ_le_zero enough)
  | succ fuel => exact returned fuel (Nat.le_of_succ_le_succ more)

theorem returns_pure (value : α) : Returns (fun _ => pure value) value :=
  ⟨0, fun _ _ => rfl⟩

theorem Returns.bind {β : Type} {program : Nat → Outcome α} {next : Nat → α → Outcome β} {value : α}
    {result : β} (first : Returns program value)
    (second : Returns (fun fuel => next fuel value) result) :
    Returns (fun fuel => program fuel >>= next fuel) result := by
  obtain ⟨enough, returned⟩ := first
  obtain ⟨more, later⟩ := second
  refine ⟨max enough more, fun fuel most => ?_⟩
  show (program fuel >>= next fuel) = .returned result
  rw [returned fuel (Nat.le_trans (Nat.le_max_left enough more) most), Outcome.returned_bind]
  exact later fuel (Nat.le_trans (Nat.le_max_right enough more) most)

end Returns

section Safe

variable {α β : Type} {Post Weaker : α → Prop} {outcome : Outcome α}

/-- No panic, and what is returned is as `Post` says. -/
def Safe (Post : α → Prop) (outcome : Outcome α) : Prop :=
  outcome = .unfinished ∨ ∃ value, outcome = .returned value ∧ Post value

theorem safe_pure {value : α} (post : Post value) : Safe Post (pure value) :=
  Or.inr ⟨value, rfl, post⟩

theorem Safe.mono (safe : Safe Post outcome) (weaken : ∀ value, Post value → Weaker value) :
    Safe Weaker outcome := by
  rcases safe with unfinished | ⟨value, returned, post⟩
  · exact Or.inl unfinished
  · exact Or.inr ⟨value, returned, weaken value post⟩

theorem Safe.bind {Last : β → Prop} {next : α → Outcome β} (safe : Safe Post outcome)
    (later : ∀ value, Post value → Safe Last (next value)) : Safe Last (outcome >>= next) := by
  rcases safe with unfinished | ⟨value, returned, post⟩
  · rw [unfinished, Outcome.unfinished_bind]
    exact Or.inl rfl
  · rw [returned, Outcome.returned_bind]
    exact later value post

theorem Safe.bind_unfinished {next : α → Outcome β} (safe : Safe Post outcome)
    (later : ∀ value, Post value → next value = .unfinished) :
    (outcome >>= next) = .unfinished := by
  rcases safe with unfinished | ⟨value, returned, post⟩
  · rw [unfinished, Outcome.unfinished_bind]
  · rw [returned, Outcome.returned_bind]
    exact later value post

end Safe

/-! ## Loops -/

section Loop

variable {σ ρ : Type}

/-- Go round while the body gives a state; end with the result it gives. -/
def loop (body : σ → Outcome (σ ⊕ ρ)) : Nat → σ → Outcome ρ
  | 0, _ => .unfinished
  | fuel + 1, state => do
      match ← body state with
      | .inl next => loop body fuel next
      | .inr result => pure result

variable {body : σ → Outcome (σ ⊕ ρ)}

theorem loop_of_again {state next : σ} (again : body state = .returned (.inl next)) (fuel : Nat) :
    loop body (fuel + 1) state = loop body fuel next := by
  rw [loop, again]
  rfl

theorem loop_of_done {state : σ} {result : ρ} (done : body state = .returned (.inr result))
    (fuel : Nat) : loop body (fuel + 1) state = .returned result := by
  rw [loop, done]
  rfl

/-- One round: to a next state, or to the end with a result, and what holds of it. -/
inductive Round (body : σ → Outcome (σ ⊕ ρ)) (Next : σ → Prop) (Post : ρ → Prop) (state : σ) :
    Prop where
  | again {next : σ} (goes : body state = .returned (.inl next)) (holds : Next next)
  | done {result : ρ} (ends : body state = .returned (.inr result)) (post : Post result)

/-- The loop does not panic, and what it returns is as the invariant says. -/
theorem loop_safe {Inv : σ → Prop} {Post : ρ → Prop}
    (rounds : ∀ state, Inv state → Round body Inv Post state) {state : σ} (inv : Inv state)
    (fuel : Nat) : Safe Post (loop body fuel state) := by
  induction fuel generalizing state with
  | zero => exact Or.inl rfl
  | succ fuel ih =>
      cases rounds state inv with
      | again goes later =>
          rw [loop_of_again goes]
          exact ih later
      | done ends post =>
          rw [loop_of_done ends]
          exact Or.inr ⟨_, rfl, post⟩

/-- A loop that gets nearer to its end in each round returns. -/
theorem loop_returns {Inv : σ → Prop} {Post : ρ → Prop} (distance : σ → Nat)
    (rounds : ∀ state, Inv state →
      Round body (fun next => Inv next ∧ distance next < distance state) Post state)
    {state : σ} (inv : Inv state) :
    ∃ result, Post result ∧ Returns (fun fuel => loop body fuel state) result := by
  induction far : distance state using Nat.strongRecOn generalizing state with
  | ind n ih =>
      cases rounds state inv with
      | again goes holds =>
          obtain ⟨later, nearer⟩ := holds
          rw [far] at nearer
          obtain ⟨result, post, returns⟩ := ih _ nearer later rfl
          refine ⟨result, post, Returns.of_succ ?_⟩
          simp only [loop_of_again goes]
          exact returns
      | done ends post =>
          refine ⟨_, post, Returns.of_succ ?_⟩
          simp only [loop_of_done ends]
          exact returns_pure _

/-- The states in which the body is run, however many rounds it takes to come there. -/
inductive Visits (body : σ → Outcome (σ ⊕ ρ)) (start : σ) : σ → Prop where
  | start : Visits body start start
  | next {state next : σ} (earlier : Visits body start state)
      (goes : body state = .returned (.inl next)) : Visits body start next

/-- An invariant holds in every round, also of a loop that does not end. -/
theorem Visits.invariant {Inv : σ → Prop} {Post : ρ → Prop}
    (rounds : ∀ state, Inv state → Round body Inv Post state) {start state : σ} (inv : Inv start)
    (visits : Visits body start state) : Inv state := by
  induction visits with
  | start => exact inv
  | next earlier goes ih =>
      cases rounds _ ih with
      | again goesOn holds =>
          cases goes.symm.trans goesOn
          exact holds
      | done ends post => cases goes.symm.trans ends

theorem Visits.trans {start middle state : σ} (first : Visits body start middle)
    (second : Visits body middle state) : Visits body start state := by
  induction second with
  | start => exact first
  | next earlier goes ih => exact ih.next goes

theorem exists_visits_of_loop {fuel : Nat} {start : σ} {result : ρ}
    (returned : loop body fuel start = .returned result) :
    ∃ state, Visits body start state ∧ body state = .returned (.inr result) := by
  induction fuel generalizing start with
  | zero => cases returned
  | succ fuel ih =>
      cases outcome : body start with
      | returned out =>
          cases out with
          | inl next =>
              rw [loop_of_again outcome] at returned
              obtain ⟨state, visits, ends⟩ := ih returned
              exact ⟨state, (Visits.start.next outcome).trans visits, ends⟩
          | inr last =>
              rw [loop_of_done outcome] at returned
              cases returned
              exact ⟨start, .start, outcome⟩
      | panicked =>
          rw [loop, outcome] at returned
          cases returned
      | unfinished =>
          rw [loop, outcome] at returned
          cases returned

end Loop

end RustDemo.Programs
