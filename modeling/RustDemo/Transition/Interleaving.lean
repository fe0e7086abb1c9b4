import RustDemo.Transition.System

/-!
# Orders of what several parties do

Each party has its own sequence of events, and a history is any order of all of
them that keeps each sequence.  Where an event changes only the part of the
state that belongs to its party, that part does not depend on the order.
-/

namespace RustDemo.Transition

variable {κ E V S : Type} [DecidableEq κ]

/-- The events of each party stand in the history in the order of its own sequence. -/
def Interleaves (history : List (κ × E)) (script : κ → List E) : Prop :=
  ∀ k, (history.filter fun entry => entry.1 = k).map Prod.snd = script k

theorem Interleaves.mem_iff {history : List (κ × E)} {script : κ → List E}
    (interleaves : Interleaves history script) (k : κ) (event : E) :
    (k, event) ∈ history ↔ event ∈ script k := by
  rw [← interleaves k]
  simp

/-- What the events of the others leave alone is made by the party alone. -/
theorem Interleaves.foldl_eq {history : List (κ × E)} {script : κ → List E}
    (interleaves : Interleaves history script) (update : V → E → V) (k : κ)
    (foreign : ∀ j event, j ≠ k → event ∈ script j → ∀ part, update part event = part) (part : V) :
    (history.map Prod.snd).foldl update part = (script k).foldl update part := by
  have others : ∀ entry ∈ history, entry.1 ≠ k → ∀ part, update part entry.2 = part :=
    fun entry listed other =>
      foreign entry.1 entry.2 other ((interleaves.mem_iff entry.1 entry.2).mp listed)
  rw [← interleaves k]
  clear interleaves foreign
  induction history generalizing part with
  | nil => rfl
  | cons entry history ih =>
      have rest := fun part => ih part fun e listed => others e (List.mem_cons_of_mem _ listed)
      rw [List.map_cons, List.foldl_cons, rest]
      by_cases own : entry.1 = k
      · rw [List.filter_cons_of_pos (by simpa using own), List.map_cons, List.foldl_cons]
      · rw [List.filter_cons_of_neg (by simpa using own),
          others entry List.mem_cons_self own]

theorem Interleaves.foldl_eq_self {history : List (κ × E)} {script : κ → List E}
    (interleaves : Interleaves history script) (update : V → E → V)
    (foreign : ∀ j event, event ∈ script j → ∀ part, update part event = part) (part : V) :
    (history.map Prod.snd).foldl update part = part := by
  have untouched : ∀ entry ∈ history, update part entry.2 = part :=
    fun entry listed =>
      foreign entry.1 entry.2 ((interleaves.mem_iff entry.1 entry.2).mp listed) part
  clear interleaves foreign
  induction history with
  | nil => rfl
  | cons entry history ih =>
      rw [List.map_cons, List.foldl_cons, untouched entry List.mem_cons_self]
      exact ih fun e listed => untouched e (List.mem_cons_of_mem _ listed)

omit [DecidableEq κ] in
/-- A part of the state that each step changes by itself is a fold over the history. -/
theorem System.part_of_run (system : System S E) (part : S → V) (update : V → E → V)
    (step : ∀ state event next, system.step? state event = some next →
      part next = update (part state) event)
    {history : List E} {state : S} (run : system.run? history = some state) :
    part state = history.foldl update (part system.init) := by
  refine system.run?_induction
    (motive := fun history state => part state = history.foldl update (part system.init)) rfl ?_ run
  intro earlier middle event next _ ih stepped
  rw [List.foldl_append, ← ih]
  exact step middle event next stepped

end RustDemo.Transition
