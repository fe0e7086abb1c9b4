import Mathlib.Data.List.Induction

/-!
# Guarded transition systems

A system is an initial state and a guarded step function: `step? state event`
is `some next` when the event is enabled in the state and `none` otherwise.
All scheduling freedom lives in the events, so one list of events is one
interleaving, and a statement about every list of events is a statement about
every interleaving.
-/

namespace RustDemo.Transition

/-- An initial state and a guarded, executable step. -/
structure System (S E : Type) where
  init : S
  step? : S → E → Option S

namespace System

variable {S E : Type} (system : System S E)

/-- Run a list of events; `none` as soon as one of them is not enabled. -/
def runFrom? (state : S) : List E → Option S
  | [] => some state
  | event :: rest => (system.step? state event).bind fun next => runFrom? next rest

def run? (history : List E) : Option S := system.runFrom? system.init history

theorem runFrom?_append (state : S) (first second : List E) :
    system.runFrom? state (first ++ second) =
      (system.runFrom? state first).bind fun middle => system.runFrom? middle second := by
  induction first generalizing state with
  | nil => rfl
  | cons event rest ih =>
      simp only [List.cons_append, runFrom?]
      cases system.step? state event with
      | none => rfl
      | some next => exact ih next

theorem run?_append (first second : List E) :
    system.run? (first ++ second) =
      (system.run? first).bind fun middle => system.runFrom? middle second :=
  system.runFrom?_append system.init first second

/-- The last event of a run is a step from the state the earlier ones reach. -/
theorem run?_snoc (history : List E) (event : E) :
    system.run? (history ++ [event]) =
      (system.run? history).bind fun state => system.step? state event := by
  rw [run?_append]
  cases system.run? history with
  | none => rfl
  | some state =>
      show (system.step? state event).bind some = system.step? state event
      cases system.step? state event <;> rfl

/--
Induction along a run.  The step case knows the history so far, that it leads
to the current state, and that the next event is enabled there.
-/
theorem run?_induction {motive : List E → S → Prop}
    (initial : motive [] system.init)
    (step : ∀ history state event next, system.run? history = some state →
      motive history state → system.step? state event = some next →
        motive (history ++ [event]) next)
    {history : List E} {state : S} (run : system.run? history = some state) :
    motive history state := by
  induction history using List.reverseRecOn generalizing state with
  | nil =>
      cases run
      exact initial
  | append_singleton earlier event ih =>
      rw [run?_snoc] at run
      obtain ⟨middle, reached, stepped⟩ := Option.bind_eq_some_iff.mp run
      exact step earlier middle event state reached (ih reached) stepped

/-- A predicate that holds initially and survives every step holds in every reached state. -/
theorem invariant (Inv : S → Prop) (initial : Inv system.init)
    (step : ∀ state event next, Inv state → system.step? state event = some next → Inv next)
    {history : List E} {state : S} (run : system.run? history = some state) : Inv state :=
  system.run?_induction (motive := fun _ state => Inv state) initial
    (fun _ state event next _ inv stepped => step state event next inv stepped) run

/-! ## Runs whose steps all meet a condition -/

/-- The condition holds of every step taken, judged in the state before the step. -/
def MeetsFrom (condition : S → E → Prop) (state : S) : List E → Prop
  | [] => True
  | event :: rest => condition state event ∧
      ∀ next, system.step? state event = some next → MeetsFrom condition next rest

def Meets (condition : S → E → Prop) (history : List E) : Prop :=
  system.MeetsFrom condition system.init history

instance decidableMeetsFrom (condition : S → E → Prop) [∀ state event, Decidable (condition state event)]
    (state : S) : ∀ history, Decidable (system.MeetsFrom condition state history)
  | [] => .isTrue trivial
  | event :: rest =>
      match step : system.step? state event with
      | none =>
          decidable_of_iff (condition state event)
            ⟨fun here => ⟨here, fun _ stepped => absurd (stepped.symm.trans step) (Option.some_ne_none _)⟩, And.left⟩
      | some next =>
          have := decidableMeetsFrom condition next rest
          decidable_of_iff (condition state event ∧ system.MeetsFrom condition next rest)
            ⟨fun ⟨here, later⟩ => ⟨here, fun _ stepped => Option.some_inj.mp (step.symm.trans stepped) ▸ later⟩,
              fun ⟨here, later⟩ => ⟨here, later next step⟩⟩

instance (condition : S → E → Prop) [∀ state event, Decidable (condition state event)]
    (history : List E) : Decidable (system.Meets condition history) :=
  system.decidableMeetsFrom condition system.init history

variable {condition : S → E → Prop}

@[simp] theorem meets_nil : system.Meets condition [] := trivial

theorem meetsFrom_append (state : S) (first second : List E) :
    system.MeetsFrom condition state (first ++ second) ↔
      system.MeetsFrom condition state first ∧
        ∀ middle, system.runFrom? state first = some middle →
          system.MeetsFrom condition middle second := by
  induction first generalizing state with
  | nil => simp [MeetsFrom, runFrom?]
  | cons event rest ih =>
      simp only [List.cons_append, MeetsFrom, runFrom?, ih, Option.bind_eq_some_iff]
      constructor
      · rintro ⟨here, later⟩
        exact ⟨⟨here, fun next stepped => (later next stepped).1⟩,
          fun middle ⟨next, stepped, reached⟩ => (later next stepped).2 middle reached⟩
      · rintro ⟨⟨here, early⟩, late⟩
        exact ⟨here, fun next stepped =>
          ⟨early next stepped, fun middle reached => late middle ⟨next, stepped, reached⟩⟩⟩

theorem meets_snoc (history : List E) (event : E) :
    system.Meets condition (history ++ [event]) ↔
      system.Meets condition history ∧
        ∀ state, system.run? history = some state → condition state event := by
  unfold Meets run?
  rw [meetsFrom_append]
  simp [MeetsFrom]

theorem meets_true (history : List E) : system.Meets (fun _ _ => True) history := by
  induction history using List.reverseRecOn with
  | nil => exact system.meets_nil
  | append_singleton earlier event ih => exact (system.meets_snoc earlier event).mpr ⟨ih, fun _ _ => trivial⟩

theorem meets_congr {first second : S → E → Prop} {history : List E} {state : S}
    (run : system.run? history = some state)
    (same : ∀ earlier state event next, system.run? earlier = some state →
      system.step? state event = some next → (first state event ↔ second state event)) :
    system.Meets first history ↔ system.Meets second history := by
  refine system.run?_induction (motive := fun history _ =>
    (system.Meets first history ↔ system.Meets second history)) ?_ ?_ run
  · exact ⟨fun _ => system.meets_nil, fun _ => system.meets_nil⟩
  · intro earlier middle event next reached ih stepped
    have here := same earlier middle event next reached stepped
    rw [meets_snoc, meets_snoc, ih, reached]
    simp [here]

theorem meets_of_invariant (Inv : S → Prop) (initial : Inv system.init)
    (step : ∀ state event next, Inv state → system.step? state event = some next → Inv next)
    (holds : ∀ state event next, Inv state → system.step? state event = some next →
      condition state event)
    {history : List E} {state : S} (run : system.run? history = some state) :
    system.Meets condition history := by
  refine (system.meets_congr run ?_).mp (system.meets_true history)
  intro earlier middle event next reached stepped
  exact iff_of_true trivial (holds middle event next (system.invariant Inv initial step reached) stepped)

theorem meets_of_append {first second : List E}
    (meets : system.Meets condition (first ++ second)) : system.Meets condition first :=
  ((system.meetsFrom_append system.init first second).mp meets).1

/-- An invariant that needs the condition on each step it is carried over. -/
theorem invariant_of_meets (Inv : S → Prop) (initial : Inv system.init)
    (step : ∀ state event next, Inv state → condition state event →
      system.step? state event = some next → Inv next)
    {history : List E} {state : S} (run : system.run? history = some state)
    (meets : system.Meets condition history) : Inv state := by
  revert meets
  refine system.run?_induction (motive := fun history state =>
    system.Meets condition history → Inv state) (fun _ => initial) ?_ run
  intro earlier middle event next reached ih stepped meets
  obtain ⟨before, here⟩ := (system.meets_snoc earlier event).mp meets
  exact step middle event next (ih before) (here middle reached) stepped

/-- The property holds in every state that the run passes through. -/
def Always (property : S → Prop) (history : List E) : Prop :=
  ∀ earlier, earlier <+: history → ∀ state, system.run? earlier = some state → property state

theorem always_nil {property : S → Prop} (initial : property system.init) :
    system.Always property [] := by
  intro earlier within state reached
  cases List.prefix_nil.mp within
  cases reached
  exact initial

theorem always_snoc {property : S → Prop} {history : List E} {event : E} {state : S}
    (run : system.run? (history ++ [event]) = some state) :
    system.Always property (history ++ [event]) ↔ system.Always property history ∧ property state := by
  constructor
  · intro always
    exact ⟨fun earlier within => always earlier (within.trans (List.prefix_append history [event])),
      always _ List.prefix_rfl state run⟩
  · rintro ⟨before, here⟩ earlier within reached reaches
    rcases List.prefix_concat_iff.mp within with rfl | shorter
    · cases run.symm.trans reaches
      exact here
    · exact before earlier shorter reached reaches

theorem always_congr {first second : S → Prop} {history : List E}
    (same : ∀ earlier state, system.run? earlier = some state → (first state ↔ second state)) :
    system.Always first history ↔ system.Always second history := by
  constructor
  · intro always earlier within state reached
    exact (same earlier state reached).mp (always earlier within state reached)
  · intro always earlier within state reached
    exact (same earlier state reached).mpr (always earlier within state reached)

theorem property_of_always {property : S → Prop} {history : List E} {state : S}
    (always : system.Always property history) (run : system.run? history = some state) :
    property state :=
  always history List.prefix_rfl state run

theorem invariant_of_always (property Inv : S → Prop) (initial : Inv system.init)
    (step : ∀ state event next, Inv state → property next →
      system.step? state event = some next → Inv next)
    {history : List E} {state : S} (run : system.run? history = some state)
    (always : system.Always property history) : Inv state := by
  revert always
  refine system.run?_induction (motive := fun history state =>
    system.Always property history → Inv state) (fun _ => initial) ?_ run
  intro earlier middle event next reached ih stepped always
  have after : system.run? (earlier ++ [event]) = some next := by
    rw [system.run?_snoc, reached]
    exact stepped
  obtain ⟨before, here⟩ := (system.always_snoc after).mp always
  exact step middle event next (ih before) here stepped

/--
Where one step keeps the property exactly if it meets the condition, a run has
the property in every state exactly if all its steps meet the condition.
-/
theorem always_iff_meets {property : S → Prop} {condition : S → E → Prop} (Inv : S → Prop)
    (holds : property system.init) (initial : Inv system.init)
    (invariant : ∀ state event next, Inv state → system.step? state event = some next → Inv next)
    (step : ∀ state event next, Inv state → property state →
      system.step? state event = some next → (property next ↔ condition state event))
    {history : List E} {state : S} (run : system.run? history = some state) :
    system.Always property history ↔ system.Meets condition history := by
  suffices both : Inv state ∧
      (system.Always property history ↔ system.Meets condition history) from both.2
  refine system.run?_induction (motive := fun history state => Inv state ∧
    (system.Always property history ↔ system.Meets condition history)) ?_ ?_ run
  · exact ⟨initial, fun _ => system.meets_nil, fun _ => system.always_nil holds⟩
  · rintro earlier middle event next reached ⟨inv, same⟩ stepped
    have after : system.run? (earlier ++ [event]) = some next := by
      rw [system.run?_snoc, reached]
      exact stepped
    refine ⟨invariant middle event next inv stepped, ?_⟩
    rw [system.always_snoc after, system.meets_snoc]
    constructor
    · rintro ⟨before, here⟩
      refine ⟨same.mp before, fun state reaches => ?_⟩
      cases reached.symm.trans reaches
      have held := system.property_of_always before reached
      exact (step middle event next inv held stepped).mp here
    · rintro ⟨before, here⟩
      have always := same.mpr before
      have held := system.property_of_always always reached
      exact ⟨always, (step middle event next inv held stepped).mpr (here middle reached)⟩

/-- The system with a record of its steps, which no step reads. -/
def recording {G : Type} (start : G) (record : S → E → G → G) : System (S × G) E where
  init := (system.init, start)
  step? state event :=
    (system.step? state.1 event).map fun next => (next, record state.1 event state.2)

section Recording

variable {G : Type} {start : G} {record : S → E → G → G}

theorem run?_of_recording {history : List E} {state : S × G}
    (run : (system.recording start record).run? history = some state) :
    system.run? history = some state.1 := by
  refine (system.recording start record).run?_induction
    (motive := fun history state => system.run? history = some state.1) rfl ?_ run
  intro earlier middle event next _ ih stepped
  obtain ⟨after, moved, rfl⟩ := Option.map_eq_some_iff.mp stepped
  rw [system.run?_snoc, ih]
  exact moved

theorem exists_recording {history : List E} {state : S} (run : system.run? history = some state) :
    ∃ kept, (system.recording start record).run? history = some (state, kept) := by
  refine system.run?_induction (motive := fun history state =>
    ∃ kept, (system.recording start record).run? history = some (state, kept)) ⟨start, rfl⟩ ?_ run
  rintro earlier middle event next _ ⟨kept, reached⟩ stepped
  refine ⟨record middle event kept, ?_⟩
  rw [run?_snoc, reached]
  exact Option.map_eq_some_iff.mpr ⟨next, stepped, rfl⟩

end Recording

end System

/--
A relation carried along matching steps: whenever the concrete system takes an
event that meets the condition, the abstract system takes it too.
-/
structure Simulation {S A E : Type} (concrete : System S E) (abstract : System A E)
    (condition : S → E → Prop) where
  related : S → A → Prop
  initial : related concrete.init abstract.init
  step : ∀ state image event next, related state image → condition state event →
    concrete.step? state event = some next →
      ∃ nextImage, abstract.step? image event = some nextImage ∧ related next nextImage

/-- A simulation lifts from steps to runs. -/
theorem Simulation.run {S A E : Type} {concrete : System S E} {abstract : System A E}
    {condition : S → E → Prop} (simulation : Simulation concrete abstract condition)
    {history : List E} {state : S} (run : concrete.run? history = some state)
    (meets : concrete.Meets condition history) :
    ∃ image, abstract.run? history = some image ∧ simulation.related state image := by
  revert meets
  refine concrete.run?_induction (motive := fun history state =>
    concrete.Meets condition history →
      ∃ image, abstract.run? history = some image ∧ simulation.related state image)
    (fun _ => ⟨_, rfl, simulation.initial⟩) ?_ run
  intro earlier middle event next reached ih stepped meets
  obtain ⟨before, here⟩ := (concrete.meets_snoc earlier event).mp meets
  obtain ⟨image, imageReached, related⟩ := ih before
  obtain ⟨nextImage, imageStepped, nextRelated⟩ :=
    simulation.step middle image event next related (here middle reached) stepped
  refine ⟨nextImage, ?_, nextRelated⟩
  rw [abstract.run?_snoc, imageReached]
  exact imageStepped

end RustDemo.Transition
