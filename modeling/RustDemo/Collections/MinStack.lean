import Mathlib.Data.List.Basic

/-!
# Stacks that know their least element

Beside the stack of values a helper stack keeps, for each value, the least of
the value and all below it.  Of equal elements the latest is the least.  The
order is any total preorder: elements may be equal in it and differ.
-/

namespace RustDemo.Collections

section Least

variable {α : Type}

/-- The new value, unless the old least element is less. -/
def lesser (le : α → α → Prop) [DecidableRel le] (value : α) : Option α → α
  | none => value
  | some least => if le value least then value else least

/-- The helper stack of a stack of values. -/
def mins (le : α → α → Prop) [DecidableRel le] : List α → List α
  | [] => []
  | value :: older => lesser le value (mins le older).head? :: mins le older

/-- A least one of the values, and the latest of those. -/
structure LatestLeast (le : α → α → Prop) (values newer : List α) (least : α) (older : List α) :
    Prop where
  parts : values = newer ++ least :: older
  newer_greater : ∀ value ∈ newer, ¬ le value least
  older_ge : ∀ value ∈ older, le least value

variable {le : α → α → Prop} [DecidableRel le]

theorem length_mins (values : List α) : (mins le values).length = values.length := by
  induction values with
  | nil => rfl
  | cons value older ih => rw [mins, List.length_cons, List.length_cons, ih]

theorem exists_latestLeast (total : ∀ a b, le a b ∨ le b a)
    (trans : ∀ {a b c}, le a b → le b c → le a c) (top : α) (rest : List α) :
    ∃ least newer older, (mins le (top :: rest)).head? = some least ∧
      LatestLeast le (top :: rest) newer least older := by
  induction rest generalizing top with
  | nil =>
      exact ⟨top, [], [], rfl, rfl, List.forall_mem_nil _, List.forall_mem_nil _⟩
  | cons below rest ih =>
      obtain ⟨least, newer, older, head, latest⟩ := ih below
      rw [mins, head, lesser]
      by_cases keeps : le top least
      · rw [if_pos keeps]
        refine ⟨top, [], below :: rest, rfl, rfl, List.forall_mem_nil _, ?_⟩
        intro value among
        rw [latest.parts, List.mem_append, List.mem_cons] at among
        rcases among with isNewer | rfl | isOlder
        · have less := (total least value).resolve_right (latest.newer_greater value isNewer)
          exact trans keeps less
        · exact keeps
        · exact trans keeps (latest.older_ge value isOlder)
      · rw [if_neg keeps]
        refine ⟨least, top :: newer, older, rfl, ?_, ?_, latest.older_ge⟩
        · rw [latest.parts]
          rfl
        · intro value among
          rcases List.mem_cons.mp among with rfl | isNewer
          · exact keeps
          · exact latest.newer_greater value isNewer

theorem map_mins {β : Type} {keyLe : β → β → Prop} [DecidableRel keyLe] {key : α → β}
    (byKey : ∀ a b, le a b ↔ keyLe (key a) (key b)) (values : List α) :
    (mins le values).map key = mins keyLe (values.map key) := by
  induction values with
  | nil => rfl
  | cons value older ih =>
      rw [mins, List.map_cons, List.map_cons, mins, ← ih, List.head?_map]
      congr 1
      cases (mins le older).head? with
      | none => rfl
      | some least =>
          rw [Option.map_some, lesser, lesser, apply_ite key]
          exact if_congr (byKey value least) rfl rfl

end Least

/-! ## Operations -/

inductive StackOp (α : Type) where
  | push (value : α)
  | pop
  deriving DecidableEq

def StackOp.map {α β : Type} (key : α → β) : StackOp α → StackOp β
  | .push value => .push (key value)
  | .pop => .pop

@[simp] theorem StackOp.map_id {α : Type} : StackOp.map (id : α → α) = id := by
  funext op
  cases op with
  | push value => rfl
  | pop => rfl

section Present

variable {α β : Type}

def present : List α → List (StackOp α) → List α
  | values, [] => values
  | values, .push value :: later => present (value :: values) later
  | values, .pop :: later => present values.tail later

/-- What each of the pops should return. -/
def answers (le : α → α → Prop) [DecidableRel le] :
    List α → List (StackOp α) → List (Option α × Option α)
  | _, [] => []
  | values, .push value :: later => answers le (value :: values) later
  | values, .pop :: later => (values.head?, (mins le values).head?) :: answers le values.tail later

theorem map_answers {le : α → α → Prop} [DecidableRel le] {keyLe : β → β → Prop}
    [DecidableRel keyLe] (key : α → β) (byKey : ∀ a b, le a b ↔ keyLe (key a) (key b))
    (values : List α) (ops : List (StackOp α)) :
    (answers le values ops).map (Prod.map (Option.map key) (Option.map key)) =
      answers keyLe (values.map key) (ops.map (StackOp.map key)) := by
  induction ops generalizing values with
  | nil => rfl
  | cons op later ih =>
      cases op with
      | push value => exact ih (value :: values)
      | pop =>
          rw [answers, List.map_cons, List.map_cons, StackOp.map, answers, ih, List.map_tail,
            ← map_mins byKey, List.head?_map, List.head?_map]
          rfl

end Present

/-- A stack with its least element, and the two stacks it is made of, the latest value first. -/
structure MinStack (α : Type) where
  State : Type
  new : State
  push : State → α → State
  pop : State → (Option α × Option α) × State
  top : State → List α
  help : State → List α

namespace MinStack

variable {α : Type}

def apply (stack : MinStack α) (state : stack.State) : StackOp α → stack.State
  | .push value => stack.push state value
  | .pop => (stack.pop state).2

/-- The stack after operations from `new()` on. -/
def after (stack : MinStack α) (ops : List (StackOp α)) : stack.State :=
  ops.foldl stack.apply stack.new

def replies (stack : MinStack α) : stack.State → List (StackOp α) → List (Option α × Option α)
  | _, [] => []
  | state, .push value :: later => stack.replies (stack.push state value) later
  | state, .pop :: later => (stack.pop state).1 :: stack.replies (stack.pop state).2 later

/-- What the pops return, from `new()` on. -/
def results (stack : MinStack α) (ops : List (StackOp α)) : List (Option α × Option α) :=
  stack.replies stack.new ops

/-- What each operation does to the two stacks. -/
structure Refines (le : α → α → Prop) [DecidableRel le] (stack : MinStack α) : Prop where
  top_new : stack.top stack.new = []
  help_new : stack.help stack.new = []
  top_push : ∀ state value, stack.top (stack.push state value) = value :: stack.top state
  help_push : ∀ state value, stack.help (stack.push state value) =
    lesser le value (stack.help state).head? :: stack.help state
  pop_eq : ∀ state, (stack.pop state).1 = ((stack.top state).head?, (stack.help state).head?)
  top_pop : ∀ state, stack.top (stack.pop state).2 = (stack.top state).tail
  help_pop : ∀ state, stack.help (stack.pop state).2 = (stack.help state).tail

/-- What is promised of the pops, after any operations. -/
structure Correct (le : α → α → Prop) (stack : MinStack α) : Prop where
  none_iff : ∀ ops, (stack.pop (stack.after ops)).1 = (none, none) ↔ present [] ops = []
  pops : ∀ ops top rest, present [] ops = top :: rest → ∃ least newer older,
    (stack.pop (stack.after ops)).1 = (some top, some least) ∧
      LatestLeast le (top :: rest) newer least older
  same_length : ∀ ops,
    (stack.top (stack.after ops)).length = (stack.help (stack.after ops)).length

namespace Refines

variable {le : α → α → Prop} [DecidableRel le] {stack : MinStack α}

theorem help_apply (refines : stack.Refines le) {state : stack.State}
    (held : stack.help state = mins le (stack.top state)) (op : StackOp α) :
    stack.help (stack.apply state op) = mins le (stack.top (stack.apply state op)) := by
  cases op with
  | push value =>
      rw [apply, refines.help_push, refines.top_push, mins, held]
  | pop =>
      rw [apply, refines.help_pop, refines.top_pop, held]
      cases stack.top state with
      | nil => rfl
      | cons top rest => rfl

theorem top_foldl (refines : stack.Refines le) (state : stack.State) (ops : List (StackOp α)) :
    stack.top (ops.foldl stack.apply state) = present (stack.top state) ops := by
  induction ops generalizing state with
  | nil => rfl
  | cons op later ih =>
      rw [List.foldl_cons, ih]
      cases op with
      | push value => rw [apply, refines.top_push, present]
      | pop => rw [apply, refines.top_pop, present]

theorem help_foldl (refines : stack.Refines le) {state : stack.State}
    (held : stack.help state = mins le (stack.top state)) (ops : List (StackOp α)) :
    stack.help (ops.foldl stack.apply state) = mins le (stack.top (ops.foldl stack.apply state)) := by
  induction ops generalizing state with
  | nil => exact held
  | cons op later ih => exact ih (refines.help_apply held op)

theorem help_new_eq (refines : stack.Refines le) :
    stack.help stack.new = mins le (stack.top stack.new) := by
  rw [refines.help_new, refines.top_new]
  rfl

theorem pop_after (refines : stack.Refines le) (ops : List (StackOp α)) :
    (stack.pop (stack.after ops)).1 =
      ((present [] ops).head?, (mins le (present [] ops)).head?) := by
  rw [refines.pop_eq, after, refines.help_foldl refines.help_new_eq, refines.top_foldl,
    refines.top_new]

theorem correct (refines : stack.Refines le) (total : ∀ a b, le a b ∨ le b a)
    (trans : ∀ {a b c}, le a b → le b c → le a c) : stack.Correct le where
  none_iff ops := by
    rw [refines.pop_after]
    cases present [] ops with
    | nil => exact iff_of_true rfl rfl
    | cons top rest =>
        exact iff_of_false (fun both => nomatch congrArg Prod.fst both) (List.cons_ne_nil top rest)
  pops ops top rest here := by
    obtain ⟨least, newer, older, head, latest⟩ := exists_latestLeast total trans top rest
    refine ⟨least, newer, older, ?_, latest⟩
    rw [refines.pop_after, here, head, List.head?_cons]
  same_length ops := by
    rw [after, refines.help_foldl refines.help_new_eq, length_mins]

theorem replies_eq (refines : stack.Refines le) {state : stack.State}
    (held : stack.help state = mins le (stack.top state)) (ops : List (StackOp α)) :
    stack.replies state ops = answers le (stack.top state) ops := by
  induction ops generalizing state with
  | nil => rfl
  | cons op later ih =>
      have next := ih (refines.help_apply held op)
      cases op with
      | push value =>
          rw [apply, refines.top_push] at next
          exact next
      | pop =>
          rw [apply, refines.top_pop] at next
          rw [replies, answers, next, refines.pop_eq, held]

theorem results_eq (refines : stack.Refines le) (ops : List (StackOp α)) :
    stack.results ops = answers le [] ops := by
  rw [results, refines.replies_eq refines.help_new_eq, refines.top_new]

end Refines

end MinStack

end RustDemo.Collections
