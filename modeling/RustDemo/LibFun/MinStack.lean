import RustDemo.Collections.MinStack
import Mathlib.Order.Basic

/-!
# The three `Min` stacks

`get_min` links nodes and compares `get_val` keys, `lls_get_min` keeps two
`LinkedListStack<i32>`, and `lls_get_min_t` two `LinkedListStack<T>` with
`cmp::min`.  The lines they print are left out.
-/

namespace RustDemo.LibFun

open RustDemo.Collections

namespace GetMin

structure Node (T : Type) where
  val : T
  next : Option (Node T)

def Node.new {T : Type} (value : T) : Node T := { val := value, next := none }

structure Min (T : Type) where
  top : Option (Node T)
  minTop : Option (Node T)

def Node.vals {T : Type} : Node T → List T
  | ⟨val, none⟩ => [val]
  | ⟨val, some next⟩ => val :: next.vals

def vals {T : Type} : Option (Node T) → List T
  | none => []
  | some node => node.vals

theorem vals_some {T : Type} (val : T) (next : Option (Node T)) :
    vals (some ⟨val, next⟩) = val :: vals next := by
  cases next with
  | none => simp only [vals, Node.vals]
  | some node => simp only [vals, Node.vals]

namespace Min

variable {T : Type}

def new : Min T := { top := none, minTop := none }

def push (getVal : T → Int32) (min : Min T) (val : T) : Min T :=
  let node := { Node.new val with next := min.top }
  let top := some node
  let nextTop := min.minTop
  let newV :=
    match nextTop with
    | none => val
    | some x => if getVal val ≤ getVal x.val then val else x.val
  let nodeTop := { Node.new newV with next := nextTop }
  { top := top, minTop := some nodeTop }

/-- `take()` of a chain of nodes: the value on top, and what is left. -/
def takeTop (chain : Option (Node T)) : Option T × Option (Node T) :=
  match chain with
  | none => (none, none)
  | some x => (some x.val, x.next)

def pop (min : Min T) : (Option T × Option T) × Min T :=
  let (top, rest) := takeTop min.top
  let (top1, rest1) := takeTop min.minTop
  ((top, top1), { top := rest, minTop := rest1 })

theorem takeTop_eq (chain : Option (Node T)) :
    (takeTop chain).1 = (vals chain).head? ∧ vals (takeTop chain).2 = (vals chain).tail := by
  cases chain with
  | none => exact ⟨rfl, rfl⟩
  | some node =>
      cases node with
      | mk val next =>
          rw [vals_some]
          exact ⟨rfl, rfl⟩

def stack (getVal : T → Int32) : MinStack T where
  State := Min T
  new := new
  push := push getVal
  pop := pop
  top min := vals min.top
  help min := vals min.minTop

theorem refines (getVal : T → Int32) :
    (stack getVal).Refines fun a b => getVal a ≤ getVal b where
  top_new := rfl
  help_new := rfl
  top_push min val := vals_some val min.top
  help_push min val := by
    show vals (push getVal min val).minTop = lesser _ val (vals min.minTop).head? :: vals min.minTop
    rw [← (takeTop_eq min.minTop).1]
    cases held : min.minTop with
    | none =>
        simp only [push, held]
        exact vals_some _ _
    | some node =>
        simp only [push, held]
        exact vals_some _ _
  pop_eq min := Prod.ext (takeTop_eq min.top).1 (takeTop_eq min.minTop).1
  top_pop min := (takeTop_eq min.top).2
  help_pop min := (takeTop_eq min.minTop).2

end Min

end GetMin

/-- The front of the `LinkedList` is the top. -/
structure LinkedListStack (T : Type) where
  top : List T

namespace LinkedListStack

variable {T : Type}

def new : LinkedListStack T := { top := [] }

def push (stack : LinkedListStack T) (val : T) : LinkedListStack T := { top := val :: stack.top }

def pop (stack : LinkedListStack T) : Option T × LinkedListStack T :=
  (stack.top.head?, { top := stack.top.tail })

end LinkedListStack

namespace LlsGetMin

structure Min where
  top : LinkedListStack Int32
  help : LinkedListStack Int32

namespace Min

def new : Min := { top := .new, help := .new }

def push (min : Min) (val : Int32) : Min :=
  let top := min.top.push val
  let (popped, help) := min.help.pop
  let (n, help) :=
    match popped with
    | none => (val, help)
    | some x => (if x ≥ val then val else x, help.push x)
  { top := top, help := help.push n }

def pop (min : Min) : (Option Int32 × Option Int32) × Min :=
  let (val, top) := min.top.pop
  let (least, help) := min.help.pop
  ((val, least), { top := top, help := help })

def stack : MinStack Int32 where
  State := Min
  new := new
  push := push
  pop := pop
  top min := min.top.top
  help min := min.help.top

theorem refines : stack.Refines (· ≤ ·) where
  top_new := rfl
  help_new := rfl
  top_push _ _ := rfl
  help_push min val := by
    cases min with
    | mk top help =>
        cases help with
        | mk help =>
            cases help with
            | nil => rfl
            | cons least rest => rfl
  pop_eq _ := rfl
  top_pop _ := rfl
  help_pop _ := rfl

end Min

end LlsGetMin

namespace LlsGetMinT

structure Min (T : Type) where
  top : LinkedListStack T
  help : LinkedListStack T

namespace Min

variable {T : Type}

def new : Min T := { top := .new, help := .new }

/-- `cmp::min`: the first of equal values. -/
def cmpMin [Ord T] (v1 v2 : T) : T :=
  match compare v1 v2 with
  | .lt => v1
  | .eq => v1
  | .gt => v2

def push [Ord T] (min : Min T) (val : T) : Min T :=
  let top := min.top.push val
  let (popped, help) := min.help.pop
  let (n, help) :=
    match popped with
    | none => (val, help)
    | some x => (cmpMin val x, help.push x)
  { top := top, help := help.push n }

def pop (min : Min T) : (Option T × Option T) × Min T :=
  let (val, top) := min.top.pop
  let (least, help) := min.help.pop
  ((val, least), { top := top, help := help })

def stack (T : Type) [Ord T] : MinStack T where
  State := Min T
  new := new
  push := push
  pop := pop
  top min := min.top.top
  help min := min.help.top

theorem cmpMin_eq [Ord T] (v1 v2 : T) :
    cmpMin v1 v2 = if (compare v1 v2).isLE then v1 else v2 := by
  rw [cmpMin]
  cases compare v1 v2 with
  | lt => rfl
  | eq => rfl
  | gt => rfl

theorem refines [Ord T] : (stack T).Refines fun a b => (compare a b).isLE where
  top_new := rfl
  help_new := rfl
  top_push _ _ := rfl
  help_push min val := by
    cases min with
    | mk top help =>
        cases help with
        | mk help =>
            cases help with
            | nil => rfl
            | cons least rest =>
                show cmpMin val least :: least :: rest = _
                rw [cmpMin_eq]
                rfl
  pop_eq _ := rfl
  top_pop _ := rfl
  help_pop _ := rfl

end Min

end LlsGetMinT

/-! ## All three -/

/-- The three stacks are correct, and on the same `i32` values they return the same. -/
theorem min_stacks_correct {T U : Type} (getVal : T → Int32) [Ord U] [Std.TransOrd U] :
    (GetMin.Min.stack getVal).Correct (fun a b => getVal a ≤ getVal b) ∧
    LlsGetMin.Min.stack.Correct (· ≤ ·) ∧
    (LlsGetMinT.Min.stack U).Correct (fun a b => (compare a b).isLE) ∧
    ∀ ops : List (StackOp T),
      ((GetMin.Min.stack getVal).results ops).map
          (Prod.map (Option.map getVal) (Option.map getVal)) =
        LlsGetMin.Min.stack.results (ops.map (StackOp.map getVal)) ∧
      (LlsGetMinT.Min.stack Int32).results (ops.map (StackOp.map getVal)) =
        LlsGetMin.Min.stack.results (ops.map (StackOp.map getVal)) := by
  refine ⟨?_, ?_, ?_, fun ops => ⟨?_, ?_⟩⟩
  · exact (GetMin.Min.refines getVal).correct (fun a b => Int32.le_total _ _)
      fun first second => Int32.le_trans first second
  · exact LlsGetMin.Min.refines.correct Int32.le_total fun first second =>
      Int32.le_trans first second
  · refine LlsGetMinT.Min.refines.correct (fun a b => ?_) fun first second =>
      Std.TransOrd.isLE_trans first second
    rw [← Std.OrientedCmp.isGE_iff_isLE (a := a) (b := b)]
    cases compare a b with
    | lt => exact Or.inl rfl
    | eq => exact Or.inl rfl
    | gt => exact Or.inr rfl
  · rw [(GetMin.Min.refines getVal).results_eq, LlsGetMin.Min.refines.results_eq]
    exact map_answers getVal (fun _ _ => Iff.rfl) [] ops
  · rw [LlsGetMinT.Min.refines.results_eq, LlsGetMin.Min.refines.results_eq]
    have same : (answers (fun a b : Int32 => (compare a b).isLE) []
          (ops.map (StackOp.map getVal))).map (Prod.map (Option.map id) (Option.map id)) =
        answers (· ≤ ·) [] ((ops.map (StackOp.map getVal)).map (StackOp.map id)) :=
      map_answers id (fun a b => Std.isLE_compare) [] (ops.map (StackOp.map getVal))
    simpa using same

theorem min_stacks_correct_int32 :
    (GetMin.Min.stack (id : Int32 → Int32)).Correct (fun a b => a ≤ b) ∧
    LlsGetMin.Min.stack.Correct (· ≤ ·) ∧
    (LlsGetMinT.Min.stack Nat).Correct (fun a b => (compare a b).isLE) ∧
    ∀ ops : List (StackOp Int32),
      ((GetMin.Min.stack id).results ops).map (Prod.map (Option.map id) (Option.map id)) =
        LlsGetMin.Min.stack.results (ops.map (StackOp.map id)) ∧
      (LlsGetMinT.Min.stack Int32).results (ops.map (StackOp.map id)) =
        LlsGetMin.Min.stack.results (ops.map (StackOp.map id)) :=
  min_stacks_correct id

end RustDemo.LibFun
