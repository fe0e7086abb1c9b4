import Mathlib.Order.Lattice
import RustDemo.Programs.Outcome
import Mathlib.Order.Nat

/-!
# Quicksort

`q_sort` moves a pivot between two positions that close in on each other, and
then sorts what is left and right of it.  Its loop is cut at its three tests.
Positions are natural numbers: a slice is no longer than `isize::MAX` bytes, so
the sum of two of its positions does not overflow.
-/

namespace RustDemo.LibFun

open RustDemo.Programs

section Slice

variable {α : Type}

/-- `slice[i]` -/
def index (slice : Array α) (i : Nat) : Outcome α :=
  match slice[i]? with
  | some x => .returned x
  | none => .panicked

/-- `slice.swap(i, j)` -/
def swap (slice : Array α) (i j : Nat) : Outcome (Array α) :=
  if inside : i < slice.size ∧ j < slice.size then
    .returned (slice.swap i j inside.1 inside.2)
  else .panicked

/-- The difference of two `usize`. -/
def minus (a b : Nat) : Outcome Nat := if b ≤ a then .returned (a - b) else .panicked

theorem index_eq {slice : Array α} {i : Nat} {x : α} (found : slice[i]? = some x) :
    index slice i = .returned x := by
  rw [index, found]

theorem swap_eq {slice : Array α} {i j : Nat} (iIn : i < slice.size) (jIn : j < slice.size) :
    swap slice i j = .returned (slice.swap i j) := dif_pos ⟨iIn, jIn⟩

theorem minus_eq {a b : Nat} (le : b ≤ a) : minus a b = .returned (a - b) := if_pos le

end Slice

/-- The test of the loop that comes next: `while l < r`, or the one that lowers `r` or raises `l`. -/
inductive Test where
  | outer
  | lower
  | raise
  deriving DecidableEq

/-- The variables of the loop. -/
structure Scan (α : Type) where
  slice : Array α
  l : Nat
  r : Nat
  pivotI : Nat
  test : Test

section Sorting

variable {α : Type} [LinearOrder α]

/-- The position of the median of the first, the middle and the last element. -/
def medianOfThree (slice : Array α) (left right : Nat) : Outcome Nat := do
  let p1I := left
  let p2I := (left + right) / 2
  let p3I := right
  if (← index slice p1I) < (← index slice p2I) then
    if (← index slice p3I) < (← index slice p2I) then
      if (← index slice p1I) < (← index slice p3I) then pure p3I else pure p1I
    else pure p2I
  else
    if (← index slice p3I) < (← index slice p1I) then
      if (← index slice p2I) < (← index slice p3I) then pure p3I else pure p2I
    else pure p1I

/-- From one test of the loop to the next, or out of the loop. -/
def Scan.step (scan : Scan α) : Outcome (Scan α ⊕ Scan α) :=
  match scan.test with
  | .outer =>
      if scan.l < scan.r then pure (.inl { scan with test := .lower }) else pure (.inr scan)
  | .lower => do
      let pivot ← index scan.slice scan.pivotI
      let last ← index scan.slice scan.r
      if pivot < last ∧ scan.l < scan.r then
        let r ← minus scan.r 1
        pure (.inl { scan with r := r })
      else if scan.l ≠ scan.r then
        let slice ← swap scan.slice scan.pivotI scan.r
        pure (.inl { scan with slice := slice, pivotI := scan.r, test := .raise })
      else pure (.inl { scan with test := .raise })
  | .raise => do
      let first ← index scan.slice scan.l
      let pivot ← index scan.slice scan.pivotI
      if first < pivot ∧ scan.l < scan.r then
        pure (.inl { scan with l := scan.l + 1 })
      else if scan.l ≠ scan.r then
        let slice ← swap scan.slice scan.pivotI scan.l
        pure (.inl { scan with slice := slice, pivotI := scan.l, test := .outer })
      else pure (.inl { scan with test := .outer })

/-- `q_sort`, with fuel for its loop and for the depth of its recursion. -/
def qSort : Nat → Array α → Nat → Nat → Outcome (Array α)
  | 0, _, _, _ => .unfinished
  | fuel + 1, slice, left, right => do
      let pivotI ← medianOfThree slice left right
      let scan ← loop Scan.step fuel ⟨slice, left, right, pivotI, .outer⟩
      let slice ←
        if left < scan.l then do qSort fuel scan.slice left (← minus scan.l 1)
        else pure scan.slice
      if right > scan.l then qSort fuel slice (scan.l + 1) right else pure slice

def quicksort (fuel : Nat) (slice : Array α) : Outcome (Array α) := do
  let last ← minus slice.size 1
  qSort fuel slice 0 last

end Sorting

/-- The numbers of `test`. -/
example : quicksort 30 #[5, 3, 1, 6, 8, 4, 7, 2] = .returned #[1, 2, 3, 4, 5, 6, 7, 8] := by decide

end RustDemo.LibFun
