import RustDemo.LibFun.Sorting

/-!
# Every iteration of `q_sort`

What the variables of the loop are at each of its tests, in calls that return
and in calls that do not, for every start position of the pivot.
-/

namespace RustDemo.LibFun

open RustDemo.Collections RustDemo.Programs

variable {α : Type} [LinearOrder α]

/-- The variables at a test of the loop on the positions from `left` to `right`. -/
structure Iterating (before : Array α) (left right : Nat) (scan : Scan α) : Prop where
  bounds : left ≤ scan.l ∧ scan.l ≤ scan.r ∧ scan.r ≤ right
  pivot_between : scan.l ≤ scan.pivotI ∧ scan.pivotI ≤ scan.r
  less : ∀ k x pivot, left ≤ k → k < scan.l → scan.slice[k]? = some x →
    scan.slice[scan.pivotI]? = some pivot → x < pivot
  greater : ∀ k x pivot, scan.r < k → k ≤ right → scan.slice[k]? = some x →
    scan.slice[scan.pivotI]? = some pivot → pivot < x
  perm : scan.slice.Perm before
  outside : ∀ k, k < left ∨ right < k → scan.slice[k]? = before[k]?
  no_panic : scan.step ≠ .panicked

section Iterating

variable {before : Array α} {left right : Nat} {pivot : α} {scan : Scan α}

theorem Scanning.iterating (scanning : Scanning before left right pivot scan) :
    Iterating before left right scan where
  bounds := ⟨scanning.left_le, scanning.l_le_r, scanning.r_le⟩
  pivot_between := ⟨scanning.l_le_pivotI, scanning.pivotI_le_r⟩
  less k x other low below found there := by
    cases scanning.pivot_eq.symm.trans there
    exact scanning.less k x low below found
  greater k x other above high found there := by
    cases scanning.pivot_eq.symm.trans there
    exact scanning.greater k x above high found
  perm := scanning.rearranged.perm
  outside k apart := scanning.rearranged.outside apart
  no_panic := by
    obtain ⟨out, returned, -⟩ := scanning.exists_stepped
    rw [returned]
    nofun

theorem Scanning.met {after : Scan α} (scanning : Scanning before left right pivot scan)
    (ends : scan.step = .returned (.inr after)) :
    after = scan ∧ scan.pivotI = scan.l ∧ scan.l = scan.r := by
  obtain ⟨out, returned, stepped⟩ := scanning.exists_stepped
  cases ends.symm.trans returned
  cases stepped with
  | left test met =>
      have order := scanning.l_le_r
      have low := scanning.l_le_pivotI
      have high := scanning.pivotI_le_r
      exact ⟨rfl, by omega, by omega⟩

end Iterating

/--
The partition loop.  A call on positions of the slice finds a start position
for its pivot and comes to its loop.  The invariant holds at every test of the
loop, in every round, also where the loop does not end; where it ends, `l`, `r`
and the pivot have met.  No call panics: no index is out of bounds, and no
difference below zero.
-/
theorem partition_loop (slice : Array α) {left right : Nat} (ordered : left ≤ right)
    (inside : right < slice.size) :
    (∃ pivotI, medianOfThree slice left right = .returned pivotI ∧
      (∀ scan, Visits Scan.step ⟨slice, left, right, pivotI, .outer⟩ scan →
        Iterating slice left right scan) ∧
      ∀ fuel after, loop Scan.step fuel ⟨slice, left, right, pivotI, .outer⟩ = .returned after →
        Iterating slice left right after ∧ after.pivotI = after.l ∧ after.l = after.r) ∧
    ∀ fuel, qSort fuel slice left right ≠ .panicked := by
  constructor
  · obtain ⟨pivotI, median, low, high⟩ := exists_medianOfThree ordered inside
    have found : slice[pivotI]? = some slice[pivotI] := Array.getElem?_eq_getElem (by omega)
    have start := scanning_start inside low high found
    have always : ∀ scan, Visits Scan.step ⟨slice, left, right, pivotI, .outer⟩ scan →
        Scanning slice left right slice[pivotI] scan :=
      fun scan => Visits.invariant (fun _ scanning => scanning.round) start
    refine ⟨pivotI, median, fun scan visits => (always scan visits).iterating, ?_⟩
    intro fuel after returned
    obtain ⟨scan, visits, ends⟩ := exists_visits_of_loop returned
    obtain ⟨rfl, atPivot, met⟩ := (always scan visits).met ends
    exact ⟨(always after visits).iterating, atPivot, met⟩
  · intro fuel panics
    rcases qSort_safe fuel ordered inside with unfinished | ⟨sorted, returned, -⟩
    · cases panics.symm.trans unfinished
    · cases panics.symm.trans returned

/-- Two equal elements, which the loop swaps without end. -/
theorem partition_loop_equal :
    (∃ pivotI, medianOfThree #[1, 1] 0 1 = .returned pivotI ∧
      (∀ scan, Visits Scan.step ⟨#[1, 1], 0, 1, pivotI, .outer⟩ scan →
        Iterating #[1, 1] 0 1 scan) ∧
      ∀ fuel after, loop Scan.step fuel ⟨#[1, 1], 0, 1, pivotI, .outer⟩ = .returned after →
        Iterating #[1, 1] 0 1 after ∧ after.pivotI = after.l ∧ after.l = after.r) ∧
    ∀ fuel, qSort fuel #[1, 1] 0 1 ≠ .panicked :=
  partition_loop #[1, 1] (by decide) (by decide)

end RustDemo.LibFun
