import RustDemo.Collections.Rearranged
import RustDemo.LibFun.QSort

/-!
# The loop of `q_sort`

At every test of the loop the elements before `l` are less than the pivot, and
those behind `r` are greater.  Where no element of the range occurs twice the
loop ends; where the pivot occurs twice it cannot.
-/

namespace RustDemo.LibFun

open RustDemo.Collections RustDemo.Programs

variable {α : Type} [LinearOrder α]

/-- What holds at every test of the loop on the positions from `left` to `right`. -/
structure Scanning (before : Array α) (left right : Nat) (pivot : α) (scan : Scan α) : Prop where
  right_lt : right < before.size
  left_le : left ≤ scan.l
  l_le_r : scan.l ≤ scan.r
  r_le : scan.r ≤ right
  l_le_pivotI : scan.l ≤ scan.pivotI
  pivotI_le_r : scan.pivotI ≤ scan.r
  rearranged : Rearranged left right before scan.slice
  pivot_eq : scan.slice[scan.pivotI]? = some pivot
  less : ∀ k x, left ≤ k → k < scan.l → scan.slice[k]? = some x → x < pivot
  greater : ∀ k x, scan.r < k → k ≤ right → scan.slice[k]? = some x → pivot < x
  raising : scan.test = .raise → scan.pivotI = scan.r

inductive Stepped (pivot : α) (scan : Scan α) : Scan α ⊕ Scan α → Prop where
  | left (test : scan.test = .outer) (met : ¬ scan.l < scan.r) : Stepped pivot scan (.inr scan)
  | entered (test : scan.test = .outer) (apart : scan.l < scan.r) :
      Stepped pivot scan (.inl { scan with test := .lower })
  | lowered (test : scan.test = .lower) {last : α} (found : scan.slice[scan.r]? = some last)
      (above : pivot < last) (apart : scan.l < scan.r) :
      Stepped pivot scan (.inl { scan with r := scan.r - 1, test := .lower })
  | swappedLast (test : scan.test = .lower) {last : α} (found : scan.slice[scan.r]? = some last)
      (notAbove : ¬ pivot < last) (apart : scan.l < scan.r) (pivotIn : scan.pivotI < scan.slice.size)
      (rIn : scan.r < scan.slice.size) :
      Stepped pivot scan (.inl { scan with
        slice := scan.slice.swap scan.pivotI scan.r, pivotI := scan.r, test := .raise })
  | lowest (test : scan.test = .lower) (met : scan.l = scan.r) :
      Stepped pivot scan (.inl { scan with test := .raise })
  | raised (test : scan.test = .raise) {first : α} (found : scan.slice[scan.l]? = some first)
      (below : first < pivot) (apart : scan.l < scan.r) :
      Stepped pivot scan (.inl { scan with l := scan.l + 1, test := .raise })
  | swappedFirst (test : scan.test = .raise) {first : α}
      (found : scan.slice[scan.l]? = some first) (notBelow : ¬ first < pivot)
      (apart : scan.l < scan.r) (pivotIn : scan.pivotI < scan.slice.size)
      (lIn : scan.l < scan.slice.size) :
      Stepped pivot scan (.inl { scan with
        slice := scan.slice.swap scan.pivotI scan.l, pivotI := scan.l, test := .outer })
  | highest (test : scan.test = .raise) (met : scan.l = scan.r) :
      Stepped pivot scan (.inl { scan with test := .outer })

namespace Scanning

variable {before : Array α} {left right : Nat} {pivot : α} {scan : Scan α}

theorem lt_size (scanning : Scanning before left right pivot scan) {k : Nat} (within : k ≤ scan.r) :
    k < scan.slice.size := by
  have size := scanning.rearranged.size_eq
  have inside := scanning.right_lt
  have bound := scanning.r_le
  omega

theorem exists_stepped (scanning : Scanning before left right pivot scan) :
    ∃ out, scan.step = .returned out ∧ Stepped pivot scan out := by
  have pivotIn := scanning.lt_size scanning.pivotI_le_r
  have rIn := scanning.lt_size (Nat.le_refl scan.r)
  have lIn := scanning.lt_size scanning.l_le_r
  have order := scanning.l_le_r
  cases test : scan.test with
  | outer =>
      by_cases apart : scan.l < scan.r
      · exact ⟨_, by simp [Scan.step, test, apart], .entered test apart⟩
      · exact ⟨_, by simp [Scan.step, test, apart], .left test apart⟩
  | lower =>
      have found : scan.slice[scan.r]? = some scan.slice[scan.r] := Array.getElem?_eq_getElem rIn
      rw [Scan.step, test]
      simp only [index_eq scanning.pivot_eq, index_eq found, Outcome.returned_bind]
      by_cases apart : scan.l < scan.r
      · by_cases above : pivot < scan.slice[scan.r]
        · rw [if_pos ⟨above, apart⟩, minus_eq (by omega)]
          exact ⟨_, rfl, .lowered test found above apart⟩
        · rw [if_neg fun both => above both.1, if_pos (Nat.ne_of_lt apart), swap_eq pivotIn rIn]
          exact ⟨_, rfl, .swappedLast test found above apart pivotIn rIn⟩
      · have met : scan.l = scan.r := by omega
        rw [if_neg fun both => apart both.2, if_neg fun other => other met]
        exact ⟨_, rfl, .lowest test met⟩
  | raise =>
      have found : scan.slice[scan.l]? = some scan.slice[scan.l] := Array.getElem?_eq_getElem lIn
      rw [Scan.step, test]
      simp only [index_eq scanning.pivot_eq, index_eq found, Outcome.returned_bind]
      by_cases apart : scan.l < scan.r
      · by_cases below : scan.slice[scan.l] < pivot
        · rw [if_pos ⟨below, apart⟩]
          exact ⟨_, rfl, .raised test found below apart⟩
        · rw [if_neg fun both => below both.1, if_pos (Nat.ne_of_lt apart), swap_eq pivotIn lIn]
          exact ⟨_, rfl, .swappedFirst test found below apart pivotIn lIn⟩
      · have met : scan.l = scan.r := by omega
        rw [if_neg fun both => apart both.2, if_neg fun other => other met]
        exact ⟨_, rfl, .highest test met⟩

theorem swapPivot (scanning : Scanning before left right pivot scan) {target : Nat}
    (low : scan.l ≤ target) (high : target ≤ scan.r) (pivotIn : scan.pivotI < scan.slice.size)
    (targetIn : target < scan.slice.size) {test : Test}
    (raising : test = .raise → target = scan.r) :
    Scanning before left right pivot { scan with
      slice := scan.slice.swap scan.pivotI target, pivotI := target, test := test } := by
  obtain ⟨rightLt, leftLe, order, rLe, pivotLow, pivotHigh, rearranged, pivotEq, less, greater, -⟩ :=
    scanning
  have fixed : ∀ k, k < scan.l ∨ scan.r < k →
      (scan.slice.swap scan.pivotI target)[k]? = scan.slice[k]? := by
    intro k apart
    rw [getElem?_swap_eq, Equiv.swap_apply_of_ne_of_ne (by omega) (by omega)]
  refine ⟨rightLt, leftLe, order, rLe, low, high, ?_, ?_, ?_, ?_, raising⟩
  · exact rearranged.swap ⟨by omega, by omega⟩ ⟨by omega, by omega⟩ pivotIn targetIn
  · rw [getElem?_swap_eq, Equiv.swap_apply_right]
    exact pivotEq
  · intro k x low below found
    rw [fixed k (Or.inl below)] at found
    exact less k x low below found
  · intro k x above high found
    rw [fixed k (Or.inr above)] at found
    exact greater k x above high found

theorem next {after : Scan α} (scanning : Scanning before left right pivot scan)
    (stepped : Stepped pivot scan (.inl after)) : Scanning before left right pivot after := by
  obtain ⟨rightLt, leftLe, order, rLe, pivotLow, pivotHigh, rearranged, pivotEq, less, greater,
    raising⟩ := scanning
  cases stepped with
  | entered test apart =>
      exact ⟨rightLt, leftLe, order, rLe, pivotLow, pivotHigh, rearranged, pivotEq, less, greater,
        nofun⟩
  | @lowered test last found above apart =>
      have notLast : scan.pivotI ≠ scan.r := by
        intro same
        rw [same, found] at pivotEq
        cases pivotEq
        exact lt_irrefl _ above
      refine ⟨rightLt, leftLe, ?_, ?_, pivotLow, ?_, rearranged, pivotEq, less, ?_, ?_⟩
      · show scan.l ≤ scan.r - 1
        omega
      · show scan.r - 1 ≤ right
        omega
      · show scan.pivotI ≤ scan.r - 1
        omega
      · intro k x beyond high held
        by_cases here : k = scan.r
        · rw [here, found] at held
          cases held
          exact above
        · exact greater k x (by dsimp only at beyond; omega) high held
      · exact nofun
  | swappedLast test found notAbove apart pivotIn rIn =>
      exact swapPivot ⟨rightLt, leftLe, order, rLe, pivotLow, pivotHigh, rearranged, pivotEq, less,
        greater, raising⟩ order (Nat.le_refl _) pivotIn rIn fun _ => rfl
  | lowest test met =>
      refine ⟨rightLt, leftLe, order, rLe, pivotLow, pivotHigh, rearranged, pivotEq, less, greater,
        fun _ => ?_⟩
      show scan.pivotI = scan.r
      omega
  | @raised test first found below apart =>
      have notFirst : scan.pivotI ≠ scan.l := by
        intro same
        rw [same, found] at pivotEq
        cases pivotEq
        exact lt_irrefl _ below
      refine ⟨rightLt, ?_, ?_, rLe, ?_, pivotHigh, rearranged, pivotEq, ?_, greater,
        fun _ => raising test⟩
      · show left ≤ scan.l + 1
        omega
      · show scan.l + 1 ≤ scan.r
        omega
      · show scan.l + 1 ≤ scan.pivotI
        omega
      · intro k x low before' held
        by_cases here : k = scan.l
        · rw [here, found] at held
          cases held
          exact below
        · exact less k x low (by dsimp only at before'; omega) held
  | swappedFirst test found notBelow apart pivotIn lIn =>
      exact swapPivot ⟨rightLt, leftLe, order, rLe, pivotLow, pivotHigh, rearranged, pivotEq, less,
        greater, raising⟩ (Nat.le_refl _) order pivotIn lIn nofun
  | highest test met =>
      exact ⟨rightLt, leftLe, order, rLe, pivotLow, pivotHigh, rearranged, pivotEq, less, greater,
        nofun⟩

end Scanning

/-! ## The end of the loop -/

/-- Where the loop is left `l` and `r` have met at the pivot. -/
structure Parted (before : Array α) (left right : Nat) (pivot : α) (scan : Scan α) : Prop where
  right_lt : right < before.size
  left_le : left ≤ scan.l
  le_right : scan.l ≤ right
  rearranged : Rearranged left right before scan.slice
  pivot_eq : scan.slice[scan.l]? = some pivot
  less : ∀ k x, left ≤ k → k < scan.l → scan.slice[k]? = some x → x < pivot
  greater : ∀ k x, scan.l < k → k ≤ right → scan.slice[k]? = some x → pivot < x

theorem Parted.unrepeated {before : Array α} {left right : Nat} {pivot : α} {scan : Scan α}
    (parted : Parted before left right pivot scan) : ¬ RepeatedWithin left right pivot before := by
  intro repeated
  obtain ⟨i, j, different, iWithin, jWithin, first, second⟩ :=
    parted.rearranged.repeatedWithin repeated
  have only : ∀ k, left ≤ k ∧ k ≤ right → scan.slice[k]? = some pivot → k = scan.l := by
    intro k within found
    rcases Nat.lt_trichotomy k scan.l with before | here | behind
    · exact absurd (parted.less k pivot within.1 before found) (lt_irrefl pivot)
    · exact here
    · exact absurd (parted.greater k pivot behind within.2 found) (lt_irrefl pivot)
  exact different ((only i iWithin first).trans (only j jWithin second).symm)

namespace Scanning

variable {before : Array α} {left right : Nat} {pivot : α} {scan : Scan α}

theorem parted {after : Scan α} (scanning : Scanning before left right pivot scan)
    (stepped : Stepped pivot scan (.inr after)) : Parted before left right pivot after := by
  cases stepped with
  | left test met =>
      have order := scanning.l_le_r
      have low := scanning.l_le_pivotI
      have high := scanning.pivotI_le_r
      have same : scan.pivotI = scan.l := by omega
      have other : scan.r = scan.l := by omega
      refine ⟨scanning.right_lt, scanning.left_le, order.trans scanning.r_le, scanning.rearranged,
        ?_, scanning.less, ?_⟩
      · rw [← same]
        exact scanning.pivot_eq
      · rw [← other]
        exact scanning.greater

theorem round (scanning : Scanning before left right pivot scan) :
    Round Scan.step (Scanning before left right pivot) (Parted before left right pivot) scan := by
  obtain ⟨out, steps, stepped⟩ := scanning.exists_stepped
  cases out with
  | inl after => exact .again steps (scanning.next stepped)
  | inr after => exact .done steps (scanning.parted stepped)

theorem loop_safe (scanning : Scanning before left right pivot scan) (fuel : Nat) :
    Safe (Parted before left right pivot) (loop Scan.step fuel scan) :=
  Programs.loop_safe (fun _ scanning => scanning.round) scanning fuel

end Scanning

/-- The pivot is less than the element at `r`: the next round of the loop lowers `r`. -/
def ready (pivot : α) (scan : Scan α) : Bool :=
  (scan.slice[scan.r]?).any fun last => pivot < last

/-- How far the loop is from its end, where no element occurs twice. -/
def distance (pivot : α) (scan : Scan α) : Nat :=
  6 * (scan.r - scan.l) +
    match scan.test with
    | .outer => if scan.l < scan.r then if ready pivot scan then 2 else 5 else 0
    | .lower => if ready pivot scan then 1 else 4
    | .raise => 3

namespace Scanning

variable {before : Array α} {left right : Nat} {pivot : α} {scan : Scan α}

theorem distance_lt {after : Scan α} (scanning : Scanning before left right pivot scan)
    (distinct : DistinctWithin left right before) (stepped : Stepped pivot scan (.inl after)) :
    distance pivot after < distance pivot scan := by
  have readyWhen : ∀ {last : α}, scan.slice[scan.r]? = some last →
      ready pivot scan = decide (pivot < last) := by
    intro last found
    rw [ready, found]
    rfl
  have order := scanning.l_le_r
  cases stepped with
  | entered test apart =>
      have same : ready pivot { scan with test := .lower } = ready pivot scan := rfl
      simp only [distance, test, if_pos apart, same]
      split <;> omega
  | lowered test found above apart =>
      simp only [distance, test, readyWhen found, above]
      split <;> simp <;> omega
  | swappedLast test found notAbove apart pivotIn rIn =>
      simp [distance, test, readyWhen found, notAbove]
  | lowest test met =>
      -- the pivot is at `r`, and not less than itself
      have same : scan.pivotI = scan.r := by
        have low := scanning.l_le_pivotI
        have high := scanning.pivotI_le_r
        omega
      have found := scanning.pivot_eq
      rw [same] at found
      simp [distance, test, readyWhen found]
  | raised test found below apart =>
      simp only [distance, test]
      omega
  | @swappedFirst test first found notBelow apart pivotIn lIn =>
      -- what was at `l` comes to `r`, and it is not the pivot
      have atLast := scanning.raising test
      have pivotEq := scanning.pivot_eq
      have leftLe := scanning.left_le
      have rLe := scanning.r_le
      have other : first ≠ pivot := by
        rintro rfl
        have met := scanning.rearranged.distinctWithin distinct scan.l scan.pivotI first
          (by omega) (by omega) (by omega) (by omega) found pivotEq
        omega
      have above : pivot < first := lt_of_le_of_ne (not_lt.mp notBelow) (Ne.symm other)
      have moved : (scan.slice.swap scan.pivotI scan.l)[scan.r]? = some first := by
        rw [getElem?_swap_eq, ← atLast, Equiv.swap_apply_left]
        exact found
      simp [distance, test, apart, ready, moved, above]
  | highest test met =>
      simp [distance, test, met]

theorem loop_returns (scanning : Scanning before left right pivot scan)
    (distinct : DistinctWithin left right before) :
    ∃ after, Parted before left right pivot after ∧
      Returns (fun fuel => loop Scan.step fuel scan) after := by
  refine Programs.loop_returns (distance pivot) (fun state scanning => ?_) scanning
  obtain ⟨out, steps, stepped⟩ := scanning.exists_stepped
  cases out with
  | inl after => exact .again steps ⟨scanning.next stepped, scanning.distance_lt distinct stepped⟩
  | inr after => exact .done steps (scanning.parted stepped)

end Scanning

theorem exists_medianOfThree {slice : Array α} {left right : Nat} (ordered : left ≤ right)
    (inside : right < slice.size) :
    ∃ pivotI, medianOfThree slice left right = .returned pivotI ∧ left ≤ pivotI ∧ pivotI ≤ right := by
  have first : slice[left]? = some slice[left] := Array.getElem?_eq_getElem (by omega)
  have middle : slice[(left + right) / 2]? = some slice[(left + right) / 2] :=
    Array.getElem?_eq_getElem (by omega)
  have last : slice[right]? = some slice[right] := Array.getElem?_eq_getElem inside
  unfold medianOfThree
  simp only [index_eq first, index_eq middle, index_eq last, Outcome.returned_bind]
  repeat' split
  all_goals exact ⟨_, rfl, by omega, by omega⟩

theorem scanning_start {slice : Array α} {left right pivotI : Nat} {pivot : α}
    (inside : right < slice.size) (low : left ≤ pivotI) (high : pivotI ≤ right)
    (found : slice[pivotI]? = some pivot) :
    Scanning slice left right pivot ⟨slice, left, right, pivotI, .outer⟩ where
  right_lt := inside
  left_le := Nat.le_refl left
  l_le_r := low.trans high
  r_le := Nat.le_refl right
  l_le_pivotI := low
  pivotI_le_r := high
  rearranged := .refl
  pivot_eq := found
  less _ _ from_ before := absurd before (Nat.not_lt.mpr from_)
  greater _ _ behind within := absurd within (Nat.not_le.mpr behind)
  raising := nofun

end RustDemo.LibFun
