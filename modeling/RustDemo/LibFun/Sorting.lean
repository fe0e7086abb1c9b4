import RustDemo.LibFun.Partition

/-!
# What `quicksort` comes to

On a range without repeated elements `q_sort` returns, and the range is in
order.  On a range with a repeated element it never returns: each partition
leaves both copies on one side of the pivot, until one of them is the pivot.
-/

namespace RustDemo.LibFun

open RustDemo.Collections RustDemo.Programs

variable {α : Type} [LinearOrder α]

/-- `q_sort(slice, left, l - 1)`, if there is something on the left. -/
def leftPart (fuel : Nat) (slice : Array α) (left l : Nat) : Outcome (Array α) :=
  if left < l then do qSort fuel slice left (← minus l 1) else pure slice

/-- `q_sort(slice, l + 1, right)`, if there is something on the right. -/
def rightPart (fuel : Nat) (slice : Array α) (l right : Nat) : Outcome (Array α) :=
  if right > l then qSort fuel slice (l + 1) right else pure slice

theorem leftPart_eq {fuel : Nat} {slice : Array α} {left l : Nat} (some : left < l) :
    leftPart fuel slice left l = qSort fuel slice left (l - 1) := by
  rw [leftPart, if_pos some, minus_eq (by omega), Outcome.returned_bind]

theorem leftPart_none {fuel : Nat} {slice : Array α} {left l : Nat} (none : ¬ left < l) :
    leftPart fuel slice left l = pure slice := if_neg none

theorem rightPart_eq {fuel : Nat} {slice : Array α} {l right : Nat} (some : right > l) :
    rightPart fuel slice l right = qSort fuel slice (l + 1) right := if_pos some

theorem rightPart_none {fuel : Nat} {slice : Array α} {l right : Nat} (none : ¬ right > l) :
    rightPart fuel slice l right = pure slice := if_neg none

theorem exists_qSort_succ {slice : Array α} {left right : Nat} (ordered : left ≤ right)
    (inside : right < slice.size) :
    ∃ start pivot, Scanning slice left right pivot start ∧
      ∀ fuel, qSort (fuel + 1) slice left right = (do
        let scan ← loop Scan.step fuel start
        let slice ← leftPart fuel scan.slice left scan.l
        rightPart fuel slice scan.l right) := by
  obtain ⟨pivotI, median, low, high⟩ := exists_medianOfThree ordered inside
  have found : slice[pivotI]? = some slice[pivotI] := Array.getElem?_eq_getElem (by omega)
  refine ⟨_, _, scanning_start inside low high found, fun fuel => ?_⟩
  rw [qSort, median, Outcome.returned_bind]
  congr 1
  funext scan
  by_cases onLeft : left < scan.l
  · rw [leftPart_eq onLeft]
    simp only [if_pos onLeft, minus_eq (Nat.one_le_of_lt onLeft), Outcome.returned_bind, rightPart]
  · rw [leftPart_none onLeft]
    simp only [if_neg onLeft, rightPart]

theorem qSort_safe (fuel : Nat) {slice : Array α} {left right : Nat} (ordered : left ≤ right)
    (inside : right < slice.size) :
    Safe (Rearranged left right slice) (qSort fuel slice left right) := by
  induction fuel generalizing slice left right with
  | zero => exact Or.inl rfl
  | succ fuel ih =>
      obtain ⟨start, pivot, scanning, opened⟩ := exists_qSort_succ ordered inside
      rw [opened]
      refine (scanning.loop_safe fuel).bind fun scan parted => ?_
      have leftLe := parted.left_le
      have leRight := parted.le_right
      have size := parted.rearranged.size_eq
      have leftSafe : Safe (Rearranged left right slice) (leftPart fuel scan.slice left scan.l) := by
        by_cases onLeft : left < scan.l
        · rw [leftPart_eq onLeft]
          refine (ih (by omega) (by omega)).mono fun middle moved => ?_
          exact parted.rearranged.trans (moved.widen (Nat.le_refl left) (by omega))
        · rw [leftPart_none onLeft]
          exact safe_pure parted.rearranged
      refine leftSafe.bind fun middle moved => ?_
      have middleSize := moved.size_eq
      by_cases onRight : right > scan.l
      · rw [rightPart_eq onRight]
        refine (ih (by omega) (by omega)).mono fun last again => ?_
        exact moved.trans (again.widen (by omega) (Nat.le_refl right))
      · rw [rightPart_none onRight]
        exact safe_pure moved

namespace Parted

variable {before : Array α} {left right : Nat} {pivot : α} {scan : Scan α}

theorem of_left (parted : Parted before left right pivot scan) (onLeft : left < scan.l)
    {middle : Array α} (moved : Rearranged left (scan.l - 1) scan.slice middle) :
    Parted before left right pivot { scan with slice := middle } where
  right_lt := parted.right_lt
  left_le := parted.left_le
  le_right := parted.le_right
  rearranged := by
    have leRight := parted.le_right
    exact parted.rearranged.trans (moved.widen (Nat.le_refl left) (by omega))
  pivot_eq := by
    rw [moved.outside (Or.inr (by dsimp only; omega))]
    exact parted.pivot_eq
  less k x low below found :=
    moved.forall_within (fun k x low high => parted.less k x low (by omega)) k x low
      (by dsimp only at below; omega) found
  greater k x above high found := by
    rw [moved.outside (Or.inr (by dsimp only at above; omega))] at found
    exact parted.greater k x above high found

theorem of_right (parted : Parted before left right pivot scan) {last : Array α}
    (moved : Rearranged (scan.l + 1) right scan.slice last) :
    Parted before left right pivot { scan with slice := last } where
  right_lt := parted.right_lt
  left_le := parted.left_le
  le_right := parted.le_right
  rearranged := by
    have leftLe := parted.left_le
    exact parted.rearranged.trans (moved.widen (by omega) (Nat.le_refl right))
  pivot_eq := by
    rw [moved.outside (Or.inl (by dsimp only; omega))]
    exact parted.pivot_eq
  less k x low below found := by
    rw [moved.outside (Or.inl (by dsimp only at below; omega))] at found
    exact parted.less k x low below found
  greater k x above high found :=
    moved.forall_within (fun k x low high => parted.greater k x (by omega) high) k x
      (by dsimp only at above; omega) high found

theorem leftPart_safe (parted : Parted before left right pivot scan) (fuel : Nat) :
    Safe (fun middle => Parted before left right pivot { scan with slice := middle })
      (leftPart fuel scan.slice left scan.l) := by
  by_cases onLeft : left < scan.l
  · have leRight := parted.le_right
    have inside := parted.right_lt
    have size := parted.rearranged.size_eq
    rw [leftPart_eq onLeft]
    exact (qSort_safe fuel (by omega) (by omega)).mono fun middle moved =>
      parted.of_left onLeft moved
  · rw [leftPart_none onLeft]
    exact safe_pure parted

end Parted

theorem Parted.repeated_side {before : Array α} {left right : Nat} {pivot : α} {scan : Scan α}
    (parted : Parted before left right pivot scan) {x : α}
    (repeated : RepeatedWithin left right x before) :
    x < pivot ∧ left < scan.l ∧ RepeatedWithin left (scan.l - 1) x scan.slice ∨
      pivot < x ∧ scan.l < right ∧ RepeatedWithin (scan.l + 1) right x scan.slice := by
  have other : x ≠ pivot := by
    rintro rfl
    exact parted.unrepeated repeated
  obtain ⟨i, j, different, iWithin, jWithin, first, second⟩ :=
    parted.rearranged.repeatedWithin repeated
  -- a position holds the pivot, or is on the side where its element belongs
  have side : ∀ k, left ≤ k ∧ k ≤ right → scan.slice[k]? = some x →
      k < scan.l ∧ x < pivot ∨ scan.l < k ∧ pivot < x := by
    intro k within found
    rcases Nat.lt_trichotomy k scan.l with below | here | above
    · exact Or.inl ⟨below, parted.less k x within.1 below found⟩
    · rw [here, parted.pivot_eq] at found
      exact absurd (Option.some.inj found).symm other
    · exact Or.inr ⟨above, parted.greater k x above within.2 found⟩
  rcases side i iWithin first with ⟨iBelow, less⟩ | ⟨iAbove, greater⟩
  · rcases side j jWithin second with ⟨jBelow, _⟩ | ⟨_, greater⟩
    · exact Or.inl ⟨less, by omega, i, j, different, ⟨iWithin.1, by omega⟩, ⟨jWithin.1, by omega⟩,
        first, second⟩
    · exact absurd greater (lt_asymm less)
  · rcases side j jWithin second with ⟨_, less⟩ | ⟨jAbove, _⟩
    · exact absurd greater (lt_asymm less)
    · exact Or.inr ⟨greater, by omega, i, j, different, ⟨by omega, iWithin.2⟩, ⟨by omega, jWithin.2⟩,
        first, second⟩

theorem qSort_unfinished (fuel : Nat) {slice : Array α} {left right : Nat} {x : α}
    (inside : right < slice.size) (repeated : RepeatedWithin left right x slice) :
    qSort fuel slice left right = .unfinished := by
  induction fuel generalizing slice left right with
  | zero => rfl
  | succ fuel ih =>
      have ordered : left ≤ right := by
        obtain ⟨i, _, _, within, _⟩ := repeated
        omega
      obtain ⟨start, pivot, scanning, opened⟩ := exists_qSort_succ ordered inside
      rw [opened]
      refine (scanning.loop_safe fuel).bind_unfinished fun scan parted => ?_
      have size := parted.rearranged.size_eq
      have leRight := parted.le_right
      rcases parted.repeated_side repeated with ⟨_, onLeft, repeatedLeft⟩ | ⟨greater, _, _⟩
      · rw [leftPart_eq onLeft, ih (by omega) repeatedLeft, Outcome.unfinished_bind]
      · refine (parted.leftPart_safe fuel).bind_unfinished fun middle partedMiddle => ?_
        have middleSize : middle.size = slice.size := partedMiddle.rearranged.size_eq
        rcases partedMiddle.repeated_side repeated with
          ⟨less, _, _⟩ | ⟨_, onRight, repeatedRight⟩
        · exact absurd greater (lt_asymm less)
        · rw [rightPart_eq onRight]
          exact ih (by omega) repeatedRight

theorem Parted.increasing {before : Array α} {left right : Nat} {pivot : α} {scan : Scan α}
    (parted : Parted before left right pivot scan)
    (onLeft : IncreasingWithin left (scan.l - 1) scan.slice)
    (onRight : IncreasingWithin (scan.l + 1) right scan.slice) :
    IncreasingWithin left right scan.slice := by
  intro i j x y low ordered high first second
  rcases Nat.lt_trichotomy i scan.l with iBelow | here | iAbove
  · rcases Nat.lt_trichotomy j scan.l with jBelow | there | jAbove
    · exact onLeft i j x y low ordered (by omega) first second
    · rw [there, parted.pivot_eq] at second
      cases second
      exact parted.less i x low iBelow first
    · exact (parted.less i x low iBelow first).trans (parted.greater j y jAbove high second)
  · rw [here, parted.pivot_eq] at first
    cases first
    exact parted.greater j y (by omega) high second
  · exact onRight i j x y (by omega) ordered high first second

theorem qSort_returns {slice : Array α} {left right : Nat} (ordered : left ≤ right)
    (inside : right < slice.size) (distinct : DistinctWithin left right slice) :
    ∃ after, Returns (fun fuel => qSort fuel slice left right) after ∧
      Rearranged left right slice after ∧ IncreasingWithin left right after := by
  induction width : right - left using Nat.strongRecOn generalizing slice left right with
  | ind n ih =>
      obtain ⟨start, pivot, scanning, opened⟩ := exists_qSort_succ ordered inside
      obtain ⟨scan, parted, scanned⟩ := scanning.loop_returns distinct
      have leftLe := parted.left_le
      have leRight := parted.le_right
      have size := parted.rearranged.size_eq
      have distinctAfter := parted.rearranged.distinctWithin distinct
      obtain ⟨middle, leftReturns, partedMiddle, leftSorted⟩ :
          ∃ middle, Returns (fun fuel => leftPart fuel scan.slice left scan.l) middle ∧
            Parted slice left right pivot { scan with slice := middle } ∧
            IncreasingWithin left (scan.l - 1) middle := by
        by_cases onLeft : left < scan.l
        · simp only [leftPart_eq onLeft]
          obtain ⟨middle, returns, moved, sorted⟩ := ih (scan.l - 1 - left) (by omega) (by omega)
            (by omega) (distinctAfter.narrow (Nat.le_refl left) (by omega)) rfl
          exact ⟨middle, returns, parted.of_left onLeft moved, sorted⟩
        · simp only [leftPart_none onLeft]
          exact ⟨scan.slice, returns_pure _, parted, .of_le (by omega)⟩
      have middleSize : middle.size = slice.size := partedMiddle.rearranged.size_eq
      have distinctMiddle : DistinctWithin left right middle :=
        partedMiddle.rearranged.distinctWithin distinct
      obtain ⟨last, rightReturns, partedLast, leftStays, rightSorted⟩ :
          ∃ last, Returns (fun fuel => rightPart fuel middle scan.l right) last ∧
            Parted slice left right pivot { scan with slice := last } ∧
            (∀ k, k ≤ scan.l → last[k]? = middle[k]?) ∧
            IncreasingWithin (scan.l + 1) right last := by
        by_cases onRight : right > scan.l
        · simp only [rightPart_eq onRight]
          obtain ⟨last, returns, moved, sorted⟩ := ih (right - (scan.l + 1)) (by omega) (by omega)
            (by omega) (distinctMiddle.narrow (by omega) (Nat.le_refl right)) rfl
          exact ⟨last, returns, partedMiddle.of_right moved,
            fun k within => moved.outside (Or.inl (by omega)), sorted⟩
        · simp only [rightPart_none onRight]
          exact ⟨middle, returns_pure _, partedMiddle, fun _ _ => rfl, .of_le (by omega)⟩
      refine ⟨last, ?_, partedLast.rearranged, partedLast.increasing ?_ rightSorted⟩
      · refine Returns.of_succ ?_
        simp only [opened]
        exact scanned.bind (leftReturns.bind rightReturns)
      · intro i j x y low before high first second
        dsimp only at first second high
        by_cases there : j ≤ scan.l
        · rw [leftStays i (by omega)] at first
          rw [leftStays j there] at second
          exact leftSorted i j x y low before high first second
        · omega

/-! ## The whole slice -/

/-- `slice.len() - 1` of the empty slice is a panic. -/
theorem quicksort_empty (fuel : Nat) : quicksort fuel (#[] : Array α) = .panicked := rfl

theorem quicksort_eq {slice : Array α} (nonempty : slice ≠ #[]) (fuel : Nat) :
    quicksort fuel slice = qSort fuel slice 0 (slice.size - 1) := by
  have positive := Array.size_pos_iff.mpr nonempty
  rw [quicksort, minus_eq positive, Outcome.returned_bind]

theorem quicksort_runsForever {slice : Array α} (nonempty : slice ≠ #[])
    (repeated : ¬ slice.toList.Nodup) : RunsForever fun fuel => quicksort fuel slice := by
  intro fuel
  have positive := Array.size_pos_iff.mpr nonempty
  obtain ⟨x, twice⟩ := exists_repeatedWithin repeated
  show quicksort fuel slice = .unfinished
  rw [quicksort_eq nonempty]
  exact qSort_unfinished fuel (by omega) twice

theorem exists_quicksort {slice : Array α} (nonempty : slice ≠ #[]) (distinct : slice.toList.Nodup) :
    ∃ sorted, Returns (fun fuel => quicksort fuel slice) sorted ∧ sorted.Perm slice ∧
      sorted.toList.Pairwise (· < ·) := by
  have positive := Array.size_pos_iff.mpr nonempty
  obtain ⟨sorted, returns, moved, increasing⟩ := qSort_returns (Nat.zero_le _)
    (Nat.sub_one_lt_of_lt positive) (distinctWithin_of_nodup distinct 0 (slice.size - 1))
  have size := moved.size_eq
  have ordered := increasing.pairwise
  rw [Array.extract_eq_self_of_le (by omega)] at ordered
  refine ⟨sorted, ?_, moved.perm, ordered⟩
  simp only [quicksort_eq nonempty]
  exact returns

/-- `quicksort` returns on slices that hold something, and nothing twice; on no others. -/
theorem quicksort_returns_iff (slice : Array α) :
    (∃ sorted, Returns (fun fuel => quicksort fuel slice) sorted) ↔
      slice ≠ #[] ∧ slice.toList.Nodup := by
  constructor
  · rintro ⟨sorted, returns⟩
    constructor
    · rintro rfl
      obtain ⟨enough, returned⟩ := returns
      cases returned enough (Nat.le_refl enough)
    · by_contra repeated
      by_cases empty : slice = #[]
      · exact repeated (empty ▸ List.nodup_nil)
      · exact (quicksort_runsForever empty repeated).not_returns sorted returns
  · rintro ⟨nonempty, distinct⟩
    obtain ⟨sorted, returns, _⟩ := exists_quicksort nonempty distinct
    exact ⟨sorted, returns⟩

/-- The empty slice is a panic, and two equal elements are swapped forever. -/
theorem quicksort_diverges : (∀ fuel, quicksort fuel (#[] : Array Nat) = .panicked) ∧
    RunsForever (fun fuel => quicksort fuel #[1, 1]) ∧
    ¬ ∀ slice : Array Nat, ∃ sorted, Returns (fun fuel => quicksort fuel slice) sorted := by
  have nonempty : (#[1, 1] : Array Nat) ≠ #[] := by decide
  have forever := quicksort_runsForever nonempty (by decide)
  refine ⟨quicksort_empty, forever, fun always => ?_⟩
  obtain ⟨sorted, returns⟩ := always #[1, 1]
  exact forever.not_returns sorted returns

/-- Slices of distinct elements are sorted, and so are their ranges, which is all that changes. -/
theorem quicksort_sorts (slice : Array α) (nonempty : slice ≠ #[])
    (distinct : slice.toList.Nodup) :
    (∃ sorted, Returns (fun fuel => quicksort fuel slice) sorted ∧ sorted.Perm slice ∧
      sorted.toList.Pairwise (· < ·)) ∧
    ∀ left right, left ≤ right → right < slice.size →
      ∃ after, Returns (fun fuel => qSort fuel slice left right) after ∧
        (after.extract left (right + 1)).toList.Perm (slice.extract left (right + 1)).toList ∧
        (after.extract left (right + 1)).toList.Pairwise (· < ·) ∧
        after.size = slice.size ∧ ∀ k, k < left ∨ right < k → after[k]? = slice[k]? := by
  refine ⟨exists_quicksort nonempty distinct, fun left right ordered inside => ?_⟩
  obtain ⟨after, returns, moved, increasing⟩ :=
    qSort_returns ordered inside (distinctWithin_of_nodup distinct left right)
  exact ⟨after, returns, moved.extract_perm ordered, increasing.pairwise, moved.size_eq,
    fun k apart => moved.outside apart⟩

theorem quicksort_sorts_three :
    (∃ sorted, Returns (fun fuel => quicksort fuel #[2, 3, 1]) sorted ∧ sorted.Perm #[2, 3, 1] ∧
      sorted.toList.Pairwise (· < ·)) ∧
    ∀ left right, left ≤ right → right < #[2, 3, 1].size →
      ∃ after, Returns (fun fuel => qSort fuel #[2, 3, 1] left right) after ∧
        (after.extract left (right + 1)).toList.Perm
          ((#[2, 3, 1] : Array Nat).extract left (right + 1)).toList ∧
        (after.extract left (right + 1)).toList.Pairwise (· < ·) ∧
        after.size = #[2, 3, 1].size ∧
        ∀ k, k < left ∨ right < k → after[k]? = (#[2, 3, 1] : Array Nat)[k]? :=
  quicksort_sorts #[2, 3, 1] (by decide) (by decide)

end RustDemo.LibFun
