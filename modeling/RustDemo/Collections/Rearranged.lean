import Mathlib.Data.List.Nodup
import Mathlib.Logic.Equiv.Basic

/-!
# Arrays rearranged in a range

An array changed by swaps within a range of positions: what is outside of the
range stays, and what is inside comes from inside.
-/

namespace RustDemo.Collections

variable {α : Type}

/-- The array after swaps of positions from `lo` to `hi`, both included. -/
inductive Rearranged (lo hi : Nat) (before : Array α) : Array α → Prop where
  | refl : Rearranged lo hi before before
  | swap {after : Array α} (earlier : Rearranged lo hi before after) {i j : Nat}
      (iWithin : lo ≤ i ∧ i ≤ hi) (jWithin : lo ≤ j ∧ j ≤ hi) (iIn : i < after.size)
      (jIn : j < after.size) : Rearranged lo hi before (after.swap i j)

def DistinctWithin (lo hi : Nat) (array : Array α) : Prop :=
  ∀ i j x, lo ≤ i → i ≤ hi → lo ≤ j → j ≤ hi → array[i]? = some x → array[j]? = some x → i = j

/-- Two positions of the range hold `x`. -/
def RepeatedWithin (lo hi : Nat) (x : α) (array : Array α) : Prop :=
  ∃ i j, i ≠ j ∧ (lo ≤ i ∧ i ≤ hi) ∧ (lo ≤ j ∧ j ≤ hi) ∧ array[i]? = some x ∧ array[j]? = some x

def IncreasingWithin [LT α] (lo hi : Nat) (array : Array α) : Prop :=
  ∀ i j x y, lo ≤ i → i < j → j ≤ hi → array[i]? = some x → array[j]? = some y → x < y

theorem DistinctWithin.narrow {lo hi lower higher : Nat} {array : Array α}
    (distinct : DistinctWithin lower higher array) (low : lower ≤ lo) (high : hi ≤ higher) :
    DistinctWithin lo hi array :=
  fun i j x iLow iHigh jLow jHigh => distinct i j x (Nat.le_trans low iLow)
    (Nat.le_trans iHigh high) (Nat.le_trans low jLow) (Nat.le_trans jHigh high)

theorem IncreasingWithin.of_le [LT α] {lo hi : Nat} {array : Array α} (narrow : hi ≤ lo) :
    IncreasingWithin lo hi array := by
  intro i j x y low before high
  omega

theorem getElem?_swap_eq (array : Array α) {i j : Nat} (iIn : i < array.size)
    (jIn : j < array.size) (k : Nat) : (array.swap i j)[k]? = array[Equiv.swap i j k]? := by
  rw [Array.getElem?_swap, Equiv.swap_apply_def]
  by_cases first : k = i
  · subst first
    by_cases same : j = k
    · simp [same, iIn]
    · simp [same, jIn]
  · by_cases second : k = j
    · subst second
      simp [first, iIn]
    · simp [first, second, Ne.symm first, Ne.symm second]

namespace Rearranged

variable {lo hi : Nat} {before after last : Array α}

theorem trans (first : Rearranged lo hi before after) (second : Rearranged lo hi after last) :
    Rearranged lo hi before last := by
  induction second with
  | refl => exact first
  | swap earlier iWithin jWithin iIn jIn ih => exact ih.swap iWithin jWithin iIn jIn

theorem widen (rearranged : Rearranged lo hi before after) {lower higher : Nat} (below : lower ≤ lo)
    (above : hi ≤ higher) : Rearranged lower higher before after := by
  induction rearranged with
  | refl => exact .refl
  | swap earlier iWithin jWithin iIn jIn ih =>
      exact ih.swap ⟨Nat.le_trans below iWithin.1, Nat.le_trans iWithin.2 above⟩
        ⟨Nat.le_trans below jWithin.1, Nat.le_trans jWithin.2 above⟩ iIn jIn

theorem perm (rearranged : Rearranged lo hi before after) : after.Perm before := by
  induction rearranged with
  | refl => exact Array.Perm.refl _
  | swap earlier iWithin jWithin iIn jIn ih => exact (Array.swap_perm iIn jIn).trans ih

theorem size_eq (rearranged : Rearranged lo hi before after) : after.size = before.size := by
  induction rearranged with
  | refl => rfl
  | swap earlier iWithin jWithin iIn jIn ih => rw [Array.size_swap, ih]

theorem outside (rearranged : Rearranged lo hi before after) {k : Nat} (apart : k < lo ∨ hi < k) :
    after[k]? = before[k]? := by
  induction rearranged with
  | refl => rfl
  | @swap after earlier i j iWithin jWithin iIn jIn ih =>
      rw [getElem?_swap_eq, Equiv.swap_apply_of_ne_of_ne (by omega) (by omega), ih]

theorem exists_equiv (rearranged : Rearranged lo hi before after) :
    ∃ source : Equiv.Perm Nat, (∀ k, lo ≤ k ∧ k ≤ hi ↔ lo ≤ source k ∧ source k ≤ hi) ∧
      ∀ k, after[k]? = before[source k]? := by
  induction rearranged with
  | refl => exact ⟨Equiv.refl Nat, fun _ => Iff.rfl, fun _ => rfl⟩
  | @swap after earlier i j iWithin jWithin iIn jIn ih =>
      obtain ⟨source, within, same⟩ := ih
      refine ⟨(Equiv.swap i j).trans source, fun k => ?_, fun k => ?_⟩
      · rw [Equiv.trans_apply, ← within, Equiv.swap_apply_def]
        split
        · rename_i here
          rw [here]
          exact iff_of_true iWithin jWithin
        · split
          · rename_i here
            rw [here]
            exact iff_of_true jWithin iWithin
          · exact Iff.rfl
      · rw [getElem?_swap_eq, same]
        rfl

theorem forall_within (rearranged : Rearranged lo hi before after) {P : α → Prop}
    (all : ∀ k x, lo ≤ k → k ≤ hi → before[k]? = some x → P x) (k : Nat) (x : α) (low : lo ≤ k)
    (high : k ≤ hi) (found : after[k]? = some x) : P x := by
  obtain ⟨source, within, same⟩ := rearranged.exists_equiv
  obtain ⟨sourceLow, sourceHigh⟩ := (within k).mp ⟨low, high⟩
  rw [same] at found
  exact all (source k) x sourceLow sourceHigh found

theorem distinctWithin (rearranged : Rearranged lo hi before after)
    (distinct : DistinctWithin lo hi before) : DistinctWithin lo hi after := by
  obtain ⟨source, within, same⟩ := rearranged.exists_equiv
  intro i j x iLow iHigh jLow jHigh first second
  obtain ⟨fromLow, fromHigh⟩ := (within i).mp ⟨iLow, iHigh⟩
  obtain ⟨otherLow, otherHigh⟩ := (within j).mp ⟨jLow, jHigh⟩
  rw [same] at first second
  exact source.injective (distinct _ _ x fromLow fromHigh otherLow otherHigh first second)

theorem repeatedWithin (rearranged : Rearranged lo hi before after) {x : α}
    (repeated : RepeatedWithin lo hi x before) : RepeatedWithin lo hi x after := by
  obtain ⟨source, within, same⟩ := rearranged.exists_equiv
  obtain ⟨i, j, different, iWithin, jWithin, first, second⟩ := repeated
  refine ⟨source.symm i, source.symm j, fun equal => different (source.symm.injective equal), ?_, ?_,
    ?_, ?_⟩
  · rw [within, source.apply_symm_apply]
    exact iWithin
  · rw [within, source.apply_symm_apply]
    exact jWithin
  · rw [same, source.apply_symm_apply]
    exact first
  · rw [same, source.apply_symm_apply]
    exact second

theorem extract_outside (rearranged : Rearranged lo hi before after) {start stop : Nat}
    (apart : stop ≤ lo ∨ hi < start) : after.extract start stop = before.extract start stop := by
  refine Array.ext_getElem? fun k => ?_
  rw [Array.getElem?_extract, Array.getElem?_extract, rearranged.size_eq]
  split
  · exact rearranged.outside (by omega)
  · rfl

theorem extract_perm (rearranged : Rearranged lo hi before after) (ordered : lo ≤ hi) :
    (after.extract lo (hi + 1)).toList.Perm (before.extract lo (hi + 1)).toList := by
  have parts : ∀ array : Array α, array.extract 0 lo ++ (array.extract lo (hi + 1) ++
      array.extract (hi + 1) (max (hi + 1) array.size)) = array := by
    intro array
    rw [Array.extract_append_extract, Nat.min_eq_left (by omega), Array.extract_append_extract,
      Nat.zero_min, Array.extract_eq_self_of_le (by omega)]
  have whole := rearranged.perm.toList
  rw [← parts after, ← parts before, rearranged.size_eq,
    rearranged.extract_outside (Or.inl (Nat.le_refl lo)),
    rearranged.extract_outside (Or.inr (Nat.lt_succ_self hi))] at whole
  simp only [Array.toList_append] at whole
  exact (List.perm_append_right_iff _).mp ((List.perm_append_left_iff _).mp whole)

end Rearranged

/-! ## Whole arrays -/

theorem distinctWithin_of_nodup {array : Array α} (nodup : array.toList.Nodup) (lo hi : Nat) :
    DistinctWithin lo hi array := by
  intro i j x _ _ _ _ first second
  obtain ⟨iIn, iHolds⟩ := Array.getElem?_eq_some_iff.mp first
  obtain ⟨jIn, jHolds⟩ := Array.getElem?_eq_some_iff.mp second
  have same : array.toList[i] = array.toList[j] := by
    rw [Array.getElem_toList, Array.getElem_toList, iHolds, jHolds]
  exact nodup.getElem_inj_iff.mp same

theorem exists_repeatedWithin {array : Array α} (repeated : ¬ array.toList.Nodup) :
    ∃ x, RepeatedWithin 0 (array.size - 1) x array := by
  rw [List.nodup_iff_getElem?_ne_getElem?] at repeated
  push Not at repeated
  obtain ⟨i, j, before, inside, same⟩ := repeated
  rw [Array.length_toList] at inside
  rw [Array.getElem?_toList, Array.getElem?_toList, Array.getElem?_eq_getElem inside] at same
  exact ⟨array[j], i, j, Nat.ne_of_lt before, ⟨Nat.zero_le i, by omega⟩, ⟨Nat.zero_le j, by omega⟩,
    same, Array.getElem?_eq_getElem inside⟩

theorem IncreasingWithin.pairwise [LT α] {lo hi : Nat} {array : Array α}
    (increasing : IncreasingWithin lo hi array) :
    (array.extract lo (hi + 1)).toList.Pairwise (· < ·) := by
  rw [List.pairwise_iff_getElem]
  intro i j iIn jIn before
  rw [Array.length_toList, Array.size_extract] at iIn jIn
  rw [Array.getElem_toList, Array.getElem_toList, Array.getElem_extract, Array.getElem_extract]
  exact increasing (lo + i) (lo + j) _ _ (by omega) (by omega) (by omega)
    (Array.getElem?_eq_getElem (by omega)) (Array.getElem?_eq_getElem (by omega))

end RustDemo.Collections
