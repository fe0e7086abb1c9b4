import Mathlib.Data.List.Sort

/-!
# Tables with an auto-increment key

The rows of a table have different keys, and the next key is above all of them.
A list order stands for the unspecified order of the rows; a query orders them.
-/

namespace RustDemo.Collections

structure AutoIncrement {ρ ι : Type} [LinearOrder ι] (key : ρ → ι) where
  rows : List ρ
  next : ι
  distinct : (rows.map key).Nodup
  below : ∀ row ∈ rows, key row < next

namespace AutoIncrement

variable {ρ ι : Type} [LinearOrder ι] {key : ρ → ι}

/-- Add a row under the next key; the key after that is above it. -/
def insert (table : AutoIncrement key) (row : ρ) (after : ι) (numbered : key row = table.next)
    (above : table.next < after) : AutoIncrement key where
  rows := table.rows ++ [row]
  next := after
  distinct := by
    rw [List.map_append, List.nodup_append]
    refine ⟨table.distinct, List.nodup_singleton _, ?_⟩
    rintro _ earlier _ last rfl
    obtain ⟨other, there, same⟩ := List.mem_map.mp earlier
    rw [List.map_singleton, List.mem_singleton, numbered] at last
    exact absurd (same.trans last) (ne_of_lt (table.below other there))
  below := by
    intro other among
    rcases List.mem_append.mp among with earlier | last
    · exact (table.below other earlier).trans above
    · rw [List.mem_singleton.mp last, numbered]
      exact above

/-- The rows, the one with the largest key first. -/
def orderDesc (table : AutoIncrement key) : List ρ :=
  table.rows.insertionSort fun first second => key second ≤ key first

section Rows

variable (table : AutoIncrement key)

theorem mem_orderDesc (row : ρ) : row ∈ table.orderDesc ↔ row ∈ table.rows :=
  List.mem_insertionSort _

theorem orderDesc_sorted : table.orderDesc.Pairwise fun first second => key second ≤ key first := by
  have : IsTrans ρ fun first second => key second ≤ key first := ⟨fun _ _ _ lower upper => upper.trans lower⟩
  have : Std.Total fun first second : ρ => key second ≤ key first := ⟨fun first second => le_total _ _⟩
  exact List.pairwise_insertionSort _ _

theorem eq_of_key_eq {first second : ρ} (firstThere : first ∈ table.rows)
    (secondThere : second ∈ table.rows) (same : key first = key second) : first = second :=
  List.inj_on_of_nodup_map table.distinct firstThere secondThere same

/-- The first row of the descending order is the one with the largest key. -/
theorem head?_orderDesc_iff {row : ρ} :
    table.orderDesc.head? = some row ↔ row ∈ table.rows ∧ ∀ other ∈ table.rows, key other ≤ key row := by
  have sorted := table.orderDesc_sorted
  have same := table.mem_orderDesc
  cases ordered : table.orderDesc with
  | nil =>
      rw [ordered] at same
      refine iff_of_false nofun ?_
      rintro ⟨there, _⟩
      exact List.not_mem_nil ((same row).mpr there)
  | cons first others =>
      rw [ordered] at sorted same
      have firstThere : first ∈ table.rows := (same first).mp List.mem_cons_self
      have largest : ∀ other ∈ table.rows, key other ≤ key first := by
        intro other there
        rcases List.mem_cons.mp ((same other).mpr there) with rfl | behind
        · exact le_rfl
        · exact List.rel_of_pairwise_cons sorted behind
      rw [List.head?_cons, Option.some_inj]
      constructor
      · rintro rfl
        exact ⟨firstThere, largest⟩
      · rintro ⟨there, upper⟩
        exact table.eq_of_key_eq firstThere there (le_antisymm (upper first firstThere) (largest row there))

theorem orderDesc_nil_iff : table.orderDesc = [] ↔ table.rows = [] := by
  rw [List.eq_nil_iff_forall_not_mem, List.eq_nil_iff_forall_not_mem]
  exact forall_congr' fun row => not_congr (table.mem_orderDesc row)

end Rows

section Insert

variable {table : AutoIncrement key} {row : ρ} {after : ι} {numbered : key row = table.next}
  {above : table.next < after}

theorem mem_insert {other : ρ} :
    other ∈ (table.insert row after numbered above).rows ↔ other ∈ table.rows ∨ other = row := by
  rw [insert, List.mem_append, List.mem_singleton]

theorem head?_orderDesc_insert :
    (table.insert row after numbered above).orderDesc.head? = some row := by
  rw [head?_orderDesc_iff]
  refine ⟨mem_insert.mpr (Or.inr rfl), fun other there => ?_⟩
  rcases mem_insert.mp there with earlier | rfl
  · rw [numbered]
    exact (table.below other earlier).le
  · exact le_rfl

end Insert

end AutoIncrement

end RustDemo.Collections
