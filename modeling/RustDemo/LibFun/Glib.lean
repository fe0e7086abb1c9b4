import Mathlib.Data.String.Basic
import RustDemo.Stream.Separated

/-!
# Joining and splitting strings

`implode` and `explode` of `libfun`.  The `join` of `itertools` is not here: it is
taken to write the items one after the other with the separator between them, and
nothing for no items.

A split text joins to itself again with every separator.  Joined pieces do not
always split into themselves: an occurrence of the separator may begin in a piece
and end in the separator that was put behind it.
-/

namespace RustDemo.LibFun

open RustDemo.Stream

/-- What is assumed of `Itertools::join`. -/
def join (items : List String) (separator : String) : String :=
  match items with
  | [] => ""
  | first :: rest => rest.foldl (fun result item => result ++ separator ++ item) first

/-- `str::split`; an empty pattern matches at every character boundary, both ends included. -/
def split (text pattern : String) : List String :=
  if pattern.isEmpty then "" :: text.toList.map (fun c => String.ofList [c]) ++ [""]
  else (separate pattern.toList text.toList).map String.ofList

def implode (v : List String) (s : String) : String := join v s

def explode (s subs : String) : List String := split s subs

example : explode "aaab" "aa" = ["", "ab"] := by decide

theorem foldl_join (separator start : String) (items : List String) :
    items.foldl (fun result item => result ++ separator ++ item) start =
      separator.intercalate (start :: items) := by
  induction items generalizing start with
  | nil => exact String.intercalate_singleton.symm
  | cons second items ih =>
      rw [List.foldl_cons, ih, String.intercalate_cons_append, String.intercalate_cons_cons]

theorem implode_eq (v : List String) (s : String) : implode v s = s.intercalate v := by
  cases v with
  | nil => exact String.intercalate_nil.symm
  | cons first rest => exact foldl_join s first rest

theorem toList_implode (v : List String) (s : String) :
    (implode v s).toList = s.toList.intercalate (v.map String.toList) := by
  rw [implode_eq, String.toList_intercalate]

/-! ## Splitting and joining -/

theorem explode_empty (text : String) :
    explode text "" = "" :: text.toList.map (fun c => String.ofList [c]) ++ [""] := rfl

theorem explode_eq {separator : String} (nonempty : separator ≠ "") (text : String) :
    explode text separator = (separate separator.toList text.toList).map String.ofList := by
  have pattern : ¬ separator.isEmpty := by
    rw [String.isEmpty_iff]
    exact nonempty
  exact if_neg pattern

theorem intercalate_nil_flatten {α : Type} (pieces : List (List α)) :
    [].intercalate pieces = pieces.flatten := by
  induction pieces with
  | nil => rfl
  | cons piece pieces ih =>
      cases pieces with
      | nil => rw [List.intercalate_singleton, List.flatten_singleton]
      | cons second pieces =>
          rw [List.intercalate_cons_cons, ih, List.append_nil]
          exact List.flatten_cons.symm

theorem toLists_ofLists (pieces : List (List Char)) :
    (pieces.map String.ofList).map String.toList = pieces := by
  rw [List.map_map]
  exact List.map_id'' (fun _ => String.toList_ofList) pieces

theorem map_ofList_eq_iff {pieces : List (List Char)} {items : List String} :
    pieces.map String.ofList = items ↔ pieces = items.map String.toList := by
  constructor
  · rintro rfl
    exact (toLists_ofLists pieces).symm
  · rintro rfl
    rw [List.map_map]
    exact List.map_id'' (fun _ => String.ofList_toList) items

/--
`implode` undoes `explode`.  A text is the join of what it is split into, with
the empty separator, with separators that overlap themselves, and with those
that do not occur.
-/
theorem implode_explode (t s : String) : implode (explode t s) s = t := by
  apply String.toList_inj.mp
  rw [toList_implode]
  by_cases empty : s = ""
  · subst empty
    have letters : (explode t "").map String.toList = [] :: t.toList.map (fun c => [c]) ++ [[]] := by
      simp [explode_empty, Function.comp_def]
    rw [letters]
    exact (intercalate_nil_flatten _).trans (by simp [← List.flatMap_def])
  · rw [explode_eq empty, toLists_ofLists]
    exact (separated_separate (mt String.toList_eq_nil_iff.mp empty) t.toList).intercalate

/--
`explode` undoes `implode`.  Pieces that do not contain the separator come back
from their join just when no occurrence begins in a piece and ends early in the
separator behind it, which is always so for a separator without a border.
-/
theorem explode_implode_iff {v : List String} (nonempty : v ≠ []) {s : String} (proper : s ≠ "")
    (free : ∀ x ∈ v, ¬ s.toList <:+: x.toList) :
    (explode (implode v s) s = v ↔ ∀ x ∈ v.dropLast, Clear s.toList x.toList) ∧
      ((∀ border, border <+: s.toList → border <:+ s.toList → border = [] ∨ border = s.toList) →
        explode (implode v s) s = v) := by
  have lists : v.map String.toList ≠ [] := by
    rw [Ne, List.map_eq_nil_iff]
    exact nonempty
  have whole : explode (implode v s) s = v ↔ ∀ x ∈ v.dropLast, Clear s.toList x.toList := by
    have last : ¬ s.toList <:+: (v.map String.toList).getLast lists := by
      rw [List.getLast_map]
      exact free _ (List.getLast_mem nonempty)
    rw [explode_eq proper, map_ofList_eq_iff, toList_implode,
      separate_eq_iff (mt String.toList_eq_nil_iff.mp proper), separated_intercalate_iff lists,
      and_iff_left last, ← List.map_dropLast, List.forall_mem_map]
  refine ⟨whole, fun unbordered => whole.mpr fun x held => ?_⟩
  exact clear_of_unbordered unbordered (free x (List.mem_of_mem_dropLast held))

/-- A separator of one character has no border. -/
theorem explode_implode_iff_dollar :
    explode (implode ["hello", "world "] "$") "$" = ["hello", "world "] := by
  apply (explode_implode_iff (by decide) (by decide) (by decide)).2
  intro border begins _
  cases border with
  | nil => exact Or.inl rfl
  | cons first more => exact Or.inr (begins.eq_of_length_le (Nat.succ_le_succ (Nat.zero_le _)))

/-- The separator is found early in `aaab`, which is `a` and `b` with `aa` between them. -/
theorem explode_implode_early :
    ¬ ∀ (v : List String) (s : String), v ≠ [] → s ≠ "" →
      (∀ x ∈ v, ¬ s.toList <:+: x.toList) → explode (implode v s) s = v := by
  intro undoes
  exact absurd (undoes ["a", "b"] "aa" (by decide) (by decide) (by decide)) (by decide)

end RustDemo.LibFun
