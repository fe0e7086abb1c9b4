import RustDemo.LibFun.Glib

/-!
# Replacing

`replace` of `libfun` puts one text in the place of the occurrences of another.
It is `implode` with the second text after `explode` at the first, and it is
undone by the opposite replacement just when that finds the texts that were put
in and nothing else.
-/

namespace RustDemo.LibFun

open RustDemo.Stream

/--
The loop of `str::replace` over the matches of a nonempty pattern, with `skip`
characters of the last match still to pass.
-/
def replaceFrom (find into : List Char) : List Char → Nat → List Char → List Char
  | result, _, [] => result
  | result, skip + 1, _ :: rest => replaceFrom find into result skip rest
  | result, 0, first :: rest =>
      if find <+: first :: rest then replaceFrom find into (result ++ into) (find.length - 1) rest
      else replaceFrom find into (result ++ [first]) 0 rest

/-- An empty pattern matches at every character boundary, both ends included. -/
def replace (fromString find into : String) : String :=
  if find.isEmpty then
    String.ofList (into.toList ++ fromString.toList.flatMap (fun c => c :: into.toList))
  else String.ofList (replaceFrom find.toList into.toList [] 0 fromString.toList)

example : replace "hello world!" "hello" "hi" = "hi world!" := by decide

example : replace (replace "a-b" "-" "aa") "aa" "-" = "-ab" := by decide

theorem separateFrom_ne_nil (find : List Char) (skip : Nat) (text : List Char) :
    separateFrom find skip text ≠ [] := by
  induction text generalizing skip with
  | nil => exact List.cons_ne_nil _ _
  | cons first rest ih =>
      cases skip with
      | succ skip => exact ih skip
      | zero =>
          rw [separateFrom]
          split
          · exact List.cons_ne_nil _ _
          · rw [Ne, List.modifyHead_eq_nil_iff]
            exact ih 0

theorem intercalate_modifyHead {α : Type} (separator : List α) (first : α) {pieces : List (List α)}
    (nonempty : pieces ≠ []) :
    separator.intercalate (pieces.modifyHead (first :: ·)) =
      first :: separator.intercalate pieces := by
  cases pieces with
  | nil => exact absurd rfl nonempty
  | cons piece pieces =>
      cases pieces with
      | nil => rw [List.modifyHead_cons, List.intercalate_singleton, List.intercalate_singleton]
      | cons second pieces =>
          rw [List.modifyHead_cons, List.intercalate_cons_cons, List.intercalate_cons_cons]
          rfl

/-- The loop writes the pieces that the search of `split` finds, with `into` between them. -/
theorem replaceFrom_eq (find into result : List Char) (skip : Nat) (text : List Char) :
    replaceFrom find into result skip text = result ++ into.intercalate (separateFrom find skip text) := by
  induction text generalizing result skip with
  | nil => rw [replaceFrom, separateFrom, List.intercalate_singleton, List.append_nil]
  | cons first rest ih =>
      cases skip with
      | succ skip => exact ih result skip
      | zero =>
          rw [replaceFrom, separateFrom]
          by_cases found : find <+: first :: rest
          · rw [if_pos found, if_pos found, ih, List.append_assoc,
              List.intercalate_cons_of_ne_nil (separateFrom_ne_nil find _ rest), List.nil_append]
          · rw [if_neg found, if_neg found, ih, List.append_assoc,
              intercalate_modifyHead into first (separateFrom_ne_nil find 0 rest)]
            rfl

theorem intercalate_letters (into text : List Char) :
    into.intercalate ([] :: text.map (fun c => [c]) ++ [[]]) =
      into ++ text.flatMap (fun c => c :: into) := by
  have letters : into.intercalate (text.map (fun c => [c]) ++ [[]]) =
      text.flatMap (fun c => c :: into) := by
    induction text with
    | nil => exact List.intercalate_singleton
    | cons first rest ih =>
        rw [List.map_cons, List.cons_append, List.intercalate_cons_of_ne_nil (by simp), ih]
        rfl
  rw [List.cons_append, List.intercalate_cons_of_ne_nil (by simp), letters, List.nil_append]

/-- `replace` is `implode` with the new text after `explode` at the old one. -/
theorem replace_eq (fromString find into : String) :
    replace fromString find into = implode (explode fromString find) into := by
  apply String.toList_inj.mp
  rw [toList_implode, replace]
  by_cases empty : find = ""
  · subst empty
    have letters : (explode fromString "").map String.toList =
        [] :: fromString.toList.map (fun c => [c]) ++ [[]] := by
      simp [explode_empty, Function.comp_def]
    rw [letters, intercalate_letters, if_pos (String.isEmpty_iff.mpr rfl), String.toList_ofList]
  · have pattern : ¬ find.isEmpty := mt String.isEmpty_iff.mp empty
    rw [if_neg pattern, String.toList_ofList, replaceFrom_eq, explode_eq empty, toLists_ofLists,
      List.nil_append, separate]

/-! ## Replacing back -/

/--
`replace` undone.  The opposite replacement gives the text again just when the
new text occurs neither in front of the places where it was put, in part or in
full, nor behind the last one.
-/
theorem replace_back_iff {find into : String} (old : find ≠ "") (new : into ≠ "")
    (fromString : String) :
    replace (replace fromString find into) into find = fromString ↔
      (∀ x ∈ (explode fromString find).dropLast, Clear into.toList x.toList) ∧
        ∀ x ∈ (explode fromString find).getLast?, ¬ into.toList <:+: x.toList := by
  have oldList : find.toList ≠ [] := mt String.toList_eq_nil_iff.mp old
  have newList : into.toList ≠ [] := mt String.toList_eq_nil_iff.mp new
  generalize whole : separate find.toList fromString.toList = pieces
  have separated := (separate_eq_iff oldList).mp whole
  have nonempty := separated.ne_nil
  have conditions :
      ((∀ x ∈ (explode fromString find).dropLast, Clear into.toList x.toList) ∧
        ∀ x ∈ (explode fromString find).getLast?, ¬ into.toList <:+: x.toList) ↔
      Separated into.toList (into.toList.intercalate pieces) pieces := by
    rw [separated_intercalate_iff nonempty, explode_eq old, whole, ← List.map_dropLast,
      List.forall_mem_map, List.getLast?_map, List.getLast?_eq_some_getLast nonempty]
    simp
  rw [conditions, replace_eq, replace_eq, explode_eq old, explode_eq new, ← String.toList_inj,
    toList_implode, toList_implode, toLists_ofLists, toLists_ofLists, whole]
  constructor
  · intro back
    have cut := separated_separate newList (into.toList.intercalate pieces)
    rwa [separated.eq_of_intercalate cut back] at cut
  · intro again
    rw [again.separate_eq newList]
    exact separated.intercalate

/-- A text without dollars keeps its blanks. -/
theorem replace_back_iff_dollar :
    (∀ x ∈ (explode "a b c" " ").dropLast, Clear "$".toList x.toList) ∧
      ∀ x ∈ (explode "a b c" " ").getLast?, ¬ "$".toList <:+: x.toList :=
  (replace_back_iff (by decide) (by decide) "a b c").mp (by decide)

end RustDemo.LibFun
