import Mathlib.Data.List.Infix

/-!
# Separated pieces

A text is cut at the leftmost occurrences of a separator that do not overlap.
Unlike a terminator, the separator may be any word: it may overlap itself, and
an occurrence of it may begin inside of a piece and reach into the separator
behind it.
-/

namespace RustDemo.Stream

variable {α : Type}

/-- The separator stands behind the piece, and nowhere before that. -/
def Clear (separator piece : List α) : Prop :=
  ∀ before after, before ++ separator ++ after = piece ++ separator → after = []

/-- The pieces in front of, between and behind the leftmost occurrences. -/
inductive Separated (separator : List α) : List α → List (List α) → Prop where
  | last {text : List α} (free : ¬ separator <:+: text) : Separated separator text [text]
  | next {piece rest : List α} {pieces : List (List α)} (clear : Clear separator piece)
      (later : Separated separator rest pieces) :
      Separated separator (piece ++ separator ++ rest) (piece :: pieces)

section Clear

variable {separator piece : List α}

theorem clear_nil : Clear separator [] := by
  intro before after same
  have lengths := congrArg List.length same
  simp only [List.length_append, List.nil_append] at lengths
  exact List.eq_nil_of_length_eq_zero (by omega)

theorem Clear.tail {first : α} (clear : Clear separator (first :: piece)) :
    Clear separator piece := by
  intro before after same
  apply clear (first :: before) after
  rw [List.cons_append, List.cons_append, same, List.cons_append]

theorem Clear.not_early {first : α} (clear : Clear separator (first :: piece)) (rest : List α) :
    ¬ separator <+: first :: piece ++ separator ++ rest := by
  intro begins
  have within : separator <+: first :: piece ++ separator := by
    apply List.prefix_of_prefix_length_le begins (List.prefix_append _ rest)
    exact List.length_append ▸ Nat.le_add_left _ _
  obtain ⟨after, same⟩ := within
  have nothing := clear [] after same
  rw [nothing, List.append_nil] at same
  have longer := congrArg List.length same
  simp at longer
  omega

theorem Clear.length_le (clear : Clear separator piece) {other rest behind : List α}
    (same : piece ++ separator ++ rest = other ++ separator ++ behind) :
    piece.length ≤ other.length := by
  by_contra longer
  have within : other ++ separator <+: piece ++ separator := by
    refine List.prefix_of_prefix_length_le (same ▸ List.prefix_append _ behind)
      (List.prefix_append _ rest) ?_
    rw [List.length_append, List.length_append]
    omega
  obtain ⟨after, whole⟩ := within
  have lengths := congrArg List.length whole
  rw [clear other after whole] at lengths
  simp only [List.append_nil, List.length_append] at lengths
  omega

/-- A separator that cannot overlap itself is clear of every piece it does not occur in. -/
theorem clear_of_unbordered
    (unbordered : ∀ border, border <+: separator → border <:+ separator →
      border = [] ∨ border = separator)
    (free : ¬ separator <:+: piece) : Clear separator piece := by
  intro before after same
  rcases List.append_eq_append_iff.mp same with ⟨overlap, inside, rest⟩ | ⟨overlap, reaching, rest⟩
  · -- the occurrence ends inside of the piece
    refine absurd ?_ free
    rw [inside]
    exact ⟨before, overlap, rfl⟩
  · -- it ends inside of the separator, with its ending there
    have begins : overlap <+: separator := ⟨after, rest.symm⟩
    have ends : overlap <:+ separator :=
      List.suffix_of_suffix_length_le ⟨piece, reaching.symm⟩ (List.suffix_append before separator)
        begins.length_le
    rcases unbordered overlap begins ends with empty | whole
    · refine absurd ?_ free
      rw [empty, List.append_nil] at reaching
      exact ⟨before, [], by rw [List.append_nil, reaching]⟩
    · rw [whole] at rest
      exact List.append_right_eq_self.mp rest.symm

end Clear

theorem Separated.ne_nil {separator text : List α} {pieces : List (List α)}
    (separated : Separated separator text pieces) : pieces ≠ [] := by
  cases separated <;> exact List.cons_ne_nil _ _

theorem Separated.intercalate {separator text : List α} {pieces : List (List α)}
    (separated : Separated separator text pieces) : separator.intercalate pieces = text := by
  induction separated with
  | last free => exact List.intercalate_singleton
  | next clear later ih =>
      rw [List.intercalate_cons_of_ne_nil later.ne_nil, ih]

theorem Separated.free {separator text piece : List α}
    (separated : Separated separator text [piece]) : ¬ separator <:+: piece := by
  cases separated with
  | last free => exact free
  | next clear later => exact absurd rfl later.ne_nil

/-- Joined pieces are read as they were just when no occurrence comes too early. -/
theorem separated_intercalate_iff {separator : List α} {pieces : List (List α)}
    (nonempty : pieces ≠ []) :
    Separated separator (separator.intercalate pieces) pieces ↔
      (∀ piece ∈ pieces.dropLast, Clear separator piece) ∧
        ¬ separator <:+: pieces.getLast nonempty := by
  induction pieces with
  | nil => exact absurd rfl nonempty
  | cons piece pieces ih =>
      cases pieces with
      | nil =>
          rw [List.intercalate_singleton]
          constructor
          · intro separated
            exact ⟨fun _ none => absurd none List.not_mem_nil, separated.free⟩
          · rintro ⟨-, free⟩
            exact .last free
      | cons second pieces =>
          have later := ih (List.cons_ne_nil second pieces)
          rw [List.intercalate_cons_cons, List.dropLast_cons_cons, List.forall_mem_cons,
            List.getLast_cons (List.cons_ne_nil second pieces), and_assoc, ← later]
          constructor
          · intro separated
            generalize whole : piece ++ separator ++ separator.intercalate (second :: pieces) = text
              at separated
            cases separated with
            | next clear later =>
                cases List.append_cancel_left whole
                exact ⟨clear, later⟩
          · rintro ⟨clear, separated⟩
            exact .next clear separated

/--
Pieces of one text are joined with a second separator.  What that text is cut into
at the second separator gives the first text again only if it is these pieces.
-/
theorem Separated.eq_of_intercalate {separator second text : List α} {pieces others : List (List α)}
    (separated : Separated separator text pieces)
    (cut : Separated second (second.intercalate pieces) others)
    (back : separator.intercalate others = text) : others = pieces := by
  induction separated generalizing others with
  | last free =>
      cases others with
      | nil => exact absurd rfl cut.ne_nil
      | cons other others =>
          cases others with
          | nil => rw [← back, List.intercalate_singleton]
          | cons next others =>
              refine absurd ?_ free
              rw [← back, List.intercalate_cons_cons]
              exact ⟨other, separator.intercalate (next :: others), rfl⟩
  | @next piece rest pieces clear later ih =>
      generalize joined : second.intercalate (piece :: pieces) = result at cut
      rw [List.intercalate_cons_of_ne_nil later.ne_nil] at joined
      cases cut with
      | last free =>
          refine absurd ?_ free
          rw [← joined]
          exact ⟨piece, second.intercalate pieces, rfl⟩
      | @next other behind others clearOther laterOther =>
          rw [List.intercalate_cons_of_ne_nil laterOther.ne_nil] at back
          -- either piece is the shortest in front of its separator
          have length : piece.length = other.length :=
            Nat.le_antisymm (clear.length_le back.symm) (clearOther.length_le joined.symm)
          rw [List.append_assoc, List.append_assoc] at joined back
          obtain ⟨rfl, joinedRest⟩ := List.append_inj joined length
          have backRest := List.append_cancel_left (List.append_cancel_left back)
          cases List.append_cancel_left joinedRest
          rw [ih laterOther backRest]

/-- A first symbol at which the separator does not begin goes in front of the first piece. -/
theorem Separated.cons {separator : List α} {first : α} {text : List α}
    {pieces : List (List α)} (elsewhere : ¬ separator <+: first :: text)
    (separated : Separated separator text pieces) :
    Separated separator (first :: text) (pieces.modifyHead (first :: ·)) := by
  cases separated with
  | last free =>
      apply Separated.last
      intro inside
      rcases List.infix_cons_iff.mp inside with begins | later
      · exact elsewhere begins
      · exact free later
  | @next piece rest pieces clear later =>
      have cleared : Clear separator (first :: piece) := by
        intro before after same
        cases before with
        | nil =>
            refine absurd ?_ elsewhere
            rw [← List.cons_append, ← List.cons_append, ← same, List.nil_append, List.append_assoc]
            exact List.prefix_append separator _
        | cons other before =>
            rw [List.cons_append, List.cons_append, List.cons_append] at same
            exact clear before after (List.cons.inj same).2
      exact .next cleared later

/-! ## Cutting -/

section Cut

variable [DecidableEq α]

/-- The search of `str::split`, with `skip` symbols of the last match still to pass. -/
def separateFrom (separator : List α) : Nat → List α → List (List α)
  | _, [] => [[]]
  | skip + 1, _ :: rest => separateFrom separator skip rest
  | 0, first :: rest =>
      if separator <+: first :: rest then
        [] :: separateFrom separator (separator.length - 1) rest
      else (separateFrom separator 0 rest).modifyHead (first :: ·)

/-- Cut a text at a nonempty separator. -/
def separate (separator text : List α) : List (List α) := separateFrom separator 0 text

variable {separator : List α}

theorem separateFrom_skip (passed rest : List α) :
    separateFrom separator passed.length (passed ++ rest) = separate separator rest := by
  induction passed with
  | nil => rfl
  | cons first passed ih => exact ih

theorem separate_match (nonempty : separator ≠ []) (rest : List α) :
    separate separator (separator ++ rest) = [] :: separate separator rest := by
  cases separator with
  | nil => exact absurd rfl nonempty
  | cons first more =>
      have begins : first :: more <+: first :: (more ++ rest) := List.prefix_append (first :: more) rest
      rw [List.cons_append, separate, separateFrom, if_pos begins, List.length_cons,
        Nat.add_sub_cancel, separateFrom_skip]

theorem separate_cons {first : α} {rest : List α} (elsewhere : ¬ separator <+: first :: rest) :
    separate separator (first :: rest) = (separate separator rest).modifyHead (first :: ·) := by
  rw [separate, separateFrom, if_neg elsewhere, separate]

theorem Separated.separate_eq (nonempty : separator ≠ []) {text : List α} {pieces : List (List α)}
    (separated : Separated separator text pieces) : separate separator text = pieces := by
  induction separated with
  | @last text free =>
      induction text with
      | nil => rfl
      | cons first rest ih =>
          have elsewhere : ¬ separator <+: first :: rest := fun begins => free begins.isInfix
          have free : ¬ separator <:+: rest :=
            fun inside => free (inside.trans (List.suffix_cons first rest).isInfix)
          rw [separate_cons elsewhere, ih free, List.modifyHead_cons]
  | @next piece rest pieces clear later ih =>
      induction piece with
      | nil => rw [List.nil_append, separate_match nonempty, ih]
      | cons first piece inner =>
          have elsewhere := clear.not_early rest
          rw [List.cons_append, List.cons_append] at elsewhere ⊢
          rw [separate_cons elsewhere, inner clear.tail, List.modifyHead_cons]

theorem separated_separate (nonempty : separator ≠ []) (text : List α) :
    Separated separator text (separate separator text) := by
  induction size : text.length using Nat.strong_induction_on generalizing text with
  | h size ih =>
      subst size
      cases text with
      | nil => exact .last fun inside => nonempty (List.infix_nil.mp inside)
      | cons first rest =>
          by_cases begins : separator <+: first :: rest
          · obtain ⟨behind, whole⟩ := begins
            have shorter : behind.length < (first :: rest).length := by
              rw [← whole, List.length_append]
              exact Nat.lt_add_of_pos_left (List.length_pos_iff.mpr nonempty)
            rw [← whole, separate_match nonempty]
            exact .next clear_nil (ih _ shorter behind rfl)
          · rw [separate_cons begins]
            exact .cons begins (ih _ (Nat.lt_succ_self _) rest rfl)

theorem separate_eq_iff (nonempty : separator ≠ []) {text : List α} {pieces : List (List α)} :
    separate separator text = pieces ↔ Separated separator text pieces := by
  constructor
  · rintro rfl
    exact separated_separate nonempty text
  · exact Separated.separate_eq nonempty

end Cut

end RustDemo.Stream
