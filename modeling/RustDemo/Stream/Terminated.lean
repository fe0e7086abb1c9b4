import Mathlib.Data.List.Infix

/-!
# Terminated pieces

A stream is cut behind each leftmost occurrence of a terminator.  The
terminator must not overlap itself: then the pieces are exactly the terminator
free words between the terminators, and there is only one way to read a stream
as such pieces and a terminator free tail.
-/

namespace RustDemo.Stream

/-- A nonempty word no proper nonempty beginning of which is also an ending of it. -/
structure Terminator (β : Type) where
  word : List β
  nonempty : word ≠ []
  unbordered : ∀ border, border <+: word → border <:+ word → border = [] ∨ border = word

namespace Terminator

variable {β : Type} (terminator : Terminator β)

def Free (word : List β) : Prop := ¬ terminator.word <:+: word

instance [DecidableEq β] (word : List β) : Decidable (terminator.Free word) :=
  inferInstanceAs (Decidable (¬ terminator.word <:+: word))

section Free

variable {terminator}

theorem length_pos : 0 < terminator.word.length :=
  List.length_pos_iff.mpr terminator.nonempty

theorem free_nil : terminator.Free [] := by
  intro inside
  exact terminator.nonempty (List.infix_nil.mp inside)

theorem Free.tail {first : β} {rest : List β} (free : terminator.Free (first :: rest)) :
    terminator.Free rest :=
  fun inside => free (inside.trans (List.suffix_cons first rest).isInfix)

/--
Behind a free word the terminator cannot begin early: an occurrence that
reaches into the terminator would make it overlap itself.
-/
theorem Free.not_early {first : β} {line rest : List β} (free : terminator.Free (first :: line)) :
    ¬ terminator.word <+: first :: line ++ (terminator.word ++ rest) := by
  rintro ⟨behind, same⟩
  rcases List.append_eq_append_iff.mp same with ⟨more, inside, -⟩ | ⟨overlap, reaching, later⟩
  · apply free
    rw [inside]
    exact (List.prefix_append terminator.word more).isInfix
  · have shorter : overlap.length < terminator.word.length := by
      have total := congrArg List.length reaching
      simp only [List.length_append, List.length_cons] at total
      omega
    have begins : overlap <+: terminator.word := by
      apply List.prefix_of_prefix_length_le _ (List.prefix_append _ rest) shorter.le
      rw [later]
      exact List.prefix_append overlap behind
    have ends : overlap <:+ terminator.word := ⟨first :: line, reaching.symm⟩
    rcases terminator.unbordered overlap begins ends with empty | whole
    · apply free
      rw [reaching, empty, List.append_nil]
    · rw [whole] at shorter
      exact Nat.lt_irrefl _ shorter

/-- Free words stay free around a separator that has no letter of the terminator. -/
theorem Free.around {left separator right : List β} (leftFree : terminator.Free left)
    (rightFree : terminator.Free right) (nonempty : separator ≠ [])
    (foreign : ∀ letter ∈ separator, letter ∉ terminator.word) :
    terminator.Free (left ++ separator ++ right) := by
  intro inside
  rcases List.infix_append_iff_ne_nil.mp inside with early | late | astride
  · rcases List.infix_append_iff_ne_nil.mp early with here | between | astride
    · exact leftFree here
    · obtain ⟨letter, held⟩ := List.exists_mem_of_ne_nil _ terminator.nonempty
      exact foreign letter (between.subset held) held
    · obtain ⟨before, behind, -, reaches, same, -, begins⟩ := astride
      obtain ⟨letter, held⟩ := List.exists_mem_of_ne_nil _ reaches
      apply foreign letter (begins.subset held)
      rw [same]
      exact List.mem_append_right before held
  · exact rightFree late
  · obtain ⟨before, behind, reaches, -, same, ends, -⟩ := astride
    -- the last letter before the right word belongs to the separator
    have last : before.getLast reaches ∈ separator := by
      obtain ⟨front, glued⟩ := ends
      have agree : (left ++ separator).getLast? = some (before.getLast reaches) := by
        rw [← glued, List.getLast?_append_of_ne_nil _ reaches, List.getLast?_eq_some_getLast reaches]
      rw [List.getLast?_append_of_ne_nil _ nonempty] at agree
      exact List.mem_of_getLast? agree
    apply foreign _ last
    rw [same]
    exact List.mem_append_left behind (List.getLast_mem reaches)

end Free

/--
The stream read as lines that each had the terminator behind them, and a tail
that has none.
-/
structure Split (stream : List β) (lines : List (List β)) (tail : List β) : Prop where
  glued : stream = (lines.map (· ++ terminator.word)).flatten ++ tail
  lines_free : ∀ line ∈ lines, terminator.Free line
  tail_free : terminator.Free tail

section Cut

variable [DecidableEq β]

/-- What stands before and behind the first occurrence of the terminator. -/
def cut : List β → Option (List β × List β)
  | [] => none
  | first :: rest =>
      if terminator.word <+: first :: rest then
        some ([], (first :: rest).drop terminator.word.length)
      else (cut rest).map fun found => (first :: found.1, found.2)

variable {terminator}

theorem cut_spec {stream line rest : List β} (found : terminator.cut stream = some (line, rest)) :
    stream = line ++ (terminator.word ++ rest) ∧ terminator.Free line := by
  induction stream generalizing line with
  | nil => cases found
  | cons first stream ih =>
      rw [cut] at found
      split at found
      · rename_i here
        cases found
        exact ⟨(List.prefix_iff_eq_append.mp here).symm, free_nil⟩
      · rename_i notHere
        obtain ⟨⟨before, behind⟩, later, same⟩ := Option.map_eq_some_iff.mp found
        cases same
        obtain ⟨split, free⟩ := ih later
        refine ⟨congrArg (first :: ·) split, ?_⟩
        intro inside
        rcases List.infix_cons_iff.mp inside with front | deeper
        · apply notHere
          rw [split]
          exact front.trans (List.prefix_append (first :: before) _)
        · exact free deeper

theorem cut_shrinks {stream line rest : List β}
    (found : terminator.cut stream = some (line, rest)) : rest.length < stream.length := by
  have positive : 0 < terminator.word.length := terminator.length_pos
  rw [(cut_spec found).1, List.length_append, List.length_append]
  omega

theorem cut_line {line : List β} (rest : List β) (free : terminator.Free line) :
    terminator.cut (line ++ (terminator.word ++ rest)) = some (line, rest) := by
  induction line with
  | nil =>
      cases spelled : terminator.word with
      | nil => exact absurd spelled terminator.nonempty
      | cons first word =>
          rw [List.nil_append, List.cons_append, cut, spelled, ← List.cons_append,
            if_pos (List.prefix_append _ rest), List.drop_left]
  | cons first line ih =>
      rw [List.cons_append, cut, ← List.cons_append, if_neg free.not_early, ih free.tail]
      rfl

theorem cut_eq_none_iff {stream : List β} : terminator.cut stream = none ↔ terminator.Free stream := by
  constructor
  · intro missing inside
    induction stream with
    | nil => exact free_nil inside
    | cons first stream ih =>
        rw [cut] at missing
        split at missing
        · cases missing
        · rename_i notHere
          rcases List.infix_cons_iff.mp inside with front | deeper
          · exact notHere front
          · exact ih (Option.map_eq_none_iff.mp missing) deeper
  · intro free
    cases found : terminator.cut stream with
    | none => rfl
    | some pair =>
        apply (free _).elim
        rw [(cut_spec found).1]
        exact List.infix_append' _ _ _

theorem cut_append {stream line rest : List β} (more : List β)
    (found : terminator.cut stream = some (line, rest)) :
    terminator.cut (stream ++ more) = some (line, rest ++ more) := by
  obtain ⟨split, free⟩ := cut_spec found
  rw [split, List.append_assoc, List.append_assoc]
  exact cut_line _ free

variable (terminator)

/-- All lines of a stream, and the unterminated tail. -/
def pieces (stream : List β) : List (List β) × List β :=
  match found : terminator.cut stream with
  | none => ([], stream)
  | some (line, rest) =>
      have : rest.length < stream.length := cut_shrinks found
      (line :: (pieces rest).1, (pieces rest).2)
termination_by stream.length

variable {terminator}

theorem pieces_of_free {stream : List β} (free : terminator.Free stream) :
    terminator.pieces stream = ([], stream) := by
  have missing := cut_eq_none_iff.mpr free
  rw [pieces]
  split
  · rfl
  · rename_i found
    cases missing.symm.trans found

theorem pieces_of_cut {stream line rest : List β}
    (found : terminator.cut stream = some (line, rest)) :
    terminator.pieces stream = (line :: (terminator.pieces rest).1, (terminator.pieces rest).2) := by
  rw [pieces]
  split
  · rename_i missing
    cases missing.symm.trans found
  · rename_i other
    cases found.symm.trans other
    rfl

theorem split_pieces (stream : List β) :
    terminator.Split stream (terminator.pieces stream).1 (terminator.pieces stream).2 := by
  induction stream using pieces.induct terminator with
  | case1 stream missing =>
      have free := cut_eq_none_iff.mp missing
      rw [pieces_of_free free]
      exact ⟨rfl, nofun, free⟩
  | case2 stream line rest found shorter later =>
      obtain ⟨split, free⟩ := cut_spec found
      rw [pieces_of_cut found]
      constructor
      · rw [split, List.map_cons, List.flatten_cons, List.append_assoc, List.append_assoc,
          ← later.glued]
      · intro other held
        rcases List.mem_cons.mp held with same | deeper
        · rw [same]
          exact free
        · exact later.lines_free other deeper
      · exact later.tail_free

theorem pieces_prefix (stream more : List β) :
    (terminator.pieces stream).1 <+: (terminator.pieces (stream ++ more)).1 := by
  induction stream using pieces.induct terminator with
  | case1 stream missing =>
      rw [pieces_of_free (cut_eq_none_iff.mp missing)]
      exact List.nil_prefix
  | case2 stream line rest found shorter later =>
      rw [pieces_of_cut found, pieces_of_cut (cut_append more found)]
      exact (List.prefix_cons_inj line).mpr later

theorem Split.pieces_eq {stream tail : List β} {lines : List (List β)}
    (split : terminator.Split stream lines tail) : terminator.pieces stream = (lines, tail) := by
  have tailFree := split.tail_free
  have linesFree := split.lines_free
  rw [split.glued]
  clear split
  induction lines with
  | nil => exact pieces_of_free tailFree
  | cons line lines ih =>
      have first : terminator.cut (((line :: lines).map (· ++ terminator.word)).flatten ++ tail) =
          some (line, (lines.map (· ++ terminator.word)).flatten ++ tail) := by
        rw [List.map_cons, List.flatten_cons, List.append_assoc, List.append_assoc]
        exact cut_line _ (linesFree line List.mem_cons_self)
      have later := ih fun other held => linesFree other (List.mem_cons_of_mem line held)
      rw [pieces_of_cut first, later]

end Cut

end Terminator

end RustDemo.Stream
