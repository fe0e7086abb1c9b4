import RustDemo.Stream.Incremental
import RustDemo.Stream.Terminated

/-!
# Decoding terminated pieces

The decoder takes one line off the buffer, with its terminator, and parses it.
Draining it reads lines up to the first that does not parse.
-/

namespace RustDemo.Stream.Terminator

variable {β ε α : Type} (terminator : Terminator β)

def join (lines : List (List β)) : List β := (lines.map (· ++ terminator.word)).flatten

/-- Nothing but complete lines, all of them good. -/
def GoodLines (good : List β → Prop) (word : List β) : Prop :=
  ∃ lines, word = terminator.join lines ∧ ∀ line ∈ lines, terminator.Free line ∧ good line

section Join

variable {terminator}

@[simp] theorem join_nil : terminator.join [] = [] := rfl

@[simp] theorem join_cons (line : List β) (lines : List (List β)) :
    terminator.join (line :: lines) = line ++ (terminator.word ++ terminator.join lines) := by
  rw [join, List.map_cons, List.flatten_cons, List.append_assoc]
  rfl

variable [DecidableEq β]

theorem line_unique {line other rest behind : List β} (free : terminator.Free line)
    (otherFree : terminator.Free other)
    (same : line ++ (terminator.word ++ rest) = other ++ (terminator.word ++ behind)) :
    line = other ∧ rest = behind := by
  have first := cut_line rest free
  rw [same, cut_line behind otherFree] at first
  cases first
  exact ⟨rfl, rfl⟩

def Stops (terminator : Terminator β) (good : List β → Prop) (rest : List β) : Prop :=
  ∀ line behind, rest = line ++ (terminator.word ++ behind) → terminator.Free line → ¬ good line

omit [DecidableEq β] in
theorem stops_of_free {good : List β → Prop} {rest : List β} (free : terminator.Free rest) :
    terminator.Stops good rest := by
  rintro line behind rfl _ _
  exact free (List.infix_append' _ _ _)

theorem stops_of_bad {good : List β → Prop} {bad rest : List β} (free : terminator.Free bad)
    (isBad : ¬ good bad) : terminator.Stops good (bad ++ (terminator.word ++ rest)) := by
  intro line behind same lineFree isGood
  obtain ⟨rfl, _⟩ := line_unique free lineFree same
  exact isBad isGood

/-- Good lines up to where there is no other: no beginning of the stream has more. -/
theorem prefix_of_goodLines {good : List β → Prop} {lines : List (List β)} {rest other : List β}
    (linesGood : ∀ line ∈ lines, terminator.Free line ∧ good line)
    (stops : terminator.Stops good rest) (otherGood : terminator.GoodLines good other)
    (begins : other <+: terminator.join lines ++ rest) : other <+: terminator.join lines := by
  obtain ⟨others, rfl, othersGood⟩ := otherGood
  induction lines generalizing others with
  | nil =>
      cases others with
      | nil => exact List.prefix_refl _
      | cons first others =>
          obtain ⟨behind, same⟩ := begins
          rw [join_cons, join_nil, List.append_assoc, List.append_assoc, List.nil_append] at same
          obtain ⟨free, isGood⟩ := othersGood first List.mem_cons_self
          exact absurd isGood (stops first _ same.symm free)
  | cons line lines ih =>
      cases others with
      | nil => exact List.nil_prefix
      | cons first others =>
          obtain ⟨behind, same⟩ := begins
          rw [join_cons, join_cons, List.append_assoc, List.append_assoc, List.append_assoc,
            List.append_assoc] at same
          obtain ⟨rfl, later⟩ := line_unique (othersGood first List.mem_cons_self).1
            (linesGood line List.mem_cons_self).1 same
          rw [join_cons, join_cons]
          apply (List.prefix_append_right_inj _).mpr
          apply (List.prefix_append_right_inj _).mpr
          exact ih (fun line among => linesGood line (List.mem_cons_of_mem _ among)) others
            (fun line among => othersGood line (List.mem_cons_of_mem _ among)) ⟨behind, later⟩

end Join

section Decode

variable [DecidableEq β] (parse : List β → Except ε α)

/-- Take one line off the buffer, and its terminator, and parse it. -/
def decodeLine (buffer : List β) : Except ε (Option α) × List β :=
  match terminator.cut buffer with
  | none => (.ok none, buffer)
  | some (line, rest) => ((parse line).map some, rest)

variable {terminator parse}

theorem decodeLine_of_free {buffer : List β} (free : terminator.Free buffer) :
    terminator.decodeLine parse buffer = (.ok none, buffer) := by
  rw [decodeLine, cut_eq_none_iff.mpr free]

theorem decodeLine_of_cut {buffer line rest : List β}
    (found : terminator.cut buffer = some (line, rest)) :
    terminator.decodeLine parse buffer = ((parse line).map some, rest) := by
  rw [decodeLine, found]

theorem map_some_ne_none (parsed : Except ε α) : parsed.map some ≠ .ok none := by
  cases parsed with
  | ok item => exact fun same => nomatch same
  | error failure => exact fun same => nomatch same

theorem decodeLine_cases (parse : List β → Except ε α) (buffer : List β) :
    (terminator.Free buffer ∧ terminator.decodeLine parse buffer = (.ok none, buffer)) ∨
      ∃ line rest, terminator.cut buffer = some (line, rest) ∧
        terminator.decodeLine parse buffer = ((parse line).map some, rest) := by
  cases found : terminator.cut buffer with
  | none =>
      have free := cut_eq_none_iff.mp found
      exact Or.inl ⟨free, decodeLine_of_free free⟩
  | some pair =>
      cases pair with
      | mk line rest => exact Or.inr ⟨line, rest, rfl, decodeLine_of_cut found⟩

variable (terminator parse)

def decoder : Decoder β ε α where
  decode := terminator.decodeLine parse
  pending buffer rest decoded := by
    rcases decodeLine_cases parse buffer with ⟨_, waits⟩ | ⟨line, behind, _, takes⟩
    · cases waits.symm.trans decoded
      rfl
    · exact absurd (congrArg Prod.fst (takes.symm.trans decoded)) (map_some_ne_none _)
  shrinks buffer result rest decoded decided := by
    rcases decodeLine_cases parse buffer with ⟨_, waits⟩ | ⟨line, behind, found, takes⟩
    · cases waits.symm.trans decoded
      exact absurd rfl decided
    · cases takes.symm.trans decoded
      exact cut_shrinks found
  stable buffer result rest more decoded decided := by
    rcases decodeLine_cases parse buffer with ⟨_, waits⟩ | ⟨line, behind, found, takes⟩
    · cases waits.symm.trans decoded
      exact absurd rfl decided
    · cases takes.symm.trans decoded
      exact decodeLine_of_cut (cut_append more found)

/-- What the decoder made of a stream: lines that parse, and where it stopped. -/
inductive Read (stream : List β) : List (Except ε α) → List β → Prop where
  | waiting {lines : List (List β)} {items : List α} {rest : List β}
      (free : ∀ line ∈ lines, terminator.Free line) (parsed : lines.map parse = items.map .ok)
      (restFree : terminator.Free rest) (glued : stream = terminator.join lines ++ rest) :
      Read stream (items.map .ok) rest
  | failed {lines : List (List β)} {items : List α} {bad rest : List β} {failure : ε}
      (free : ∀ line ∈ lines, terminator.Free line) (parsed : lines.map parse = items.map .ok)
      (badFree : terminator.Free bad) (fails : parse bad = .error failure)
      (glued : stream = terminator.join lines ++ (bad ++ (terminator.word ++ rest))) :
      Read stream (items.map .ok ++ [.error failure]) rest

omit [DecidableEq β] in
variable {terminator parse} in
theorem Read.cons {line stream rest : List β} {item : α} {results : List (Except ε α)}
    (free : terminator.Free line) (parsed : parse line = .ok item)
    (read : terminator.Read parse stream results rest) :
    terminator.Read parse (line ++ (terminator.word ++ stream)) (.ok item :: results) rest := by
  have allFree : ∀ {lines : List (List β)}, (∀ line ∈ lines, terminator.Free line) →
      ∀ other ∈ line :: lines, terminator.Free other := by
    intro lines linesFree other among
    rcases List.mem_cons.mp among with rfl | later
    · exact free
    · exact linesFree other later
  cases read with
  | @waiting lines items _ linesFree linesParsed restFree glued =>
      show terminator.Read parse _ ((item :: items).map .ok) rest
      refine .waiting (allFree linesFree) ?_ restFree ?_
      · rw [List.map_cons, parsed, linesParsed, List.map_cons]
      · rw [glued, join_cons, List.append_assoc, List.append_assoc]
  | @failed lines items bad _ failure linesFree linesParsed badFree fails glued =>
      show terminator.Read parse _ ((item :: items).map .ok ++ [.error failure]) rest
      refine .failed (allFree linesFree) ?_ badFree fails ?_
      · rw [List.map_cons, parsed, linesParsed, List.map_cons]
      · rw [glued, join_cons, List.append_assoc, List.append_assoc]

theorem read_drain (stream : List β) :
    terminator.Read parse stream ((terminator.decoder parse).drain stream).1
      ((terminator.decoder parse).drain stream).2 := by
  induction stream using (terminator.decoder parse).drain_induction with
  | waiting stream idle =>
      rw [Decoder.drain_of_waiting idle]
      rcases decodeLine_cases parse stream with ⟨free, _⟩ | ⟨line, rest, _, takes⟩
      · show terminator.Read parse stream (([] : List α).map .ok) stream
        exact .waiting (List.forall_mem_nil _) rfl free rfl
      · exact absurd (congrArg Prod.fst (takes.symm.trans idle)) (map_some_ne_none _)
  | item stream item rest decoded ih =>
      rw [Decoder.drain_of_item decoded]
      rcases decodeLine_cases parse stream with ⟨_, waits⟩ | ⟨line, behind, found, takes⟩
      · cases waits.symm.trans decoded
      · obtain ⟨split, free⟩ := cut_spec found
        have both := takes.symm.trans decoded
        cases parsed : parse line with
        | ok other =>
            rw [parsed] at both
            cases both
            rw [split]
            exact ih.cons free parsed
        | error failure =>
            rw [parsed] at both
            cases both
  | error stream failure rest decoded =>
      rw [Decoder.drain_of_error decoded]
      rcases decodeLine_cases parse stream with ⟨_, waits⟩ | ⟨line, behind, found, takes⟩
      · cases waits.symm.trans decoded
      · obtain ⟨split, free⟩ := cut_spec found
        have both := takes.symm.trans decoded
        cases parsed : parse line with
        | ok other =>
            rw [parsed] at both
            cases both
        | error other =>
            rw [parsed] at both
            cases both
            show terminator.Read parse stream (([] : List α).map .ok ++ [.error failure]) rest
            exact .failed (List.forall_mem_nil _) rfl free parsed split

end Decode

end RustDemo.Stream.Terminator
