import RustDemo.Text.Format

/-!
# Self-delimiting formats

A reader of such a format decides on the bytes that it takes and on nothing
behind them.  So what is read of a text that was cut short is read of the whole
text too.
-/

namespace RustDemo.Text

variable {α β : Type}

/-- The bytes in front of `rest` are read as the value, whatever comes behind them. -/
def Takes (read : List UInt8 → Option (α × List UInt8)) (bytes : List UInt8) (value : α)
    (rest : List UInt8) : Prop :=
  ∃ taken, bytes = taken ++ rest ∧ ∀ other, read (taken ++ other) = some (value, other)

def SelfDelimiting (read : List UInt8 → Option (α × List UInt8)) : Prop :=
  ∀ bytes value rest, read bytes = some (value, rest) → Takes read bytes value rest

/-- What a cut text begins with is not all that is read of the whole one. -/
theorem not_prefix_take {read : List UInt8 → Option (α × List UInt8)} {text taken : List UInt8}
    {value found : α} (whole : read text = some (value, []))
    (again : ∀ other, read (taken ++ other) = some (found, other)) {n : Nat}
    (short : n < text.length) : ¬ taken <+: text.take n := by
  rintro ⟨behind, same⟩
  have goesOn := again (behind ++ text.drop n)
  rw [← List.append_assoc, same, List.take_append_drop, whole] at goesOn
  cases behind with
  | nil =>
      have nothing : text.drop n = [] := (Prod.mk.inj (Option.some.inj goesOn)).2.symm
      exact absurd (List.drop_eq_nil_iff.mp nothing) (Nat.not_le.mpr short)
  | cons first more => cases goesOn

theorem eq_append_of_strip {text bytes rest : List UInt8} (found : strip text bytes = some rest) :
    bytes = text ++ rest := by
  unfold strip at found
  split at found
  · rename_i begins
    cases found
    exact (List.prefix_iff_eq_append.mp (List.isPrefixOf_iff_prefix.mp begins)).symm
  · cases found

namespace JsonString

theorem unescape_unicode (first second high low : UInt8) (rest : List UInt8) :
    unescape (0x5C :: 0x75 :: first :: second :: high :: low :: rest) =
      push (16 * ofHexDigit high + ofHexDigit low) (unescape rest) := by
  rw [unescape.eq_def]
  simp

theorem takes_push (front : List UInt8) {byte : UInt8} {text bytes rest : List UInt8}
    (step : ∀ other, unescape (front ++ other) = push byte (unescape other))
    (ih : ∀ bytes rest, unescape text = some (bytes, rest) → Takes unescape text bytes rest)
    (pushed : push byte (unescape text) = some (bytes, rest)) :
    Takes unescape (front ++ text) bytes rest := by
  cases read : unescape text with
  | none =>
      rw [read] at pushed
      cases pushed
  | some pair =>
      rw [read] at pushed
      cases pushed
      obtain ⟨taken, rfl, again⟩ := ih _ _ read
      refine ⟨front ++ taken, (List.append_assoc _ _ _).symm, fun other => ?_⟩
      rw [List.append_assoc, step, again]
      rfl

theorem selfDelimiting_unescape : SelfDelimiting unescape := by
  intro text
  fun_induction unescape text with
  | case1 | case3 | case5 | case6 => rintro bytes rest ⟨⟩
  | case2 tail =>
      rintro bytes rest ⟨⟩
      exact ⟨[0x22], rfl, unescape_quote⟩
  | case4 first second high low more notQuote ih =>
      exact fun bytes rest => takes_push [0x5C, 0x75, first, second, high, low]
        (unescape_unicode first second high low) ih
  | case7 letter tail notU plain short notQuote ih =>
      exact fun bytes rest => takes_push [0x5C, letter]
        (unescape_short notU short) ih
  | case8 byte tail notQuote notBackslash ih =>
      exact fun bytes rest => takes_push [byte]
        (unescape_plain notQuote notBackslash) ih

theorem selfDelimiting_readQuoted : SelfDelimiting readQuoted := by
  intro bytes text rest read
  cases bytes with
  | nil => cases read
  | cons byte tail =>
      rw [readQuoted] at read
      split at read
      · rename_i quote
        subst quote
        obtain ⟨⟨plain, more⟩, unescaped, spelled⟩ := Option.bind_eq_some_iff.mp read
        obtain ⟨_, valid, same⟩ := Option.map_eq_some_iff.mp spelled
        cases same
        obtain ⟨taken, rfl, again⟩ := selfDelimiting_unescape _ _ _ unescaped
        refine ⟨0x22 :: taken, rfl, fun other => ?_⟩
        rw [List.cons_append, readQuoted, if_pos rfl, again, Option.bind_some]
        dsimp only
        rw [valid]
        rfl
      · cases read

end JsonString

namespace Format

theorem selfDelimiting_between {inner : Format α} (local_ : SelfDelimiting inner.read)
    (before after : List UInt8) : SelfDelimiting (inner.between before after).read := by
  intro bytes value rest read
  obtain ⟨body, begins, read⟩ := Option.bind_eq_some_iff.mp read
  obtain ⟨⟨found, behind⟩, inside, read⟩ := Option.bind_eq_some_iff.mp read
  obtain ⟨last, ends, same⟩ := Option.map_eq_some_iff.mp read
  cases same
  obtain ⟨taken, rfl, again⟩ := local_ _ _ _ inside
  cases eq_append_of_strip begins
  cases eq_append_of_strip ends
  refine ⟨before ++ (taken ++ after), by simp, fun other => ?_⟩
  show (strip before _).bind _ = _
  rw [List.append_assoc, List.append_assoc, strip_append, Option.bind_some, again, Option.bind_some]
  dsimp only
  rw [strip_append]
  rfl

theorem selfDelimiting_seq {first : Format α} {second : Format β}
    (localFirst : SelfDelimiting first.read) (localSecond : SelfDelimiting second.read) :
    SelfDelimiting (first.seq second).read := by
  intro bytes value rest read
  obtain ⟨⟨found, behind⟩, front, read⟩ := Option.bind_eq_some_iff.mp read
  obtain ⟨⟨other, last⟩, back, same⟩ := Option.map_eq_some_iff.mp read
  cases same
  obtain ⟨taken, rfl, again⟩ := localFirst _ _ _ front
  obtain ⟨later, rfl, more⟩ := localSecond _ _ _ back
  refine ⟨taken ++ later, (List.append_assoc _ _ _).symm, fun other => ?_⟩
  show (first.read _).bind _ = _
  rw [List.append_assoc, again, Option.bind_some]
  dsimp only
  rw [more]
  rfl

theorem selfDelimiting_map {format : Format α} (local_ : SelfDelimiting format.read) (form : α → β)
    (back : β → α) (same : ∀ value, form (back value) = value) :
    SelfDelimiting (format.map form back same).read := by
  intro bytes value rest read
  obtain ⟨⟨found, behind⟩, inside, shape⟩ := Option.map_eq_some_iff.mp read
  cases shape
  obtain ⟨taken, rfl, again⟩ := local_ _ _ _ inside
  refine ⟨taken, rfl, fun other => ?_⟩
  show (format.read _).map _ = _
  rw [again]
  rfl

theorem selfDelimiting_stopped (stop : UInt8) (token : α → List UInt8)
    (parse : List UInt8 → Option α) (free : ∀ value, stop ∉ token value)
    (parse_token : ∀ value, parse (token value) = some value) :
    SelfDelimiting (stopped stop token parse free parse_token).read := by
  intro bytes value rest read
  generalize front : bytes.takeWhile (· ≠ stop) = tokenBytes
  have whole := List.takeWhile_append_dropWhile (p := (· ≠ stop)) (l := bytes)
  rw [front] at whole
  have others : ∀ byte ∈ tokenBytes, decide (byte ≠ stop) = true := by
    rw [← front]
    exact List.all_eq_true.mp List.all_takeWhile
  unfold stopped at read
  dsimp only at read
  cases behind : bytes.dropWhile (· ≠ stop) with
  | nil =>
      rw [behind] at read
      cases read
  | cons head tail =>
      have stops : head = stop := by
        have first := List.head?_dropWhile_not (· ≠ stop) bytes
        rw [behind] at first
        simpa using first
      rw [behind, front] at read
      obtain ⟨found, parsed, same⟩ := Option.map_eq_some_iff.mp read
      cases same
      refine ⟨tokenBytes ++ [stop], ?_, fun other => ?_⟩
      · rw [← whole, behind, stops, List.append_assoc]
        rfl
      · unfold stopped
        dsimp only
        rw [List.append_assoc, List.dropWhile_append_of_pos others,
          List.takeWhile_append_of_pos others]
        simp [parsed]

/-! ## Lists -/

namespace Brackets

variable (brackets : Brackets) {item : Format α}

theorem readTail_taken (local_ : SelfDelimiting item.read) {fuel : Nat} {bytes : List UInt8}
    {values : List α} {rest : List UInt8}
    (read : brackets.readTail item fuel bytes = some (values, rest)) :
    ∃ taken, bytes = taken ++ rest ∧ brackets.closing <:+ taken ∧ values.length ≤ taken.length ∧
      ∀ other fuel, values.length < fuel →
        brackets.readTail item fuel (taken ++ other) = some (values, other) := by
  induction fuel generalizing bytes values with
  | zero => cases read
  | succ fuel ih =>
      rw [readTail] at read
      cases closed : strip brackets.closing bytes with
      | some behind =>
          rw [closed] at read
          cases read
          refine ⟨brackets.closing, eq_append_of_strip closed, List.suffix_rfl, Nat.zero_le _, ?_⟩
          intro other fuel enough
          cases fuel with
          | zero => exact absurd enough (Nat.not_lt_zero _)
          | succ fuel => rw [readTail, strip_append]
      | none =>
          rw [closed] at read
          obtain ⟨body, separated, read⟩ := Option.bind_eq_some_iff.mp read
          obtain ⟨⟨value, behind⟩, inside, read⟩ := Option.bind_eq_some_iff.mp read
          obtain ⟨⟨later, last⟩, tail, same⟩ := Option.map_eq_some_iff.mp read
          cases same
          obtain ⟨taken, rfl, again⟩ := local_ _ _ _ inside
          obtain ⟨more, rfl, closes, short, goesOn⟩ := ih tail
          cases eq_append_of_strip separated
          refine ⟨brackets.separator ++ (taken ++ more), by simp, ?_, ?_, ?_⟩
          · exact closes.trans ((List.suffix_append taken more).trans (List.suffix_append _ _))
          · have separates := List.length_pos_iff.mpr brackets.separates
            rw [List.length_append, List.length_append, List.length_cons]
            omega
          · intro other fuel enough
            cases fuel with
            | zero => exact absurd enough (Nat.not_lt_zero _)
            | succ fuel =>
                rw [readTail, List.append_assoc, List.append_assoc, brackets.goesOn]
                dsimp only
                rw [strip_append, Option.bind_some, again, Option.bind_some]
                dsimp only
                rw [goesOn other fuel (Nat.lt_of_succ_lt_succ enough)]
                rfl

theorem read_taken (local_ : SelfDelimiting item.read) {bytes : List UInt8} {values : List α}
    {rest : List UInt8} (read : brackets.read item bytes = some (values, rest)) :
    ∃ taken, bytes = taken ++ rest ∧ (brackets.empty <:+ taken ∨ brackets.closing <:+ taken) ∧
      ∀ other, brackets.read item (taken ++ other) = some (values, other) := by
  rw [Brackets.read] at read
  cases emptied : strip brackets.empty bytes with
  | some behind =>
      rw [emptied] at read
      cases read
      refine ⟨brackets.empty, eq_append_of_strip emptied, Or.inl List.suffix_rfl, fun other => ?_⟩
      rw [Brackets.read, strip_append]
  | none =>
      rw [emptied] at read
      obtain ⟨body, opened, read⟩ := Option.bind_eq_some_iff.mp read
      obtain ⟨⟨value, behind⟩, inside, read⟩ := Option.bind_eq_some_iff.mp read
      obtain ⟨⟨later, last⟩, tail, same⟩ := Option.map_eq_some_iff.mp read
      cases same
      obtain ⟨taken, rfl, again⟩ := local_ _ _ _ inside
      obtain ⟨more, rfl, closes, short, goesOn⟩ := brackets.readTail_taken local_ tail
      cases eq_append_of_strip opened
      refine ⟨brackets.opening ++ (taken ++ more), by simp, Or.inr ?_, fun other => ?_⟩
      · exact closes.trans ((List.suffix_append taken more).trans (List.suffix_append _ _))
      · rw [Brackets.read, List.append_assoc, List.append_assoc, brackets.opens]
        dsimp only
        rw [strip_append, Option.bind_some, again, Option.bind_some]
        dsimp only
        rw [goesOn other _ (by rw [List.length_append]; omega)]
        rfl

/-! ### The end of a list -/

variable (item)

/-- The elements behind the first one, without the closing bracket. -/
def bodyTail : List α → List UInt8
  | [] => []
  | value :: values => brackets.separator ++ (item.print value ++ bodyTail values)

theorem printTail_append (values more : List α) :
    brackets.printTail item (values ++ more) =
      brackets.bodyTail item values ++ brackets.printTail item more := by
  induction values with
  | nil => rfl
  | cons value values ih =>
      rw [List.cons_append, printTail, ih, bodyTail, List.append_assoc, List.append_assoc]

theorem printTail_eq (values : List α) :
    brackets.printTail item values = brackets.bodyTail item values ++ brackets.closing := by
  rw [← List.append_nil values, printTail_append, List.append_nil]
  rfl

theorem readTail_bodyTail {broken : List UInt8}
    (breaks : ∀ fuel, brackets.readTail item fuel broken = none) (values : List α) (fuel : Nat) :
    brackets.readTail item fuel (brackets.bodyTail item values ++ broken) = none := by
  induction values generalizing fuel with
  | nil => exact breaks fuel
  | cons value values ih =>
      cases fuel with
      | zero => rfl
      | succ fuel =>
          rw [bodyTail, readTail, List.append_assoc, List.append_assoc, brackets.goesOn]
          dsimp only
          rw [strip_append, Option.bind_some, item.read_print, Option.bind_some]
          dsimp only
          rw [ih fuel]
          rfl

theorem read_bodyTail {broken : List UInt8}
    (breaks : ∀ fuel, brackets.readTail item fuel broken = none) (value : α) (values : List α) :
    brackets.read item (brackets.opening ++ (item.print value ++
      (brackets.bodyTail item values ++ broken))) = none := by
  rw [Brackets.read, brackets.opens]
  dsimp only
  rw [strip_append, Option.bind_some, item.read_print, Option.bind_some]
  dsimp only
  rw [brackets.readTail_bodyTail item breaks values]
  rfl

end Brackets

end Format

end RustDemo.Text
