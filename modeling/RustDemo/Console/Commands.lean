import RustDemo.Chat.Json
import RustDemo.Text.Trim

/-!
# Console commands

The three chat clients read the same commands from the console.  The handlers
of `client` and `actor_chat` are the same; the one of `actor_ws_tcp_chat` drops
a blank line before it looks for a command.
-/

namespace RustDemo.Console

open RustDemo.Chat RustDemo.Text

/-- `str::starts_with` of a character. -/
def startsWith (text : String) (c : Char) : Bool := text.toList.head? = some c

/-- The search of `str::splitn` for a character: the last of `n` pieces is not cut any more. -/
def piecesOf : Nat → Char → List Char → List (List Char)
  | 0, _, _ => []
  | 1, _, text => [text]
  | n + 2, c, text =>
      if c ∈ text then
        text.takeWhile (· ≠ c) :: piecesOf (n + 1) c (text.dropWhile (· ≠ c)).tail
      else [text]

/-- `str::splitn` -/
def splitn (text : String) (n : Nat) (c : Char) : List String :=
  (piecesOf n c text.toList).map String.ofList

/-- What a handler writes for its line, once it is trimmed. -/
def command (m : String) : Option ChatRequest :=
  -- we check for /sss type of messages
  if startsWith m '/' then
    let v := splitn m 2 ' '
    match v[0]? with
    | some "/list" => some .list
    | some "/join" => if v.length = 2 then v[1]?.map .join else none
    | _ => none
  else some (.message m)

/-- The chat clients of the repository. -/
inductive ChatClient where
  | client
  | actorChat
  | actorWsTcpChat
deriving DecidableEq

/-- `Handler<ClientCommand>::handle`: the request that is written, if there is one. -/
def handle (chatClient : ChatClient) (msg : String) : Option ChatRequest :=
  let m := trim msg
  match chatClient with
  | .client => command m
  | .actorChat => command m
  | .actorWsTcpChat => if m.isEmpty then none else command m

example : handle .client "/join main\n" = some (.join "main") := by decide

theorem piecesOf_two {first : List Char} (unseparated : ' ' ∉ first) (rest : List Char) :
    piecesOf 2 ' ' (first ++ ' ' :: rest) = [first, rest] := by
  have others : ∀ c ∈ first, decide (c ≠ ' ') := by
    intro c held
    exact decide_eq_true fun same => unseparated (same ▸ held)
  have separated : ' ' ∈ first ++ ' ' :: rest := List.mem_append_right first List.mem_cons_self
  rw [piecesOf, if_pos separated, List.takeWhile_append_of_pos others,
    List.dropWhile_append_of_pos others, List.takeWhile_cons_of_neg (by decide),
    List.dropWhile_cons_of_neg (by decide), List.append_nil]
  rfl

theorem splitn_two (m : String) : splitn m 2 ' ' = [m] ∨
    ∃ first rest, m = first ++ " " ++ rest ∧ splitn m 2 ' ' = [first, rest] := by
  by_cases separated : ' ' ∈ m.toList
  · right
    obtain ⟨first, rest, cut, unseparated⟩ := List.eq_append_cons_of_mem separated
    refine ⟨String.ofList first, String.ofList rest, ?_, ?_⟩
    · apply String.toList_inj.mp
      simp [cut]
    · rw [splitn, cut, piecesOf_two unseparated]
      rfl
  · left
    rw [splitn, piecesOf, if_neg separated]
    exact congrArg (fun text => [text]) String.ofList_toList

inductive Commanded (m : String) : Option ChatRequest → Prop where
  | message (plain : ¬ startsWith m '/') : Commanded m (some (.message m))
  | list (slash : startsWith m '/') : Commanded m (some .list)
  | join (slash : startsWith m '/') {name : String} (named : m = "/join " ++ name) :
      Commanded m (some (.join name))
  | nothing (slash : startsWith m '/') : Commanded m none

theorem commanded (m : String) : Commanded m (command m) := by
  by_cases slash : startsWith m '/'
  · rw [command, if_pos slash]
    rcases splitn_two m with whole | ⟨first, rest, cut, parts⟩
    · rw [whole]
      dsimp only
      split
      · exact .list slash
      · exact .nothing slash
      · exact .nothing slash
    · rw [parts]
      dsimp only
      split
      · exact .list slash
      · rename_i named
        cases named
        exact .join slash cut
      · exact .nothing slash
  · rw [command, if_neg slash]
    exact .message slash

theorem command_join (name : String) : command ("/join " ++ name) = some (.join name) := by
  simp [command, startsWith, splitn, piecesOf]

theorem handle_eq {line : String} (notBlank : trim line ≠ "") (chatClient : ChatClient) :
    handle chatClient line = command (trim line) := by
  cases chatClient with
  | client => rfl
  | actorChat => rfl
  | actorWsTcpChat =>
      apply if_neg
      rw [String.isEmpty_iff]
      exact notBlank

/-! ## The command language -/

/-- What the line is to mean to all three clients. -/
structure Regular (line : String) : Prop where
  agree : ∀ one other : ChatClient, handle one line = handle other line
  message : ∀ chatClient text, handle chatClient line = some (.message text) →
    text ≠ "" ∧ Trimmed text
  join : ∀ chatClient name, handle chatClient line = some (.join name) → name ≠ "" ∧ Trimmed name
  slash : startsWith (trim line) '/' → ∀ chatClient text, handle chatClient line ≠ some (.message text)
  named : ∀ before between name after, Blank before → Blank between → between ≠ "" → Blank after →
    name ≠ "" → Trimmed name → line = before ++ ("/join" ++ between ++ name) ++ after →
      ∀ chatClient, handle chatClient line = some (.join name)

/-- There is something on the line, and white space behind `/join` is one space. -/
structure Plain (line : String) : Prop where
  not_blank : trim line ≠ ""
  one_space : ∀ between name, Blank between → between ≠ "" → Trimmed name →
    trim line = "/join" ++ between ++ name → between = " "

theorem Regular.plain {line : String} (regular : Regular line) : Plain line := by
  have trimmed := trimmed_trim line
  constructor
  · intro blank
    have written : handle .client line = some (.message "") := by
      rw [handle, blank]
      rfl
    exact (regular.message .client "" written).1 rfl
  · intro between name blank between_ne trimmedName whole
    obtain ⟨before, after, blankBefore, blankAfter, padded⟩ := exists_padding line
    have name_ne : name ≠ "" := by
      rintro rfl
      rw [whole, String.append_empty] at trimmed
      exact between_ne (trimmed.end_eq blank)
    rw [whole] at padded
    have joined := regular.named before between name after blankBefore blank between_ne blankAfter
      name_ne trimmedName padded .client
    have spec := commanded (trim line)
    rw [show command (trim line) = _ from joined] at spec
    cases spec with
    | join slash named =>
        have same : "/join" ++ between ++ name = "/join" ++ " " ++ name := whole.symm.trans named
        exact (String.append_right_inj _).mp ((String.append_left_inj name).mp same)

theorem trimmed_join : Trimmed "/join" where
  head := by
    rintro c ⟨⟩
    exact Bool.false_ne_true
  last := by
    rintro c ⟨⟩
    exact Bool.false_ne_true

theorem blank_space : Blank " " := by
  intro c held
  rw [List.mem_singleton.mp held]
  rfl

/-- White space in front of the name would be more than the one space. -/
theorem Plain.trimmed_name {line name : String} (plain : Plain line)
    (named : trim line = "/join " ++ name) : Trimmed name := by
  have trimmed := trimmed_trim line
  obtain ⟨before, after, blankBefore, blankAfter, padded⟩ := exists_padding name
  rw [named, padded, ← String.append_assoc] at trimmed
  have noEnd := trimmed.end_eq blankAfter
  have spaced : trim line = "/join" ++ (" " ++ before) ++ trim name := by
    rw [named]
    apply String.toList_inj.mp
    have letters := congrArg String.toList padded
    rw [noEnd] at letters
    simpa using letters
  have one := plain.one_space (" " ++ before) (trim name) (blank_space.append blankBefore)
    (by simp) (trimmed_trim name) spaced
  have noBegin : before = "" := (String.append_right_inj " ").mp one
  rw [noBegin, noEnd, String.empty_append, String.append_empty] at padded
  rw [padded]
  exact trimmed_trim name

theorem Plain.regular {line : String} (plain : Plain line) : Regular line := by
  have trimmed := trimmed_trim line
  have same := handle_eq plain.not_blank
  refine ⟨fun one other => (same one).trans (same other).symm, ?_, ?_, ?_, ?_⟩
  · intro chatClient text written
    have spec := commanded (trim line)
    rw [← same chatClient, written] at spec
    cases spec with
    | message unslashed => exact ⟨plain.not_blank, trimmed⟩
  · intro chatClient name written
    have spec := commanded (trim line)
    rw [← same chatClient, written] at spec
    cases spec with
    | join slash named =>
        rw [named] at trimmed
        refine ⟨?_, plain.trimmed_name named⟩
        rintro rfl
        have onlySpace : Trimmed ("/join" ++ " ") := trimmed
        exact absurd (onlySpace.end_eq blank_space) (by decide)
  · intro slash chatClient text written
    have spec := commanded (trim line)
    rw [← same chatClient, written] at spec
    cases spec with
    | message unslashed => exact unslashed slash
  · intro before between name after blankBefore blank between_ne blankAfter name_ne trimmedName whole
      chatClient
    have body := trimmed_join.around (by decide) between trimmedName name_ne
    have inner : trim line = "/join" ++ between ++ name := by
      rw [whole]
      exact trim_padded blankBefore body blankAfter
    rw [same, inner, plain.one_space between name blank between_ne trimmedName inner]
    exact command_join name

/--
The command language.  The three clients write the same for a line, texts and
room names without white space around them, and a room name however it is
spaced, just when the line is not blank and the white space behind `/join` is
one space.
-/
theorem regular_iff_plain (line : String) : Regular line ↔ Plain line :=
  ⟨Regular.plain, Plain.regular⟩

/-- A second space goes into the room name. -/
theorem room_name_with_space : ¬ ∀ line, Regular line := by
  intro regular
  obtain ⟨-, trimmed⟩ := (regular "/join  main\n").join .client " main" (by decide)
  exact trimmed.head ' ' rfl rfl

end RustDemo.Console
