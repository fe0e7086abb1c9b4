import RustDemo.Text.SelfDelimiting
import RustDemo.WsChat.Saving

/-!
# Failed saves

A SAVE that fails while it is writing, or is cut off by the end of the server,
leaves the first bytes of a text over the text that was in the file.  As the log
only grows, the two agree up to the place where the older one closes its list.
-/

namespace RustDemo.WsChat

open RustDemo.Text RustDemo.Transition

/--
What the server relies on in a text that was cut short.  Up to its closing
bracket, the body, the text of a log is kept in the texts of all logs that
go on from it; a text without its last bytes is an error, and so is one that
ends like an older text after its body.
-/
structure SerdeFile.Cut (serde : SerdeFile) (body : List LogMessage → List UInt8) : Prop where
  keeps : ∀ log longer, log <+: longer → body log <+: serde.toWriterPretty longer
  closes : ∀ log, (serde.toWriterPretty log).length ≤ (body log).length + 2
  cut : ∀ log n rest, n < (serde.toWriterPretty log).length → Blank rest →
    serde.fromReader ((serde.toWriterPretty log).take n ++ rest) = none
  mixed : ∀ log longer n rest, log <+: longer → log ≠ longer → (body log).length < n →
    n < (serde.toWriterPretty log).length → Blank rest →
      serde.fromReader ((serde.toWriterPretty longer).take n ++
        ((serde.toWriterPretty log).drop n ++ rest)) = none

namespace LogText

theorem selfDelimiting_entry : SelfDelimiting entry.read := by
  apply Format.selfDelimiting_map
  apply Format.selfDelimiting_seq
  · exact Format.selfDelimiting_between JsonString.selfDelimiting_readQuoted _ _
  · apply Format.selfDelimiting_seq
    · exact Format.selfDelimiting_stopped _ _ _ _ _
    · exact Format.selfDelimiting_between JsonString.selfDelimiting_readQuoted _ _

/-- The text without its closing bracket. -/
def body : List LogMessage → List UInt8
  | [] => utf8 "["
  | first :: log => brackets.opening ++ (entry.print first ++ brackets.bodyTail entry log)

theorem text_eq (log : List LogMessage) : serde.toWriterPretty log = brackets.print entry log := rfl

theorem text_cons (first : LogMessage) (log : List LogMessage) :
    serde.toWriterPretty (first :: log) = body (first :: log) ++ brackets.closing := by
  rw [text_eq, Format.Brackets.print, Format.Brackets.printTail_eq, body, List.append_assoc,
    List.append_assoc]

theorem text_append (first : LogMessage) (log : List LogMessage) (next : LogMessage)
    (more : List LogMessage) :
    ∃ behind, serde.toWriterPretty (first :: log ++ next :: more) =
      body (first :: log) ++ (brackets.separator ++ behind) := by
  refine ⟨entry.print next ++ brackets.printTail entry more, ?_⟩
  rw [text_eq, List.cons_append, Format.Brackets.print, Format.Brackets.printTail_append, body,
    List.append_assoc, List.append_assoc]
  rfl

theorem body_prefix (log longer : List LogMessage) (begins : log <+: longer) :
    body log <+: serde.toWriterPretty longer := by
  obtain ⟨more, rfl⟩ := begins
  cases log with
  | nil =>
      cases more with
      | nil => exact ⟨utf8 "]", by decide⟩
      | cons first log =>
          rw [List.nil_append, text_eq]
          exact ⟨utf8 "\n" ++ _, rfl⟩
  | cons first log =>
      cases more with
      | nil =>
          rw [List.append_nil, text_cons]
          exact List.prefix_append _ _
      | cons next more =>
          obtain ⟨behind, text⟩ := text_append first log next more
          rw [text]
          exact List.prefix_append _ _

theorem length_text_le (log : List LogMessage) :
    (serde.toWriterPretty log).length ≤ (body log).length + 2 := by
  cases log with
  | nil => decide
  | cons first log =>
      rw [text_cons, List.length_append]
      exact Nat.le_refl _

theorem bracket_of_taken {taken : List UInt8}
    (closes : brackets.empty <:+ taken ∨ brackets.closing <:+ taken) :
    ∃ front, taken = front ++ [0x5D] := by
  rcases closes with ⟨front, rfl⟩ | ⟨front, rfl⟩
  · exact ⟨front ++ utf8 "[", by rw [List.append_assoc]; rfl⟩
  · exact ⟨front ++ utf8 "\n", by rw [List.append_assoc]; rfl⟩

theorem fromReader_take (log : List LogMessage) (n : Nat) (rest : List UInt8)
    (short : n < (serde.toWriterPretty log).length) (blank : Blank rest) :
    serde.fromReader ((serde.toWriterPretty log).take n ++ rest) = none := by
  have whole : format.read (serde.toWriterPretty log) = some (log, []) := by
    have read := format.read_print log []
    rwa [List.append_nil] at read
  cases read : format.read ((serde.toWriterPretty log).take n ++ rest) with
  | none =>
      show (format.read _).bind _ = none
      rw [read]
      rfl
  | some pair =>
      obtain ⟨found, last⟩ := pair
      obtain ⟨taken, split, closes, again⟩ := brackets.read_taken selfDelimiting_entry read
      refine absurd ?_ (not_prefix_take whole again short)
      rcases List.append_eq_append_iff.mp split with ⟨more, reaches, inside⟩ | ⟨behind, within, _⟩
      · -- the bracket is not among the blanks
        rcases List.eq_nil_or_concat more with rfl | ⟨others, byte, rfl⟩
        · exact ⟨[], by rw [reaches, List.append_nil, List.append_nil]⟩
        · obtain ⟨front, ends⟩ := bracket_of_taken closes
          rw [List.concat_eq_append, ← List.append_assoc, ends] at reaches
          have bracket : 0x5D = byte := (List.append_inj' reaches rfl).2 |> List.singleton_inj.mp
          have among : byte ∈ rest := by simp [inside]
          cases bracket ▸ blank byte among
      · exact ⟨behind, within.symm⟩

/-- An older list may not close behind the comma of a newer one. -/
theorem fromReader_mixed (log longer : List LogMessage) (n : Nat) (rest : List UInt8)
    (begins : log <+: longer) (other : log ≠ longer) (behind : (body log).length < n)
    (short : n < (serde.toWriterPretty log).length) (_ : Blank rest) :
    serde.fromReader ((serde.toWriterPretty longer).take n ++
      ((serde.toWriterPretty log).drop n ++ rest)) = none := by
  obtain ⟨more, rfl⟩ := begins
  cases more with
  | nil => exact absurd (List.append_nil log).symm other
  | cons next more =>
      cases log with
      | nil =>
          have : (serde.toWriterPretty []).length = 2 := rfl
          have : (body []).length = 1 := rfl
          omega
      | cons first log =>
          have bound := length_text_le (first :: log)
          obtain rfl : n = (body (first :: log)).length + 1 := by omega
          obtain ⟨later, text⟩ := text_append first log next more
          rw [text, text_cons, List.take_length_add_append, List.drop_length_add_append]
          have breaks : ∀ fuel, brackets.readTail entry fuel (0x2C :: 0x5D :: rest) = none := by
            intro fuel
            cases fuel <;> rfl
          have broken := brackets.read_bodyTail entry breaks first log
          show (format.read _).bind _ = none
          rw [show format.read _ = none from ?_]
          · rfl
          · rw [body, List.append_assoc, List.append_assoc, List.append_assoc]
            exact broken

theorem cut : serde.Cut body where
  keeps := body_prefix
  closes := length_text_le
  cut := fromReader_take
  mixed := fromReader_mixed

end LogText

section Files

variable {serde : SerdeFile} {body : List LogMessage → List UInt8}

theorem take_eq_of_prefix {front first second : List UInt8} (one : front <+: first)
    (two : front <+: second) {n : Nat} (short : n ≤ front.length) :
    first.take n = second.take n := by
  obtain ⟨more, rfl⟩ := one
  obtain ⟨other, rfl⟩ := two
  rw [List.take_append_of_le_length short, List.take_append_of_le_length short]

/-- Up to the body of an older text the first bytes of a text change nothing. -/
theorem take_text (cut : serde.Cut body) {old log : List LogMessage} (begins : old <+: log)
    (rest : List UInt8) {n : Nat} (short : n ≤ (serde.toWriterPretty log).length)
    (same : n ≤ (body old).length ∨ old = log) :
    (serde.toWriterPretty log).take n = (serde.toWriterPretty old ++ rest).take n := by
  rcases same with early | rfl
  · refine take_eq_of_prefix (cut.keeps old log begins) ?_ early
    exact (cut.keeps old old List.prefix_rfl).trans (List.prefix_append _ rest)
  · rw [List.take_append_of_le_length short]

theorem fromReader_over (lawful : serde.Lawful) (cut : serde.Cut body) {old log : List LogMessage}
    (begins : old <+: log) {rest : List UInt8} (blank : Blank rest) {n : Nat}
    (short : n ≤ (serde.toWriterPretty log).length) :
    serde.fromReader ((serde.toWriterPretty log).take n ++ (serde.toWriterPretty old ++ rest).drop n) =
      if n = (serde.toWriterPretty log).length then some log
      else if n ≤ (body old).length ∨ old = log then some old else none := by
  by_cases complete : n = (serde.toWriterPretty log).length
  · rw [if_pos complete, complete, List.take_length]
    exact lawful.reads_back log _ (lawful.blank_drop begins blank)
  · rw [if_neg complete]
    by_cases same : n ≤ (body old).length ∨ old = log
    · rw [if_pos same, take_text cut begins rest short same, List.take_append_drop]
      exact lawful.reads_back old rest blank
    · obtain ⟨behind, other⟩ := not_or.mp same
      rw [if_neg same]
      have before : n < (serde.toWriterPretty log).length := Nat.lt_of_le_of_ne short complete
      by_cases inside : n < (serde.toWriterPretty old).length
      · rw [List.drop_append_of_le_length (Nat.le_of_lt inside)]
        exact cut.mixed old log n rest begins other (Nat.lt_of_not_le behind) inside blank
      · rw [List.drop_append, List.drop_eq_nil_of_le (Nat.le_of_not_lt inside), List.nil_append]
        exact cut.cut log n _ before (blank.drop _)

end Files

/-! ## The server -/

/-- What happens to the server, and a SAVE that ends after `n` bytes. -/
inductive DiskEvent (κ : Type) where
  | served (event : ServerEvent κ)
  | failedSave (k : κ) (n : Nat)

namespace Server

section Disk

variable {κ : Type} [DecidableEq κ] (crates : Crates) (serde : SerdeFile)

/-- `on_timeout` for `SAVE`, when writing ends after `n` bytes. -/
def onFailedSave (server : Server κ) (n : Nat) : Server κ :=
  let log := server.chat.shared.messageLog
  { server with file := overwrite server.file ((serde.toWriterPretty log).take n) }

def diskStep? (server : Server κ) : DiskEvent κ → Option (Server κ)
  | .served event => server.step? crates serde event
  | .failedSave k n =>
      match server.chat.connections k with
      | .opened _ => some (server.onFailedSave serde n)
      | _ => none

/-- Any initial file, and every order of what happens to the server and its SAVEs. -/
def diskSystem (file : List UInt8) : System (Server κ) (DiskEvent κ) :=
  ⟨start serde file, diskStep? crates serde⟩

/-- A restart finds a log, or a blank file to which nothing was saved. -/
def RestartsWhole (server : Server κ) : DiskEvent κ → Prop
  | .served .restart =>
      (serde.fromReader server.file).isSome ∨ (server.saved = none ∧ Blank server.file)
  | _ => True

instance (server : Server κ) (event : DiskEvent κ) :
    Decidable (RestartsWhole serde server event) :=
  match event with
  | .served .restart => inferInstanceAs (Decidable (_ ∨ _))
  | .served (.chat _) | .served (.save _) | .failedSave _ _ => inferInstanceAs (Decidable True)

end Disk

/-! ### Every run -/

section Layers

variable {κ : Type} {serde : SerdeFile} {body : List LogMessage → List UInt8}

/-- A file without a log, or one with a log that has all that was saved. -/
inductive Whole (serde : SerdeFile) (saved : Option (List LogMessage)) (log : List LogMessage) :
    List UInt8 → Prop where
  | blank {file : List UInt8} (blank : Blank file) (unsaved : saved = none) : Whole serde saved log file
  | text {old : List LogMessage} {rest : List UInt8} (blank : Blank rest) (begins : old <+: log)
      (kept : ∀ last, saved = some last → last <+: old) :
      Whole serde saved log (serde.toWriterPretty old ++ rest)

theorem Whole.mono {saved : Option (List LogMessage)} {log longer : List LogMessage}
    {file : List UInt8} (whole : Whole serde saved log file) (begins : log <+: longer) :
    Whole serde saved longer file := by
  cases whole with
  | blank blank unsaved => exact .blank blank unsaved
  | text blank old kept => exact .text blank (old.trans begins) kept

theorem Whole.drop (lawful : serde.Lawful) {saved : Option (List LogMessage)}
    {log : List LogMessage} {file : List UInt8} (whole : Whole serde saved log file) :
    Blank (file.drop (serde.toWriterPretty log).length) := by
  cases whole with
  | blank blank unsaved => exact blank.drop _
  | text blank begins kept => exact lawful.blank_drop begins blank

theorem Whole.kept {saved : Option (List LogMessage)} {log : List LogMessage} {file : List UInt8}
    (whole : Whole serde saved log file) : ∀ last, saved = some last → last <+: log := by
  cases whole with
  | blank blank unsaved =>
      rw [unsaved]
      exact nofun
  | text blank begins kept => exact fun last same => (kept last same).trans begins

/-- The first bytes of the text of a log over a whole file. -/
structure Layered (serde : SerdeFile) (server : Server κ) (whole : List UInt8)
    (log : List LogMessage) (n : Nat) : Prop where
  file : server.file = (serde.toWriterPretty log).take n ++ whole.drop n
  short : n ≤ (serde.toWriterPretty log).length
  running : log <+: server.chat.shared.messageLog
  whole : Whole serde server.saved log whole

theorem Layered.drop_file {server : Server κ} {whole : List UInt8} {log : List LogMessage}
    {n m : Nat} (layered : Layered serde server whole log n) (behind : n ≤ m) :
    server.file.drop m = whole.drop m := by
  have top : ((serde.toWriterPretty log).take n).length = n := by
    rw [List.length_take, Nat.min_eq_left layered.short]
  rw [layered.file, List.drop_append, top, List.drop_drop, Nat.add_sub_cancel' behind,
    List.drop_eq_nil_of_le (top.symm ▸ behind), List.nil_append]

/-- What is read from the file stands in it alone, and has all that was saved. -/
theorem Layered.reads (lawful : serde.Lawful) (cut : serde.Cut body) {server : Server κ}
    {whole : List UInt8} {log found : List LogMessage} {n : Nat}
    (layered : Layered serde server whole log n) (read : serde.fromReader server.file = some found) :
    ∃ rest, server.file = serde.toWriterPretty found ++ rest ∧ Blank rest ∧ found <+: log ∧
      ∀ last, server.saved = some last → last <+: found := by
  obtain ⟨file, short, running, fits⟩ := layered
  rcases Nat.eq_or_lt_of_le short with complete | before
  · rw [complete, List.take_length] at file
    have rest := fits.drop lawful
    rw [file, lawful.reads_back log _ rest] at read
    cases read
    exact ⟨_, file, rest, List.prefix_rfl, fits.kept⟩
  · cases fits with
    | blank blank unsaved =>
        rw [file, cut.cut log n _ before (blank.drop n)] at read
        cases read
    | @text old rest blank begins kept =>
        rw [file, fromReader_over lawful cut begins blank short, if_neg (Nat.ne_of_lt before)] at read
        split at read
        · rename_i same
          cases read
          rw [take_text cut begins rest short same, List.take_append_drop] at file
          exact ⟨rest, file, blank, begins, kept⟩
        · cases read

theorem Layered.save (lawful : serde.Lawful) {server : Server κ} {whole : List UInt8}
    {log : List LogMessage} {n : Nat} (layered : Layered serde server whole log n) :
    ∃ rest, (server.onSave serde).file =
      serde.toWriterPretty server.chat.shared.messageLog ++ rest ∧ Blank rest := by
  refine ⟨_, rfl, ?_⟩
  rw [layered.drop_file (Nat.le_trans layered.short (lawful.length_le layered.running))]
  exact (layered.whole.mono layered.running).drop lawful

/-- A SAVE that fails puts the beginning of the newest text over the same file, or over a newer one. -/
theorem Layered.failedSave (lawful : serde.Lawful) (cut : serde.Cut body) {server : Server κ}
    {whole : List UInt8} {log : List LogMessage} {n : Nat}
    (layered : Layered serde server whole log n) {m : Nat}
    (inside : m ≤ (serde.toWriterPretty server.chat.shared.messageLog).length) :
    ∃ whole log n, Layered serde (server.onFailedSave serde m) whole log n := by
  have written : (server.onFailedSave serde m).file =
      (serde.toWriterPretty server.chat.shared.messageLog).take m ++ server.file.drop m := by
    show overwrite _ _ = _
    rw [overwrite, List.length_take, Nat.min_eq_left inside]
  rcases Nat.lt_or_ge m n with fewer | more
  · obtain ⟨file, short, running, fits⟩ := layered
    rcases Nat.lt_or_ge (body log).length m with behind | early
    · -- the text below is complete
      have bound := cut.closes log
      obtain rfl : n = (serde.toWriterPretty log).length := by omega
      rw [List.take_length] at file
      have kept := fits.kept
      have below := fits.drop lawful
      refine ⟨server.file, _, m, written, inside, List.prefix_rfl, ?_⟩
      rw [file]
      exact .text below running kept
    · -- the text below is the same so far
      have same : (serde.toWriterPretty server.chat.shared.messageLog).take m = server.file.take m := by
        rw [file, List.take_append_of_le_length (by rw [List.length_take]; omega), List.take_take,
          Nat.min_eq_left (Nat.le_of_lt fewer)]
        exact take_eq_of_prefix (cut.keeps log _ running) (cut.keeps log log List.prefix_rfl) early
      rw [same, List.take_append_drop, file] at written
      exact ⟨whole, log, n, written, short, running, fits⟩
  · rw [layered.drop_file more] at written
    exact ⟨whole, _, m, written, inside, List.prefix_rfl, layered.whole.mono layered.running⟩

theorem layered_start {file : List UInt8} (clean : Clean serde file) (lawful : serde.Lawful) :
    ∃ whole log n, Layered serde (start (κ := κ) serde file) whole log n := by
  cases clean with
  | blank blank => exact ⟨file, [], 0, rfl, Nat.zero_le _, List.nil_prefix, .blank blank rfl⟩
  | saved log blank =>
      refine ⟨_, log, 0, rfl, Nat.zero_le _, ?_, .text blank List.prefix_rfl nofun⟩
      show log <+: load serde _
      rw [load, lawful.reads_back log _ blank]
      exact List.prefix_rfl

end Layers

section Runs

variable {κ : Type} [DecidableEq κ] {crates : Crates} {serde : SerdeFile}
  {body : List LogMessage → List UInt8}

theorem Layered.step (lawful : serde.Lawful) (cut : serde.Cut body) {server next : Server κ}
    {event : DiskEvent κ} {whole : List UInt8} {log : List LogMessage} {n : Nat}
    (layered : Layered serde server whole log n) (restarts : RestartsWhole serde server event)
    (stepped : server.diskStep? crates serde event = some next) :
    ∃ whole log n, Layered serde next whole log n := by
  cases event with
  | served event =>
      cases event with
      | chat event =>
          obtain ⟨chat, chatStepped, rfl⟩ := Option.map_eq_some_iff.mp stepped
          obtain ⟨file, short, running, fits⟩ := layered
          exact ⟨whole, log, n, file, short, running.trans (Chat.log_grows chatStepped), fits⟩
      | save k =>
          rw [diskStep?, step?] at stepped
          split at stepped <;> cases stepped
          obtain ⟨rest, file, blank⟩ := layered.save lawful
          refine ⟨_, _, 0, file, Nat.zero_le _, List.prefix_rfl, .text blank List.prefix_rfl ?_⟩
          rintro last ⟨⟩
          exact List.prefix_rfl
      | restart =>
          cases stepped
          rcases restarts with reads | ⟨unsaved, blank⟩
          · obtain ⟨found, read⟩ := Option.isSome_iff_exists.mp reads
            obtain ⟨rest, file, blank, -, kept⟩ := layered.reads lawful cut read
            refine ⟨_, found, 0, file, Nat.zero_le _, ?_, .text blank List.prefix_rfl kept⟩
            show found <+: load serde server.file
            rw [load, read]
            exact List.prefix_rfl
          · exact ⟨_, [], 0, rfl, Nat.zero_le _, List.nil_prefix, .blank blank unsaved⟩
  | failedSave k m =>
      rw [diskStep?] at stepped
      split at stepped <;> cases stepped
      rcases Nat.le_total m (serde.toWriterPretty server.chat.shared.messageLog).length with
        inside | beyond
      · exact layered.failedSave lawful cut inside
      · have all := layered.failedSave lawful cut (Nat.le_refl _)
        rw [onFailedSave, List.take_length] at all
        rw [onFailedSave, List.take_of_length_le beyond]
        exact all

theorem layered_of_run (lawful : serde.Lawful) (cut : serde.Cut body) {file : List UInt8}
    (clean : Clean serde file) {history : List (DiskEvent κ)} {server : Server κ}
    (run : (diskSystem crates serde file).run? history = some server)
    (restarts : (diskSystem crates serde file).Meets (RestartsWhole serde) history) :
    ∃ whole log n, Layered serde server whole log n := by
  refine (diskSystem crates serde file).invariant_of_meets (fun server : Server κ =>
    ∃ whole log n, Layered serde server whole log n) (layered_start clean lawful) ?_ run restarts
  rintro server event next ⟨whole, log, n, layered⟩ whole stepped
  exact layered.step lawful cut whole stepped

/--
Failed SAVEs.  From a file that the server can go on from, in every order of chat
events, SAVEs that complete, SAVEs that fail after any number of bytes, and restarts
that find a log: what the file gives is a part of the running log that has all
that was saved.  A SAVE that fails keeps it if it fails in the part that the two
texts share, and otherwise leaves a file that gives nothing, until the next SAVE
that completes, which is loaded back in any case.
-/
theorem failed_save (lawful : serde.Lawful) (cut : serde.Cut body) {file : List UInt8}
    (clean : Clean serde file) {history : List (DiskEvent κ)} {server : Server κ}
    (run : (diskSystem crates serde file).run? history = some server)
    (restarts : (diskSystem crates serde file).Meets (RestartsWhole serde) history) :
    (∀ found, serde.fromReader server.file = some found →
      found <+: server.chat.shared.messageLog ∧
      (∀ last, server.saved = some last → last <+: found) ∧
      ∀ n < (serde.toWriterPretty server.chat.shared.messageLog).length,
        serde.fromReader (server.onFailedSave serde n).file =
          if n ≤ (body found).length ∨ found = server.chat.shared.messageLog then some found
          else none) ∧
      (server.onSave serde).LoadsBack serde := by
  obtain ⟨whole, log, m, layered⟩ := layered_of_run lawful cut clean run restarts
  constructor
  · intro found read
    obtain ⟨rest, same, blank, begins, kept⟩ := layered.reads lawful cut read
    have running := begins.trans layered.running
    refine ⟨running, kept, fun n short => ?_⟩
    have given := fromReader_over lawful cut running blank (Nat.le_of_lt short)
    rw [if_neg (Nat.ne_of_lt short)] at given
    rw [← given, onFailedSave, overwrite, List.length_take, Nat.min_eq_left (Nat.le_of_lt short), same]
  · rintro _ ⟨⟩
    obtain ⟨rest, same, blank⟩ := layered.save lawful
    rw [same]
    exact lawful.reads_back _ rest blank

/-- A join is saved, and what comes next is the end of the connection. -/
def joinSaved : List (DiskEvent Nat) :=
  [.served (.chat (.onOpen 0 0)), .served (.chat (.onOpen 1 0)),
    .served (.chat (.onMessage 0 (.text Chat.annJoins) 0)), .served (.save 0),
    .served (.chat (.onClose 0 0))]

/-- A SAVE of the join and the leave that fails behind the comma between the two. -/
theorem failed_save_join :
    ∃ server, (diskSystem Chat.joinCrates LogText.serde []).run? joinSaved = some server ∧
      LogText.serde.fromReader (server.onFailedSave LogText.serde 89).file = none ∧
      (server.onSave LogText.serde).LoadsBack LogText.serde := by
  have clean : Clean LogText.serde [] := .blank (List.forall_mem_nil _)
  have kept := @failed_save Nat _ Chat.joinCrates LogText.serde LogText.body LogText.lawful
    LogText.cut [] clean joinSaved _ rfl (by decide +kernel)
  refine ⟨_, rfl, ?_, kept.2⟩
  rw [(kept.1 [⟨"system", some 0, "ann has joined the chat."⟩] (by decide +kernel)).2.2 89
    (by decide +kernel), if_neg (by decide +kernel)]

end Runs

end Server

end RustDemo.WsChat
