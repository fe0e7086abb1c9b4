import RustDemo.Text.Format
import RustDemo.WsChat.Handler

/-!
# The text of the log

What the server relies on in the text that `serde_json` makes of the log, and
the format in which it does that.
-/

namespace RustDemo.WsChat

open RustDemo.Text

def isBlank (byte : UInt8) : Bool := byte = 0x20 ∨ byte = 0x0A ∨ byte = 0x0D ∨ byte = 0x09

def Blank (bytes : List UInt8) : Prop := ∀ byte ∈ bytes, isBlank byte = true

instance (bytes : List UInt8) : Decidable (Blank bytes) :=
  inferInstanceAs (Decidable (∀ byte ∈ bytes, isBlank byte = true))

/-- What the server takes from `serde_json` for its file. -/
structure SerdeFile where
  toWriterPretty : List LogMessage → List UInt8
  fromReader : List UInt8 → Option (List LogMessage)

/--
A text is read back, and bytes behind it are an error unless they are blank.
The text of a longer log is not shorter.
-/
structure SerdeFile.Lawful (serde : SerdeFile) : Prop where
  reads_back : ∀ log rest, Blank rest → serde.fromReader (serde.toWriterPretty log ++ rest) = some log
  trailing : ∀ log rest, ¬ Blank rest → serde.fromReader (serde.toWriterPretty log ++ rest) = none
  grows : ∀ log entry,
    (serde.toWriterPretty log).length ≤ (serde.toWriterPretty (log ++ [entry])).length

theorem Blank.drop {bytes : List UInt8} (blank : Blank bytes) (n : Nat) : Blank (bytes.drop n) :=
  fun byte among => blank byte (List.mem_of_mem_drop among)

namespace SerdeFile.Lawful

variable {serde : SerdeFile}

theorem length_le (lawful : serde.Lawful) {log longer : List LogMessage} (begins : log <+: longer) :
    (serde.toWriterPretty log).length ≤ (serde.toWriterPretty longer).length := by
  obtain ⟨more, rfl⟩ := begins
  induction more using List.reverseRecOn with
  | nil => rw [List.append_nil]
  | append_singleton more entry ih =>
      rw [← List.append_assoc]
      exact Nat.le_trans ih (lawful.grows (log ++ more) entry)

theorem fromReader_iff (lawful : serde.Lawful) (log : List LogMessage) (rest : List UInt8) :
    serde.fromReader (serde.toWriterPretty log ++ rest) = some log ↔ Blank rest := by
  constructor
  · intro reads
    by_contra other
    cases (lawful.trailing log rest other).symm.trans reads
  · exact lawful.reads_back log rest

/-- The text of a longer log leaves nothing of an earlier text but blanks. -/
theorem blank_drop (lawful : serde.Lawful) {log longer : List LogMessage} (begins : log <+: longer)
    {rest : List UInt8} (blank : Blank rest) :
    Blank ((serde.toWriterPretty log ++ rest).drop (serde.toWriterPretty longer).length) := by
  have short := lawful.length_le begins
  rw [List.drop_append, List.drop_eq_nil_of_le short, List.nil_append]
  exact blank.drop _

end SerdeFile.Lawful

/-! ## The pretty format -/

namespace LogText

def brackets : Format.Brackets where
  opening := utf8 "[\n"
  separator := utf8 ",\n"
  closing := utf8 "\n]"
  empty := utf8 "[]"
  separates := by decide
  goesOn _ := rfl
  opens _ := rfl

/-- The value of `sent` and the comma behind it. -/
def sent : Format (Option Int) :=
  Format.stopped 0x2C JsonNumber.orNull JsonNumber.ofOrNull? JsonNumber.comma_free
    JsonNumber.ofOrNull?_orNull

/-- The fields of an entry, each on a line of its own. -/
def entry : Format LogMessage :=
  ((Format.string.between (utf8 "  \x7b\n    \"nick\": ") (utf8 ",\n    \"sent\": ")).seq
    (sent.seq (Format.string.between (utf8 "\n    \"message\": ") (utf8 "\n  \x7d")))).map
      (fun (nick, sent, message) => ⟨nick, sent, message⟩)
      (fun entry => (entry.nick, entry.sent, entry.message)) fun _ => rfl

def format : Format (List LogMessage) := Format.list brackets entry

/-- The text that is written, and a reader of such texts. -/
def serde : SerdeFile where
  toWriterPretty := format.print
  fromReader bytes :=
    (format.read bytes).bind fun (log, rest) => if Blank rest then some log else none

theorem fromReader_print (log : List LogMessage) (rest : List UInt8) :
    serde.fromReader (serde.toWriterPretty log ++ rest) = if Blank rest then some log else none := by
  show (format.read (format.print log ++ rest)).bind _ = _
  rw [format.read_print]
  rfl

theorem lawful : serde.Lawful where
  reads_back log rest blank := by rw [fromReader_print, if_pos blank]
  trailing log rest other := by rw [fromReader_print, if_neg other]
  grows := brackets.length_print_append entry (by decide)

example : serde.toWriterPretty [⟨"ann", some 7, "hi"⟩] =
    utf8 "[\n  \x7b\n    \"nick\": \"ann\",\n    \"sent\": 7,\n    \"message\": \"hi\"\n  \x7d\n]" := by
  decide

end LogText

end RustDemo.WsChat
