import Mathlib.Data.List.Basic

/-!
# JSON string tokens

The compact writer for strings and lists of strings, byte for byte: quotation
marks, backslashes and control characters are escaped, everything else is plain
UTF-8.  The reader accepts what the writer writes.
-/

namespace RustDemo.Text

/-- The UTF-8 bytes of a string. -/
def utf8 (text : String) : List UInt8 := text.toUTF8.data.toList

def ofUtf8? (bytes : List UInt8) : Option String := String.fromUTF8? ⟨bytes.toArray⟩

theorem ofUtf8?_utf8 (text : String) : ofUtf8? (utf8 text) = some text := by
  have valid : text.toUTF8.IsValidUTF8 := text.isValidUTF8
  unfold ofUtf8? utf8 String.fromUTF8?
  rw [dif_pos valid]
  rfl

theorem utf8_of_ofUtf8? {bytes : List UInt8} {text : String} (spelled : ofUtf8? bytes = some text) :
    utf8 text = bytes := by
  unfold ofUtf8? String.fromUTF8? at spelled
  split at spelled
  · cases spelled
    rfl
  · cases spelled

theorem length_utf8_ofList (chars : List Char) :
    chars.length ≤ (utf8 (String.ofList chars)).length := by
  have size : (utf8 (String.ofList chars)).length = chars.utf8Encode.size := by
    unfold utf8
    rw [String.toUTF8_eq_toByteArray, String.toByteArray_ofList]
    rfl
  rw [size]
  induction chars with
  | nil => exact Nat.zero_le _
  | cons first rest ih =>
      have nonempty : [first].utf8Encode.size ≠ 0 := by
        intro empty
        have none := List.utf8Encode_eq_empty.mp (ByteArray.size_eq_zero_iff.mp empty)
        cases none
      have later : rest.length ≤ rest.utf8Encode.size := ih (by
        unfold utf8
        rw [String.toUTF8_eq_toByteArray, String.toByteArray_ofList]
        rfl)
      rw [List.utf8Encode_cons, ByteArray.size_append, List.length_cons]
      omega

namespace JsonString

/-- The letter behind the backslash of a two-byte escape. -/
def shortEscape (byte : UInt8) : Option UInt8 :=
  if byte = 0x22 then some 0x22
  else if byte = 0x5C then some 0x5C
  else if byte = 0x08 then some 0x62
  else if byte = 0x09 then some 0x74
  else if byte = 0x0A then some 0x6E
  else if byte = 0x0C then some 0x66
  else if byte = 0x0D then some 0x72
  else none

def ofShortEscape (letter : UInt8) : Option UInt8 :=
  if letter = 0x22 then some 0x22
  else if letter = 0x5C then some 0x5C
  else if letter = 0x62 then some 0x08
  else if letter = 0x74 then some 0x09
  else if letter = 0x6E then some 0x0A
  else if letter = 0x66 then some 0x0C
  else if letter = 0x72 then some 0x0D
  else none

def hexDigit (digit : UInt8) : UInt8 := if digit < 10 then 0x30 + digit else 0x57 + digit

def ofHexDigit (letter : UInt8) : UInt8 := if letter < 0x3A then letter - 0x30 else letter - 0x57

/-- One byte of a string as it is written; other control bytes become `\u00XX`. -/
def escape (byte : UInt8) : List UInt8 :=
  match shortEscape byte with
  | some letter => [0x5C, letter]
  | none =>
      if byte < 0x20 then [0x5C, 0x75, 0x30, 0x30, hexDigit (byte / 16), hexDigit (byte % 16)]
      else [byte]

/-- Put a byte in front of what was read after it. -/
def push (byte : UInt8) : Option (List UInt8 × List UInt8) → Option (List UInt8 × List UInt8)
  | none => none
  | some (bytes, rest) => some (byte :: bytes, rest)

/-- Read up to the closing quotation mark. -/
def unescape : List UInt8 → Option (List UInt8 × List UInt8)
  | [] => none
  | byte :: rest =>
      if byte = 0x22 then some ([], rest)
      else if byte = 0x5C then
        match rest with
        | [] => none
        | letter :: tail =>
            if letter = 0x75 then
              match tail with
              | _ :: _ :: high :: low :: more =>
                  push (16 * ofHexDigit high + ofHexDigit low) (unescape more)
              | _ => none
            else
              match ofShortEscape letter with
              | none => none
              | some plain => push plain (unescape tail)
      else push byte (unescape rest)

theorem unescape_quote (rest : List UInt8) : unescape (0x22 :: rest) = some ([], rest) := by
  rw [unescape.eq_def]
  exact if_pos rfl

theorem unescape_plain {byte : UInt8} (notQuote : byte ≠ 0x22) (notBackslash : byte ≠ 0x5C)
    (rest : List UInt8) : unescape (byte :: rest) = push byte (unescape rest) := by
  rw [unescape.eq_def]
  simp only [notQuote, notBackslash, ↓reduceIte]

theorem unescape_short {letter plain : UInt8} (notU : letter ≠ 0x75)
    (short : ofShortEscape letter = some plain) (rest : List UInt8) :
    unescape (0x5C :: letter :: rest) = push plain (unescape rest) := by
  rw [unescape.eq_def]
  simp [notU, short]

theorem unescape_control (high low : UInt8) (rest : List UInt8) :
    unescape (0x5C :: 0x75 :: 0x30 :: 0x30 :: high :: low :: rest) =
      push (16 * ofHexDigit high + ofHexDigit low) (unescape rest) := by
  rw [unescape.eq_def]
  simp

theorem ofShortEscape_of_shortEscape {byte letter : UInt8}
    (short : shortEscape byte = some letter) :
    ofShortEscape letter = some byte ∧ letter ≠ 0x75 := by
  unfold shortEscape at short
  repeat' split at short
  all_goals
    first
      | cases short; done
      | rename_i same
        subst same
        cases short
        exact ⟨rfl, by decide⟩

theorem hex_round_trip {byte : UInt8} (control : byte < 0x20) :
    16 * ofHexDigit (hexDigit (byte / 16)) + ofHexDigit (hexDigit (byte % 16)) = byte := by
  have all : ∀ n < 32, 16 * ofHexDigit (hexDigit (UInt8.ofNat n / 16)) +
      ofHexDigit (hexDigit (UInt8.ofNat n % 16)) = UInt8.ofNat n := by decide
  have here := all byte.toNat (UInt8.lt_iff_toNat_lt.mp control)
  rw [UInt8.ofNat_toNat] at here
  exact here

theorem unescape_escape (byte : UInt8) (rest : List UInt8) :
    unescape (escape byte ++ rest) = push byte (unescape rest) := by
  unfold escape
  cases short : shortEscape byte with
  | some letter =>
      obtain ⟨back, notU⟩ := ofShortEscape_of_shortEscape short
      exact unescape_short notU back rest
  | none =>
      by_cases control : byte < 0x20
      · have back := hex_round_trip control
        have read := unescape_control (hexDigit (byte / 16)) (hexDigit (byte % 16)) rest
        rw [back] at read
        simp only [control, ↓reduceIte]
        exact read
      · have notQuote : byte ≠ 0x22 := by
          rintro rfl
          cases short
        have notBackslash : byte ≠ 0x5C := by
          rintro rfl
          cases short
        simp only [control, ↓reduceIte]
        exact unescape_plain notQuote notBackslash rest

theorem unescape_flatMap (bytes rest : List UInt8) :
    unescape (bytes.flatMap escape ++ 0x22 :: rest) = some (bytes, rest) := by
  induction bytes with
  | nil => exact unescape_quote rest
  | cons byte bytes ih =>
      rw [List.flatMap_cons, List.append_assoc, unescape_escape, ih]
      rfl

/-! ## Strings and lists of strings -/

/-- A string between quotation marks. -/
def quoted (text : String) : List UInt8 := 0x22 :: ((utf8 text).flatMap escape ++ [0x22])

def readQuoted : List UInt8 → Option (String × List UInt8)
  | [] => none
  | byte :: rest =>
      if byte = 0x22 then
        (unescape rest).bind fun (bytes, more) => (ofUtf8? bytes).map fun text => (text, more)
      else none

theorem readQuoted_quoted (text : String) (rest : List UInt8) :
    readQuoted (quoted text ++ rest) = some (text, rest) := by
  have body := unescape_flatMap (utf8 text) rest
  unfold quoted
  simp [readQuoted, body, ofUtf8?_utf8]

theorem length_le_quoted (text : String) : (utf8 text).length ≤ (quoted text).length := by
  have grows : ∀ bytes : List UInt8, bytes.length ≤ (bytes.flatMap escape).length := by
    intro bytes
    induction bytes with
    | nil => exact Nat.le_refl 0
    | cons byte bytes ih =>
        have one : 1 ≤ (escape byte).length := by
          unfold escape
          split
          · exact Nat.le_add_left 1 1
          · split
            · exact Nat.le_add_left 1 5
            · exact Nat.le_refl 1
        rw [List.flatMap_cons, List.length_append, List.length_cons]
        omega
  have whole := grows (utf8 text)
  unfold quoted
  rw [List.length_cons, List.length_append]
  omega

theorem utf8_ofList_replicate (n : Nat) :
    utf8 (String.ofList (List.replicate n 'a')) = List.replicate n 0x61 := by
  unfold utf8
  rw [String.toUTF8_eq_toByteArray, String.toByteArray_ofList]
  induction n with
  | zero => rfl
  | succ n ih =>
      rw [List.replicate_succ, List.utf8Encode_cons, ByteArray.data_append, Array.toList_append, ih]
      rfl

theorem length_quoted_replicate (n : Nat) :
    (quoted (String.ofList (List.replicate n 'a'))).length = n + 2 := by
  have plain : escape 0x61 = [0x61] := rfl
  unfold quoted
  rw [utf8_ofList_replicate, List.flatMap_replicate, plain]
  simp

def listTail : List String → List UInt8
  | [] => [0x5D]
  | text :: texts => 0x2C :: (quoted text ++ listTail texts)

def quotedList : List String → List UInt8
  | [] => [0x5B, 0x5D]
  | text :: texts => 0x5B :: (quoted text ++ listTail texts)

def readListTail : Nat → List UInt8 → Option (List String × List UInt8)
  | 0, _ => none
  | _ + 1, [] => none
  | fuel + 1, byte :: rest =>
      if byte = 0x5D then some ([], rest)
      else if byte = 0x2C then
        (readQuoted rest).bind fun (text, more) =>
          (readListTail fuel more).map fun (texts, last) => (text :: texts, last)
      else none

def readQuotedList : List UInt8 → Option (List String × List UInt8)
  | open_ :: byte :: rest =>
      if open_ ≠ 0x5B then none
      else if byte = 0x5D then some ([], rest)
      else
        (readQuoted (byte :: rest)).bind fun (text, more) =>
          (readListTail (more.length + 1) more).map fun (texts, last) => (text :: texts, last)
  | _ => none

theorem length_le_listTail (texts : List String) : texts.length < (listTail texts).length := by
  induction texts with
  | nil => exact Nat.zero_lt_one
  | cons text texts ih =>
      simp only [listTail, List.length_cons, List.length_append]
      omega

theorem readListTail_listTail (texts : List String) (fuel : Nat) (enough : texts.length < fuel)
    (rest : List UInt8) : readListTail fuel (listTail texts ++ rest) = some (texts, rest) := by
  induction texts generalizing fuel with
  | nil =>
      cases fuel with
      | zero => exact absurd enough (Nat.not_lt_zero _)
      | succ fuel => rfl
  | cons text texts ih =>
      cases fuel with
      | zero => exact absurd enough (Nat.not_lt_zero _)
      | succ fuel =>
          have later := ih fuel (by simpa using enough)
          simp only [listTail, List.cons_append, List.append_assoc, readListTail]
          rw [readQuoted_quoted]
          simp [later]

theorem readQuotedList_quotedList (texts : List String) (rest : List UInt8) :
    readQuotedList (quotedList texts ++ rest) = some (texts, rest) := by
  cases texts with
  | nil => rfl
  | cons text texts =>
      have first := readQuoted_quoted text (listTail texts ++ rest)
      have enough := length_le_listTail texts
      have later := readListTail_listTail texts ((listTail texts).length + rest.length + 1)
        (by omega) rest
      unfold quoted at first
      simp only [quotedList, quoted, List.cons_append, List.append_assoc, readQuotedList] at first ⊢
      rw [if_neg (by decide), if_neg (by decide), first]
      simp [later]

end JsonString

end RustDemo.Text
