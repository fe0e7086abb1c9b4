import RustDemo.Text.JsonString

/-!
# Formats

A format prints values and reads them back, whatever comes behind the text.
A format is put together from the formats of the parts of its values.
-/

namespace RustDemo.Text

structure Format (α : Type) where
  print : α → List UInt8
  read : List UInt8 → Option (α × List UInt8)
  read_print : ∀ value rest, read (print value ++ rest) = some (value, rest)

/-- What comes behind a fixed text. -/
def strip (text bytes : List UInt8) : Option (List UInt8) :=
  if text.isPrefixOf bytes then some (bytes.drop text.length) else none

theorem strip_append (text rest : List UInt8) : strip text (text ++ rest) = some rest := by
  unfold strip
  rw [if_pos (List.isPrefixOf_iff_prefix.mpr (List.prefix_append text rest)), List.drop_left]

namespace Format

variable {α β : Type}

def string : Format String := ⟨JsonString.quoted, JsonString.readQuoted, JsonString.readQuoted_quoted⟩

def between (before after : List UInt8) (inner : Format α) : Format α where
  print value := before ++ (inner.print value ++ after)
  read bytes :=
    (strip before bytes).bind fun body =>
      (inner.read body).bind fun (value, rest) => (strip after rest).map fun rest => (value, rest)
  read_print value rest := by
    rw [List.append_assoc, List.append_assoc, strip_append, Option.bind_some, inner.read_print,
      Option.bind_some]
    dsimp only
    rw [strip_append]
    rfl

def seq (first : Format α) (second : Format β) : Format (α × β) where
  print values := first.print values.1 ++ second.print values.2
  read bytes :=
    (first.read bytes).bind fun (value, rest) =>
      (second.read rest).map fun (other, rest) => ((value, other), rest)
  read_print values rest := by
    rw [List.append_assoc, first.read_print, Option.bind_some]
    dsimp only
    rw [second.read_print]
    rfl

def map (format : Format α) (form : α → β) (back : β → α) (same : ∀ value, form (back value) = value) :
    Format β where
  print value := format.print (back value)
  read bytes := (format.read bytes).map fun (value, rest) => (form value, rest)
  read_print value rest := by
    rw [format.read_print, Option.map_some]
    dsimp only
    rw [same]

/-- A token without the byte `stop`, and that byte. -/
def stopped (stop : UInt8) (token : α → List UInt8) (parse : List UInt8 → Option α)
    (free : ∀ value, stop ∉ token value) (parse_token : ∀ value, parse (token value) = some value) :
    Format α where
  print value := token value ++ [stop]
  read bytes :=
    match bytes.dropWhile (· ≠ stop) with
    | [] => none
    | _ :: rest => (parse (bytes.takeWhile (· ≠ stop))).map fun value => (value, rest)
  read_print value rest := by
    have other : ∀ byte ∈ token value, decide (byte ≠ stop) = true := by
      intro byte among
      apply decide_eq_true
      rintro rfl
      exact free value among
    rw [List.append_assoc, List.dropWhile_append_of_pos other, List.takeWhile_append_of_pos other]
    simp [parse_token]

/-- The texts around the elements of a list, and the text of the empty list. -/
structure Brackets where
  opening : List UInt8
  separator : List UInt8
  closing : List UInt8
  empty : List UInt8
  separates : separator ≠ []
  goesOn : ∀ rest, strip closing (separator ++ rest) = none
  opens : ∀ rest, strip empty (opening ++ rest) = none

namespace Brackets

variable (brackets : Brackets) (item : Format α)

def printTail : List α → List UInt8
  | [] => brackets.closing
  | value :: values => brackets.separator ++ (item.print value ++ printTail values)

def print : List α → List UInt8
  | [] => brackets.empty
  | value :: values => brackets.opening ++ (item.print value ++ brackets.printTail item values)

def readTail : Nat → List UInt8 → Option (List α × List UInt8)
  | 0, _ => none
  | fuel + 1, bytes =>
      match strip brackets.closing bytes with
      | some rest => some ([], rest)
      | none =>
          (strip brackets.separator bytes).bind fun body =>
            (item.read body).bind fun (value, rest) =>
              (readTail fuel rest).map fun (values, last) => (value :: values, last)

def read (bytes : List UInt8) : Option (List α × List UInt8) :=
  match strip brackets.empty bytes with
  | some rest => some ([], rest)
  | none =>
      (strip brackets.opening bytes).bind fun body =>
        (item.read body).bind fun (value, rest) =>
          (brackets.readTail item (rest.length + 1) rest).map fun (values, last) =>
            (value :: values, last)

theorem length_le_printTail (values : List α) :
    values.length ≤ (brackets.printTail item values).length := by
  induction values with
  | nil => exact Nat.zero_le _
  | cons value values ih =>
      have separates := List.length_pos_iff.mpr brackets.separates
      rw [printTail, List.length_append, List.length_append, List.length_cons]
      omega

theorem readTail_printTail (values : List α) (rest : List UInt8) (fuel : Nat)
    (enough : values.length < fuel) :
    brackets.readTail item fuel (brackets.printTail item values ++ rest) = some (values, rest) := by
  induction values generalizing fuel with
  | nil =>
      cases fuel with
      | zero => exact absurd enough (Nat.not_lt_zero _)
      | succ fuel => rw [printTail, readTail, strip_append]
  | cons value values ih =>
      cases fuel with
      | zero => exact absurd enough (Nat.not_lt_zero _)
      | succ fuel =>
          have later := ih fuel (Nat.lt_of_succ_lt_succ enough)
          rw [printTail, readTail, List.append_assoc, List.append_assoc, brackets.goesOn]
          dsimp only
          rw [strip_append, Option.bind_some, item.read_print, Option.bind_some, later]
          rfl

theorem read_print (values : List α) (rest : List UInt8) :
    brackets.read item (brackets.print item values ++ rest) = some (values, rest) := by
  cases values with
  | nil => rw [print, read, strip_append]
  | cons value values =>
      have enough : values.length < (brackets.printTail item values ++ rest).length + 1 := by
        have short := brackets.length_le_printTail item values
        rw [List.length_append]
        omega
      rw [print, read, List.append_assoc, List.append_assoc, brackets.opens]
      dsimp only
      rw [strip_append, Option.bind_some, item.read_print, Option.bind_some,
        brackets.readTail_printTail item values rest _ enough]
      rfl

theorem length_printTail_append (values : List α) (last : α) :
    (brackets.printTail item values).length ≤ (brackets.printTail item (values ++ [last])).length := by
  induction values with
  | nil =>
      rw [List.nil_append, printTail, printTail, printTail, List.length_append, List.length_append]
      omega
  | cons value values ih =>
      rw [List.cons_append, printTail, printTail, List.length_append, List.length_append,
        List.length_append, List.length_append]
      omega

theorem length_print_append (short : brackets.empty.length ≤ brackets.opening.length)
    (values : List α) (last : α) :
    (brackets.print item values).length ≤ (brackets.print item (values ++ [last])).length := by
  cases values with
  | nil =>
      rw [List.nil_append, print, print, List.length_append]
      omega
  | cons value values =>
      have grows := brackets.length_printTail_append item values last
      rw [List.cons_append, print, print, List.length_append, List.length_append,
        List.length_append, List.length_append]
      omega

end Brackets

def list (brackets : Brackets) (item : Format α) : Format (List α) :=
  ⟨brackets.print item, brackets.read item, brackets.read_print item⟩

end Format

/-! ## Numbers -/

namespace JsonNumber

def isDigit (byte : UInt8) : Bool := 0x30 ≤ byte ∧ byte ≤ 0x39

/-- A natural number in decimal digits. -/
def digits (n : Nat) : List UInt8 := (Nat.toDigits 10 n).map fun digit => digit.toNat.toUInt8

def ofDigits? (bytes : List UInt8) : Option Nat :=
  if bytes ≠ [] ∧ bytes.all isDigit then
    some (Nat.ofDigitChars 10 (bytes.map fun byte => Char.ofNat byte.toNat) 0)
  else none

def text : Int → List UInt8
  | .ofNat n => digits n
  | .negSucc n => 0x2D :: digits (n + 1)

def ofText? : List UInt8 → Option Int
  | [] => none
  | byte :: bytes =>
      if byte = 0x2D then (ofDigits? bytes).map fun n => -n
      else (ofDigits? (byte :: bytes)).map Int.ofNat

theorem isDigit_iff (byte : UInt8) : isDigit byte = true ↔ 0x30 ≤ byte.toNat ∧ byte.toNat ≤ 0x39 := by
  rw [isDigit, decide_eq_true_iff, UInt8.le_iff_toNat_le, UInt8.le_iff_toNat_le]
  rfl

theorem toNat_digit {digit : Char} (decimal : digit.isDigit = true) :
    digit.toNat.toUInt8.toNat = digit.toNat ∧ isDigit digit.toNat.toUInt8 = true := by
  obtain ⟨lower, upper⟩ : 0x30 ≤ digit.toNat ∧ digit.toNat ≤ 0x39 := Char.isDigit_iff_toNat.mp decimal
  have same : digit.toNat.toUInt8.toNat = digit.toNat := by
    rw [Nat.toUInt8, UInt8.toNat_ofNat']
    omega
  refine ⟨same, ?_⟩
  rw [isDigit_iff, same]
  exact ⟨lower, upper⟩

theorem isDigit_of_mem_digits {n : Nat} {byte : UInt8} (among : byte ∈ digits n) : isDigit byte = true := by
  obtain ⟨digit, there, rfl⟩ := List.mem_map.mp among
  exact (toNat_digit (Nat.isDigit_of_mem_toDigits (by decide) (by decide) there)).2

theorem ofDigits?_digits (n : Nat) : ofDigits? (digits n) = some n := by
  have nonempty : digits n ≠ [] := List.map_eq_nil_iff.not.mpr Nat.toDigits_ne_nil
  have decimal : (digits n).all isDigit = true :=
    List.all_eq_true.mpr fun byte among => isDigit_of_mem_digits among
  have chars : (digits n).map (fun byte => Char.ofNat byte.toNat) = Nat.toDigits 10 n := by
    rw [digits, List.map_map]
    conv_rhs => rw [← List.map_id (Nat.toDigits 10 n)]
    refine List.map_congr_left fun digit there => ?_
    have decimal := Nat.isDigit_of_mem_toDigits (by decide) (by decide) there
    rw [Function.comp_apply, (toNat_digit decimal).1, Char.ofNat_toNat]
    rfl
  rw [ofDigits?, if_pos ⟨nonempty, decimal⟩, chars, Nat.ofDigitChars_ten_toDigits]

theorem ofText?_digits (n : Nat) : ofText? (digits n) = some (n : Int) := by
  have whole := ofDigits?_digits n
  cases digitsOf : digits n with
  | nil => exact absurd digitsOf (List.map_eq_nil_iff.not.mpr Nat.toDigits_ne_nil)
  | cons first others =>
      have decimal : isDigit first = true := by
        apply isDigit_of_mem_digits (n := n)
        rw [digitsOf]
        exact List.mem_cons_self
      have unsigned : first ≠ 0x2D := by
        rintro rfl
        cases decimal
      rw [digitsOf] at whole
      rw [ofText?, if_neg unsigned, whole]
      rfl

theorem ofText?_text (n : Int) : ofText? (text n) = some n := by
  cases n with
  | ofNat n => exact ofText?_digits n
  | negSucc n =>
      rw [text, ofText?, if_pos rfl, ofDigits?_digits]
      rfl

theorem mem_text {n : Int} {byte : UInt8} (among : byte ∈ text n) : byte = 0x2D ∨ isDigit byte = true := by
  cases n with
  | ofNat n => exact Or.inr (isDigit_of_mem_digits among)
  | negSucc n =>
      rcases List.mem_cons.mp among with sign | among
      · exact Or.inl sign
      · exact Or.inr (isDigit_of_mem_digits among)

/-- `null`, or a number. -/
def orNull : Option Int → List UInt8
  | none => [0x6E, 0x75, 0x6C, 0x6C]
  | some n => text n

def ofOrNull? (bytes : List UInt8) : Option (Option Int) :=
  if bytes = [0x6E, 0x75, 0x6C, 0x6C] then some none else (ofText? bytes).map some

theorem ofOrNull?_orNull (n? : Option Int) : ofOrNull? (orNull n?) = some n? := by
  cases n? with
  | none => rfl
  | some n =>
      have back := ofText?_text n
      have notNull : text n ≠ [0x6E, 0x75, 0x6C, 0x6C] := by
        intro same
        rw [same] at back
        cases back
      rw [orNull, ofOrNull?, if_neg notNull, back]
      rfl

theorem comma_free (n? : Option Int) : 0x2C ∉ orNull n? := by
  cases n? with
  | none => decide
  | some n =>
      intro among
      rcases mem_text among with sign | decimal
      · cases sign
      · cases decimal

end JsonNumber

end RustDemo.Text
