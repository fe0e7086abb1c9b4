import Mathlib.Data.List.DropRight
import Mathlib.Data.String.Basic

/-!
# Trimming

`str::trim` drops the characters with the Unicode property `White_Space` from
both ends.  What it leaves is the only part of the text that has none at its
ends and nothing else around it.
-/

namespace RustDemo.Text

/-- `char::is_whitespace`. -/
def isWhitespace (c : Char) : Bool :=
  (0x09 ≤ c.val ∧ c.val ≤ 0x0D) ∨ c.val = 0x20 ∨ c.val = 0x85 ∨ c.val = 0xA0 ∨ c.val = 0x1680 ∨
    (0x2000 ≤ c.val ∧ c.val ≤ 0x200A) ∨ c.val = 0x2028 ∨ c.val = 0x2029 ∨ c.val = 0x202F ∨
      c.val = 0x205F ∨ c.val = 0x3000

/-- `str::trim`. -/
def trim (text : String) : String :=
  String.ofList (((text.toList.dropWhile isWhitespace).reverse.dropWhile isWhitespace).reverse)

example : trim " \t a b\r\n" = "a b" := by decide

def Blank (text : String) : Prop := ∀ c ∈ text.toList, isWhitespace c

/-- There is no white space at either end. -/
structure Trimmed (text : String) : Prop where
  head : ∀ c ∈ text.toList.head?, ¬ isWhitespace c
  last : ∀ c ∈ text.toList.getLast?, ¬ isWhitespace c

section Trim

theorem dropWhile_eq_self {α : Type} {p : α → Bool} {list : List α}
    (stops : ∀ x ∈ list.head?, ¬ p x) : list.dropWhile p = list := by
  cases list with
  | nil => rfl
  | cons first rest => exact List.dropWhile_cons_of_neg (stops first rfl)

theorem head?_dropWhile {α : Type} {p : α → Bool} (list : List α) :
    ∀ x ∈ (list.dropWhile p).head?, ¬ p x := by
  intro x first
  have stops := List.head?_dropWhile_not p list
  rw [Option.mem_def.mp first] at stops
  exact Bool.not_eq_true (p x) ▸ stops

variable {before text after : String}

theorem toList_trim (text : String) : (trim text).toList =
    ((text.toList.dropWhile isWhitespace).reverse.dropWhile isWhitespace).reverse :=
  String.toList_ofList

theorem trim_padded (blankBefore : Blank before) (trimmed : Trimmed text)
    (blankAfter : Blank after) : trim (before ++ text ++ after) = text := by
  apply String.toList_inj.mp
  have blankEnd : ∀ c ∈ after.toList.reverse, isWhitespace c :=
    fun c held => blankAfter c (List.mem_reverse.mp held)
  have stops : ∀ c ∈ text.toList.reverse.head?, ¬ isWhitespace c := by
    rw [List.head?_reverse]
    exact trimmed.last
  rw [toList_trim, String.toList_append, String.toList_append, List.append_assoc,
    List.dropWhile_append_of_pos blankBefore]
  cases letters : text.toList with
  | nil =>
      rw [List.nil_append, List.dropWhile_eq_nil_iff.mpr blankAfter]
      rfl
  | cons first rest =>
      have solid : ¬ isWhitespace first := trimmed.head first (by rw [letters]; rfl)
      rw [letters] at stops
      rw [List.cons_append, List.dropWhile_cons_of_neg solid, ← List.cons_append,
        List.reverse_append, List.dropWhile_append_of_pos blankEnd, dropWhile_eq_self stops,
        List.reverse_reverse]

theorem exists_padding (text : String) :
    ∃ before after, Blank before ∧ Blank after ∧ text = before ++ trim text ++ after := by
  refine ⟨String.ofList (text.toList.takeWhile isWhitespace),
    String.ofList ((text.toList.dropWhile isWhitespace).rtakeWhile isWhitespace), ?_, ?_, ?_⟩
  · intro c held
    rw [String.toList_ofList] at held
    exact List.mem_takeWhile_imp held
  · intro c held
    rw [String.toList_ofList] at held
    exact List.mem_rtakeWhile_imp held
  · apply String.toList_inj.mp
    have behind : (trim text).toList ++ (text.toList.dropWhile isWhitespace).rtakeWhile isWhitespace =
        text.toList.dropWhile isWhitespace := by
      rw [toList_trim]
      exact List.rdropWhile_append_rtakeWhile
    rw [String.toList_append, String.toList_append, String.toList_ofList, String.toList_ofList,
      List.append_assoc, behind, List.takeWhile_append_dropWhile]

theorem trimmed_trim (text : String) : Trimmed (trim text) where
  head := by
    intro c first
    obtain ⟨more, whole⟩ : (trim text).toList <+: text.toList.dropWhile isWhitespace := by
      rw [toList_trim]
      exact List.rdropWhile_prefix ..
    apply head?_dropWhile text.toList
    rw [← whole]
    exact List.mem_head?_append_of_mem_head? first
  last := by
    rw [toList_trim, List.getLast?_reverse]
    exact head?_dropWhile _

theorem Blank.append (blankBefore : Blank before) (blankAfter : Blank after) :
    Blank (before ++ after) := by
  intro c held
  rw [String.toList_append] at held
  exact (List.mem_append.mp held).elim (blankBefore c) (blankAfter c)

theorem Trimmed.around {first last : String} (trimmedFirst : Trimmed first) (first_ne : first ≠ "")
    (between : String) (trimmedLast : Trimmed last) (last_ne : last ≠ "") :
    Trimmed (first ++ between ++ last) where
  head := by
    have nonempty : first.toList ≠ [] := fun nothing => first_ne (String.toList_eq_nil_iff.mp nothing)
    rw [String.toList_append, String.toList_append, List.append_assoc,
      List.head?_append_of_ne_nil _ nonempty]
    exact trimmedFirst.head
  last := by
    have nonempty : last.toList ≠ [] := fun nothing => last_ne (String.toList_eq_nil_iff.mp nothing)
    rw [String.toList_append, List.getLast?_append_of_ne_nil _ nonempty]
    exact trimmedLast.last

theorem Trimmed.end_eq {front blank : String} (trimmed : Trimmed (front ++ blank))
    (white : Blank blank) : blank = "" := by
  cases letters : blank.toList.getLast? with
  | none => exact String.toList_eq_nil_iff.mp (List.getLast?_eq_none_iff.mp letters)
  | some c =>
      refine absurd (white c (List.mem_of_getLast? letters)) (trimmed.last c ?_)
      rw [String.toList_append, List.getLast?_append, letters]
      rfl

end Trim

end RustDemo.Text
