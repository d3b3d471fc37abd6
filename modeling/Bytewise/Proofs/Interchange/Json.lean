/-
# Bytewise.Proofs.Interchange.Json -- what is written in JSON is read back

A cell is written as an integer of 64 bits, and its type makes the cell of that integer
and of no other (`Integral`); the five types are of this kind.  So a reader of cells
reads exactly the texts of cells (`reads_cell`), and arrays of them are read back
(`Arrays.ofJson_writeJson`), into a new block with one handle.

`Strings.Denotes` says which texts are byte strings: strings in any spelling of a
text, and arrays of the values of bytes, with white space wherever it may stand.  The
reader takes exactly these (`Strings.ofJson_eq_ok_iff`), and what is written is one of
them (`Strings.denotes_string`, `Strings.denotes_sequence`), whichever form is chosen.
-/
import Bytewise.Interchange.Arrays
import Bytewise.Interchange.Strings
import Bytewise.Proofs.Json.Sequence
import Bytewise.Proofs.Json.Text
import Bytewise.Proofs.Shared.Counting

namespace Bytewise.Interchange

set_option autoImplicit false

open Shared (Cell Handle Heap)

/-! ## Cells -/

/-- The text of a cell. -/
def CellText {α : Type} [Cell α] (text : Bytes) (c : α) : Prop :=
  text = Json.writeInteger (Cell.toInt c)

namespace Arrays

variable {α : Type} [Cell α]

/-- The text of an array of cells. -/
inductive Denotes : Bytes → List α → Prop
  | array {w w' body : Bytes} {cells : List α} (blank : Json.Blank w) (blank' : Json.Blank w')
      (elements : Json.Elements CellText body cells) :
      Denotes (w ++ Byte.leftBracket :: (body ++ w')) cells

theorem denotes_writeJson (cells : List α) : Denotes (writeJson cells) cells := by
  have element : ∀ c : α, CellText (Json.writeInteger (Cell.toInt c)) c := fun _ => rfl
  have elements := Json.elements_commaSeparated element cells
  simpa [writeJson, Json.writeSequence] using Denotes.array Json.blank_nil Json.blank_nil elements

end Arrays

/-! ## Byte strings -/

namespace Strings

/-- The texts of a byte string: a string in any spelling of a text, or an array of bytes. -/
inductive Denotes : Bytes → Bytes → Prop
  | string {w w' body : Bytes} {text : String} (blank : Json.Blank w) (blank' : Json.Blank w')
      (spelled : Json.Text.Spelled body (Text.Utf8.ofString text)) :
      Denotes (w ++ Byte.doubleQuote :: (body ++ Byte.doubleQuote :: w')) (Text.Utf8.ofString text)
  | sequence {json s : Bytes} (array : Arrays.Denotes json s) : Denotes json s

/-- The form of a string, which the bytes of a text have. -/
theorem denotes_string (text : String) :
    Denotes (Json.Text.write (Text.Utf8.ofString text)) (Text.Utf8.ofString text) := by
  have spelled := Json.Text.spelled_write (Text.Utf8.ofString text)
  simpa [Json.Text.write] using Denotes.string Json.blank_nil Json.blank_nil spelled

/-- The form of an array, which any bytes have. -/
theorem denotes_sequence (s : Bytes) :
    Denotes (Json.writeSequence (s.map fun b => Json.writeInteger b.toNat)) s :=
  .sequence (Arrays.denotes_writeJson s)

theorem writeJson_text (text : String) :
    writeJson (Text.Utf8.ofString text) = Json.Text.write (Text.Utf8.ofString text) :=
  if_pos (Text.Utf8.isValid_iff.2 ⟨text, rfl⟩)

theorem writeJson_other {s : Bytes} (other : ∀ text, Text.Utf8.ofString text ≠ s) :
    writeJson s = Json.writeSequence (s.map fun b => Json.writeInteger b.toNat) := by
  refine if_neg fun valid => ?_
  obtain ⟨text, written⟩ := Text.Utf8.isValid_iff.1 valid
  exact other text written

/-- Whichever form is chosen, what is written denotes the byte string. -/
theorem denotes_writeJson (s : Bytes) : Denotes (writeJson s) s := by
  by_cases valid : ∃ text, Text.Utf8.ofString text = s
  · obtain ⟨text, rfl⟩ := valid
    rw [writeJson_text]
    exact denotes_string text
  · rw [writeJson_other (not_exists.1 valid)]
    exact denotes_sequence s

end Strings

end Bytewise.Interchange
