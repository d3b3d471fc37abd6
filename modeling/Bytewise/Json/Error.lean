/-
# Bytewise.Json.Error -- why a JSON text cannot be read

A text that ends too early, a text that is not well formed, and a value of
another kind than expected.  Readers work on the bytes that are left and give
what they read together with the rest; the first error met from the left wins.
-/
import Bytewise.Byte
import Bytewise.Interchange.Mismatch

namespace Bytewise.Json

set_option autoImplicit false

inductive Error
  | endOfText
  | malformed
  | mismatch (m : Interchange.Mismatch)
  deriving DecidableEq, Repr

/-- What a reader gives: a value and the bytes after it, or an error. -/
abbrev Result (α : Type) := Except Error (α × Bytes)

def isBlank (b : UInt8) : Bool := b == 0x20 || b == 0x0a || b == 0x09 || b == 0x0d

/-- The bytes behind white space. -/
def skipBlank (s : Bytes) : Bytes := s.dropWhile isBlank

theorem length_skipBlank_le (s : Bytes) : (skipBlank s).length ≤ s.length :=
  (List.dropWhile_sublist isBlank).length_le

/-- The error where something else was needed: the end of the text, or another byte. -/
def unexpected : Bytes → Error
  | [] => .endOfText
  | _ :: _ => .malformed

/-- Reads a word. -/
def word : Bytes → Bytes → Except Error Bytes
  | [], s => .ok s
  | _ :: _, [] => .error .endOfText
  | w :: ws, b :: rest => if b = w then word ws rest else .error .malformed

end Bytewise.Json
