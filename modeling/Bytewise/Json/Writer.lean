/-
# Bytewise.Json.Writer -- values as JSON text

The shortest layout: no white space, integers in decimal, elements and members
with a comma between two of them.
-/
import Bytewise.Json.Text
import Bytewise.Text.Numeral

namespace Bytewise.Json

set_option autoImplicit false

def writeInteger (n : Int) : Bytes := Text.Numeral.integer n

def writeBool (b : Bool) : Bytes :=
  if b then [0x74, 0x72, 0x75, 0x65] else [0x66, 0x61, 0x6c, 0x73, 0x65]

/-- Puts a comma between two parts. -/
def commaSeparated : List Bytes → Bytes
  | [] => []
  | [p] => p
  | p :: ps => p ++ Byte.comma :: commaSeparated ps

def writeSequence (parts : List Bytes) : Bytes :=
  Byte.leftBracket :: (commaSeparated parts ++ [Byte.rightBracket])

/-- Writes an object of keys and the texts of their values. -/
def writeObject (fields : List (String × Bytes)) : Bytes :=
  Byte.leftBrace :: (commaSeparated (fields.map fun (key, value) =>
    Text.write (Text.Utf8.ofString key) ++ Byte.colon :: value) ++ [Byte.rightBrace])

end Bytewise.Json
