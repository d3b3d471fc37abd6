/-
# Bytewise.Interchange.Strings -- byte strings in JSON and in binary

In JSON a byte string is a string when its bytes are UTF-8, and an array of
integers otherwise; both forms are read, whatever the bytes.  In binary it is
its length and its bytes.

`ofHanded?` takes one value of any type that another source of data may hand
over: text and bytes in any form, and nothing else.
-/
import Bytewise.Binary.Codec
import Bytewise.Json.Reader
import Bytewise.Json.Writer
import Bytewise.Shared.Cell

namespace Bytewise.Interchange.Strings

set_option autoImplicit false

open Shared (Cell)

/-- What a byte string is called where another value stands. -/
def expected : String := "a string or a byte array"

/-! ## JSON -/

def writeJson (s : Bytes) : Bytes :=
  if Text.Utf8.isValid s then Json.Text.write s
  else Json.writeSequence (s.map fun b => Json.writeInteger b.toNat)

/-- Reads one byte as an integer. -/
def readByte (s : Bytes) : Json.Result UInt8 :=
  Json.readInteger (Cell.typeName UInt8) Cell.ofInt? s

def readJson (s : Bytes) : Json.Result Bytes :=
  match Json.skipBlank s with
  | [] => .error .endOfText
  | b :: rest =>
    if b = Byte.doubleQuote then Json.Text.readValid rest
    else if b = Byte.leftBracket then Json.items readByte rest
    else .error (Json.wrongType expected b rest)

def ofJson (s : Bytes) : Except Json.Error Bytes := Json.document readJson s

/-! ## Binary -/

def writeBinary (s : Bytes) : Bytes := Binary.writeBytes s

def ofBinary (s : Bytes) : Except Binary.Error Bytes := Binary.document Binary.readBytes s

/-! ## Any source -/

/-- A value that is handed over. -/
inductive Handed
  | text (s : String)
  | bytes (s : Bytes)
  | other (found : Found)
  deriving DecidableEq

def ofHanded? : Handed → Except Mismatch Bytes
  | .text s => .ok (Text.Utf8.ofString s)
  | .bytes s => .ok s
  | .other found => .error (.type found expected)

end Bytewise.Interchange.Strings
