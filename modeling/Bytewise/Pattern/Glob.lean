/-
# Bytewise.Pattern.Glob -- wildcard text as pattern text

`toPatternText` turns a glob into the pattern that matches the same subjects whole:
`*` becomes `.*`, `?` becomes `.`, and the bytes `. + \ $ ^` are escaped; the
result is anchored at both ends.  Brackets are kept, and a `^` right after a `[`
keeps its meaning.
-/
import Bytewise.Byte

namespace Bytewise.Pattern.Glob

set_option autoImplicit false

/-- The bytes that mean something in a pattern, and only themselves in a glob. -/
def needsEscape (c : UInt8) : Bool :=
  c == Byte.dot || c == Byte.plus || c == Byte.backslash || c == Byte.dollar || c == Byte.caret

/-- What one byte of a glob becomes. -/
def byteText (c : UInt8) : Bytes :=
  if c = Byte.star then [Byte.dot, Byte.star]
  else if c = Byte.question then [Byte.dot]
  else if needsEscape c then [Byte.backslash, c]
  else [c]

/-- The text of a glob, byte by byte; `opened` says that a `[` came just before. -/
def body (opened : Bool) : Bytes → Bytes
  | [] => []
  | c :: rest =>
    if opened = true ∧ c = Byte.caret then c :: body false rest
    else byteText c ++ body (c == Byte.leftBracket) rest

def toPatternText (glob : Bytes) : Bytes := Byte.caret :: (body false glob ++ [Byte.dollar])

end Bytewise.Pattern.Glob
