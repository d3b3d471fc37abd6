/-
# Bytewise.Byte -- ASCII facts about single bytes

Patterns and byte strings know ASCII and nothing else: a byte above 127 is no
letter, no digit and no white space, and has no other case.  This module holds
the classes (`isDigit`, `isUpper`, `isLower`, `isWord`, `isBlank`), the two case
maps (`toLower`, `toUpper`), the values of digits (`hexValue?`, `octalValue?`)
and the names of the bytes that patterns give a meaning to.
-/
namespace Bytewise

set_option autoImplicit false

/-- Bytes in order; no encoding is assumed. -/
abbrev Bytes := List UInt8

namespace Byte

/-! ## Named bytes -/

def space : UInt8 := 0x20
def doubleQuote : UInt8 := 0x22
def dollar : UInt8 := 0x24
def star : UInt8 := 0x2a
def plus : UInt8 := 0x2b
def comma : UInt8 := 0x2c
def hyphen : UInt8 := 0x2d
def dot : UInt8 := 0x2e
def zero : UInt8 := 0x30
def colon : UInt8 := 0x3a
def less : UInt8 := 0x3c
def greater : UInt8 := 0x3e
def question : UInt8 := 0x3f
def leftBracket : UInt8 := 0x5b
def backslash : UInt8 := 0x5c
def rightBracket : UInt8 := 0x5d
def caret : UInt8 := 0x5e
def underscore : UInt8 := 0x5f
def leftBrace : UInt8 := 0x7b
def rightBrace : UInt8 := 0x7d

/-- The byte of an ASCII character. -/
def ofChar (c : Char) : UInt8 := UInt8.ofNat c.toNat

/-! ## Classes -/

def isDigit (b : UInt8) : Bool := 0x30 ≤ b && b ≤ 0x39
def isUpper (b : UInt8) : Bool := 0x41 ≤ b && b ≤ 0x5a
def isLower (b : UInt8) : Bool := 0x61 ≤ b && b ≤ 0x7a
def isLetter (b : UInt8) : Bool := isUpper b || isLower b

/-- Words are made of letters, digits and the underscore. -/
def isWord (b : UInt8) : Bool := isLetter b || isDigit b || b == underscore

/-- White space: tab, line feed, vertical tab, form feed, carriage return, space. -/
def blanks : Bytes := [9, 10, 11, 12, 13, 32]

def isBlank (b : UInt8) : Bool := blanks.contains b

/-! ## Case -/

def toLower (b : UInt8) : UInt8 := if isUpper b then b + 0x20 else b
def toUpper (b : UInt8) : UInt8 := if isLower b then b - 0x20 else b

/-- The form in which two bytes are compared: as they are, or in lower case when case is ignored. -/
@[inline]
def fold (caseSensitive : Bool) (b : UInt8) : UInt8 := if caseSensitive then b else toLower b

/-! ## Digits -/

/-- Value of a hexadecimal digit of either case. -/
def hexValue? (b : UInt8) : Option Nat :=
  if isDigit b then some (b.toNat - 0x30)
  else if 0x41 ≤ b && b ≤ 0x46 then some (b.toNat - 0x41 + 10)
  else if 0x61 ≤ b && b ≤ 0x66 then some (b.toNat - 0x61 + 10)
  else none

def octalValue? (b : UInt8) : Option Nat :=
  if 0x30 ≤ b && b ≤ 0x37 then some (b.toNat - 0x30) else none

/-- The lower-case hexadecimal digit of a value below sixteen. -/
def hexDigit (n : Nat) : UInt8 :=
  if n < 10 then UInt8.ofNat (0x30 + n) else UInt8.ofNat (0x61 + (n - 10))

end Byte

end Bytewise
