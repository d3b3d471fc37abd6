/-
# Bytewise.Text.Quoted -- text and bytes in double quotes

Two ways to show a value between double quotes so that nothing in it is
mistaken for something else.

* `quote` shows text: NUL, tab, line feed, carriage return, the double quote and
  the backslash have escapes of two characters, any other character that is not
  printable is `\u` with its code point in braces, and the rest stands as it is.
* `escapeBytes` shows bytes: as above, with both kinds of quote escaped, and
  every byte that is no printable ASCII character as `\x` with two digits.
-/
import Bytewise.Text.Numeral
import Bytewise.Text.Printable

namespace Bytewise.Text.Quoted

set_option autoImplicit false

def asciiText (bs : Bytes) : List Char := bs.map fun b => Char.ofNat b.toNat

/-- How one character of a quoted text is shown. -/
def showChar (c : Char) : List Char :=
  if c = Char.ofNat 0 then ['\\', '0']
  else if c = '\t' then ['\\', 't']
  else if c = '\n' then ['\\', 'n']
  else if c = '\r' then ['\\', 'r']
  else if c = '"' then ['\\', '"']
  else if c = '\\' then ['\\', '\\']
  else if Printable.isPrintable c then [c]
  else ['\\', 'u', '\x7b'] ++ asciiText (Numeral.hexadecimal c.toNat) ++ ['\x7d']

/-- A text between double quotes. -/
def quote (s : String) : String := String.ofList (['"'] ++ s.toList.flatMap showChar ++ ['"'])

/-- How one byte of a byte string is shown. -/
def showByte (b : UInt8) : List Char :=
  if b = 0x09 then ['\\', 't']
  else if b = 0x0a then ['\\', 'n']
  else if b = 0x0d then ['\\', 'r']
  else if b = 0x22 then ['\\', '"']
  else if b = 0x27 then ['\\', Char.ofNat b.toNat]
  else if b = 0x5c then ['\\', '\\']
  else if 0x20 ≤ b ∧ b ≤ 0x7e then [Char.ofNat b.toNat]
  else ['\\', 'x'] ++ asciiText [Byte.hexDigit (b.toNat / 16), Byte.hexDigit (b.toNat % 16)]

/-- Bytes between double quotes. -/
def escapeBytes (bs : Bytes) : String := String.ofList (['"'] ++ bs.flatMap showByte ++ ['"'])

end Bytewise.Text.Quoted
