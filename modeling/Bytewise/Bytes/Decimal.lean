/-
# Bytewise.Bytes.Decimal -- integers in decimal

`toInt64?` reads bytes as a signed and `toUInt64?` as an unsigned decimal of 64
bits, with white space around it allowed: an optional sign and at least one
digit, with any number of leading zeros.  A plus sign is read by both, a minus
sign only by the first.  What does not fit into the range is no number.
-/
import Bytewise.Bytes.Blank
import Bytewise.Text.Numeral

namespace Bytewise.Bytes

set_option autoImplicit false

/-- The value of one or more decimal digits, unless it exceeds a limit. -/
def digits? (limit : Nat) (s : Bytes) : Option Nat :=
  if s ≠ [] ∧ s.all Byte.isDigit then
    Text.Numeral.value? 10 limit (s.map fun b => b.toNat - Byte.zero.toNat)
  else none

/-- The value of digits behind an optional sign. -/
def signed? (s : Bytes) : Option Int :=
  match s with
  | [] => none
  | c :: rest =>
    if c = Byte.hyphen then (digits? 0x8000000000000000 rest).map fun n => -Int.ofNat n
    else if c = Byte.plus then (digits? 0x7fffffffffffffff rest).map Int.ofNat
    else (digits? 0x7fffffffffffffff s).map Int.ofNat

/-- The value of digits behind an optional plus sign. -/
def unsigned? (s : Bytes) : Option Nat :=
  match s with
  | [] => none
  | c :: rest =>
    if c = Byte.plus then digits? 0xffffffffffffffff rest else digits? 0xffffffffffffffff s

def toInt64? (s : Bytes) : Option Int := signed? (strip s)

def toUInt64? (s : Bytes) : Option Nat := unsigned? (strip s)

end Bytewise.Bytes
