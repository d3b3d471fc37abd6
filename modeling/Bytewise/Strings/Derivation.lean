/-
# Bytewise.Strings.Derivation -- strings made from other strings

A `Derivation` makes a string from the bytes of another one: a part of it, its
letters in one case, itself without white space at the ends, or itself filled up
to a width.  `derive` says what comes of it (`Derived`): the very same string,
which is shared and not copied; a null string; fresh bytes; or nothing, where
there would be more bytes than a block of memory can hold.

* a part that is the whole string is the same string;
* a part that would start behind the end is a null string, with a warning;
* a string that is all white space strips to an empty one, and only a null
  string to a null one;
* filling up to a width at most as large as the length changes nothing, unless
  longer strings are to be cut, which always keeps their first bytes.
-/
import Bytewise.Bytes.Blank
import Bytewise.Bytes.Splice
import Bytewise.Shared.Cell
import Bytewise.Shared.Warning

namespace Bytewise.Strings

set_option autoImplicit false

open Shared (Warning)

inductive Derivation
  | copy
  | left (length : Nat)
  | right (length : Nat)
  | mid (i : Nat) (length? : Option Nat)
  | upper
  | lower
  | strip
  | simplify
  | leftJustify (width : Nat) (fill : UInt8) (cut : Bool)
  | rightJustify (width : Nat) (fill : UInt8) (cut : Bool)
  deriving DecidableEq, Repr

inductive Derived
  | same
  | null
  | fresh (bytes : Bytes)
  | tooLong
  deriving DecidableEq, Repr

/-- The first bytes of a string. -/
def leftPart (s : Bytes) (length : Nat) : Derived :=
  if s.length ≤ length then .same else .fresh (s.take length)

/-- The last bytes of a string. -/
def rightPart (s : Bytes) (length : Nat) : Derived :=
  if s.length ≤ length then .same else .fresh (s.drop (s.length - length))

/-- The bytes from a position on, at most so many of them if a length is given. -/
def midPart (s : Bytes) (i : Nat) (length? : Option Nat) : Derived :=
  if s.length < i then .null
  else
    let length := length?.getD s.length
    if i = 0 ∧ s.spanEnd i length = s.length then .same else .fresh (s.slice i length)

/-- A string filled up by `fillUp`, which is given the number of bytes that are missing. -/
def justify (s : Bytes) (width : Nat) (cut : Bool) (fillUp : Nat → Bytes) : Derived :=
  if s.length < width then
    if width ≤ Shared.maxBytes then .fresh (fillUp (width - s.length)) else .tooLong
  else if width < s.length ∧ cut = true then leftPart s width
  else .same

def derive (isNull : Bool) (s : Bytes) : Derivation → Derived
  | .copy => .same
  | .left length => leftPart s length
  | .right length => rightPart s length
  | .mid i length? => midPart s i length?
  | .upper => .fresh (s.map Byte.toUpper)
  | .lower => .fresh (s.map Byte.toLower)
  | .strip => if isNull then .null else .fresh s.strip
  | .simplify => .fresh s.simplify
  | .leftJustify width fill cut =>
    justify s width cut fun missing => s ++ List.replicate missing fill
  | .rightJustify width fill cut =>
    justify s width cut fun missing => List.replicate missing fill ++ s

/-- What a derivation warns about. -/
def derivationWarnings (s : Bytes) : Derivation → List Warning
  | .mid i _ => if s.length < i then [.byteIndex .mid i s.length] else []
  | _ => []

end Bytewise.Strings
