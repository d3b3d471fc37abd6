/-
# Bytewise.Bytes.Splice -- cutting and joining bytes

`splice` replaces a span by other bytes, and `slice` cuts one out; a span that
reaches behind the end is cut at the end, however long it is.  `padTo` fills up
with spaces.
-/
import Bytewise.Byte

namespace Bytewise.Bytes

set_option autoImplicit false

/-- Where a span of `length` bytes at `i` ends. -/
def spanEnd (s : Bytes) (i length : Nat) : Nat := min (i + length) s.length

/-- Puts `t` in the place of a span. -/
def splice (s : Bytes) (i length : Nat) (t : Bytes) : Bytes :=
  s.take i ++ t ++ s.drop (s.spanEnd i length)

/-- The bytes of a span. -/
def slice (s : Bytes) (i length : Nat) : Bytes := (s.take (s.spanEnd i length)).drop i

/-- Spaces up to position `i`, if the bytes end before it. -/
def padTo (s : Bytes) (i : Nat) : Bytes := s ++ List.replicate (i - s.length) Byte.space

end Bytewise.Bytes
