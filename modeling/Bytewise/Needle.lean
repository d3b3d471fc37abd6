/-
# Bytewise.Needle -- what can be looked for in bytes

A needle is a byte, a byte string, a byte string without regard to case, or a
pattern.  `matchLength?` says how long an occurrence that starts at a position
is, and everything else is about the positions where there is one:

* `find?` gives the first occurrence at or after a position, each kind of needle
  in its own way: a byte and a byte string are looked for directly, a pattern
  has its own search, and case is ignored one position after the other;
* `findLast?` gives the last occurrence that starts at or before a position;
* `count` counts occurrences, and overlapping ones all count.

An empty byte string occurs nowhere; a pattern may match the empty string, even
at the end of the bytes.
-/
import Bytewise.Pattern.Basic

namespace Bytewise

set_option autoImplicit false

inductive Needle
  | byte (b : UInt8)
  | bytes (w : Bytes)
  | ignoringCase (w : Bytes)
  | pattern (p : Pattern)

namespace Needle

open Pattern (Span)

/-- Do the bytes from position `i` on start with `w`, as far as `same` tells bytes apart? -/
def startsAt (same : UInt8 → UInt8 → Bool) (hay : Subject) : Bytes → Nat → Bool
  | [], _ => true
  | b :: w, i => (hay.get? i).any (same b) && startsAt same hay w (i + 1)

/-- Are two bytes the same letter, or the same byte? -/
def sameLetter (a b : UInt8) : Bool := Byte.toLower a == Byte.toLower b

/-- The length of the occurrence that starts at position `i`. -/
def matchLength? (n : Needle) (hay : Subject) (i : Nat) : Option Nat :=
  match n with
  | .byte b => if hay.get? i = some b then some 1 else none
  | .bytes w => if w ≠ [] ∧ startsAt (· == ·) hay w i then some w.length else none
  | .ignoringCase w => if w ≠ [] ∧ startsAt sameLetter hay w i then some w.length else none
  | .pattern p => p.matchLength? hay i

/-- The first of `count` positions from `i` on that passes a test. -/
def firstPosition? (test : Nat → Bool) : Nat → Nat → Option Nat
  | 0, _ => none
  | count + 1, i => if test i then some i else firstPosition? test count (i + 1)

/-- The first occurrence at one of `count` positions from `i` on. -/
def scan (n : Needle) (hay : Subject) : Nat → Nat → Option Span
  | 0, _ => none
  | count + 1, i =>
    match n.matchLength? hay i with
    | some length => some ⟨i, length⟩
    | none => scan n hay count (i + 1)

/-- The first occurrence at or after `start`. -/
def find? (n : Needle) (hay : Subject) (start : Nat) : Option Span :=
  match n with
  | .byte b =>
    (firstPosition? (fun i => hay.get? i == some b) (hay.size - start) start).map fun i => ⟨i, 1⟩
  | .bytes w =>
    if w = [] ∨ hay.size < start ∨ hay.size - start < w.length then none
    else
      (firstPosition? (startsAt (· == ·) hay w) (hay.size - start - w.length + 1) start).map
        fun i => ⟨i, w.length⟩
  | .ignoringCase w => scan (.ignoringCase w) hay (hay.size + 1 - start) start
  | .pattern p => p.find? hay start

/-- The last position at or before `start` where there is an occurrence. -/
def lastPosition? (n : Needle) (hay : Subject) : Nat → Option Nat
  | 0 => if (n.matchLength? hay 0).isSome then some 0 else none
  | i + 1 => if (n.matchLength? hay (i + 1)).isSome then some (i + 1) else lastPosition? n hay i

/-- The last occurrence that starts at or before `start`; none when `start` is out of range. -/
def findLast? (n : Needle) (hay : Subject) (start : Nat) : Option Nat :=
  if start ≤ hay.size then n.lastPosition? hay start else none

/-- Counts occurrences from `start` on, looking again right after where each one starts; at most
`fuel` of them. -/
def countFrom (n : Needle) (hay : Subject) : Nat → Nat → Nat
  | 0, _ => 0
  | fuel + 1, start =>
    if start ≤ hay.size then
      match n.find? hay start with
      | some span => countFrom n hay fuel (span.start + 1) + 1
      | none => 0
    else 0

/-- The number of occurrences.  There is at most one at each position. -/
def count (n : Needle) (hay : Subject) : Nat := n.countFrom hay (hay.size + 1) 0

end Needle

end Bytewise
