/-
# Bytewise.Pattern.Search -- the first match in a subject

`Program.search` looks for the first position at or after `start` where a program
matches, as the position and the end of the match.  It tries one position after
the other (`scan`), with two shortcuts:

* a program that starts with the start of the subject is tried at `start` only;
* a program that starts with a literal byte is tried only where that byte stands
  (`scanByte`).
-/
import Bytewise.Pattern.Matching

namespace Bytewise.Pattern

set_option autoImplicit false

/-- A match: where it starts and how long it is. -/
structure Span where
  start : Nat
  length : Nat
  deriving DecidableEq, Repr

/-- Where a match ends. -/
def Span.stop (s : Span) : Nat := s.start + s.length

namespace Program

/-- The match at exactly position `i`. -/
def matchAt? (p : Program) (subject : Subject) (i : Nat) : Option Span :=
  (p.matchEnd? subject i).map fun stop => ⟨i, stop - i⟩

/-- The first match at one of the `count` positions from `i` on. -/
def scan (p : Program) (subject : Subject) : Nat → Nat → Option Span
  | 0, _ => none
  | count + 1, i =>
    match p.matchAt? subject i with
    | some span => some span
    | none => scan p subject count (i + 1)

/-- The first match at one of the `count` positions from `i` on where the literal `c` stands. -/
def scanByte (p : Program) (c : UInt8) (subject : Subject) : Nat → Nat → Option Span
  | 0, _ => none
  | count + 1, i =>
    match (if ((subject.get? i).any fun b => Byte.fold p.caseSensitive b == c) then
        p.matchAt? subject i else none) with
    | some span => some span
    | none => scanByte p c subject count (i + 1)

def search (p : Program) (subject : Subject) (start : Nat) : Option Span :=
  if start ≤ subject.size then
    match p.first? with
    | some (.assertion .subjectStart) => p.matchAt? subject start
    | some (.atom (.byte c)) => p.scanByte c subject (subject.size - start) start
    | _ => p.scan subject (subject.size - start + 1) start
  else none

end Program

end Bytewise.Pattern
