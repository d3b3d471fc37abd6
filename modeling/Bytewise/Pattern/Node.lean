/-
# Bytewise.Pattern.Node -- what a pattern says

A pattern is a list of nodes.  An `Atom` accepts exactly one byte; an
`Assertion` accepts none and holds or fails at a position of the whole subject;
a node is an atom, an assertion, or an atom under one of three quantifiers.
Only atoms repeat, so a repetition never contains another one, and there is no
alternation.

`Atom.accepts` and `Assertion.holds` say what each of them means; everything
that matches a pattern is measured against these two.
-/
import Bytewise.ByteSet
import Bytewise.Subject

namespace Bytewise.Pattern

set_option autoImplicit false

/-- Accepts one byte. -/
inductive Atom
  | byte (b : UInt8)
  | any
  | set (s : ByteSet)
  deriving DecidableEq

/-- Holds at a position without taking a byte. -/
inductive Assertion
  | subjectStart
  | subjectEnd
  | wordStart
  | wordEnd
  | wordEdge
  deriving DecidableEq, Repr

inductive Quantifier
  | zeroOrMore
  | oneOrMore
  | zeroOrOne
  deriving DecidableEq, Repr

inductive Node
  | atom (a : Atom)
  | assertion (a : Assertion)
  | repetition (q : Quantifier) (a : Atom)
  deriving DecidableEq

/-- The atom for a literal byte.  Without regard to case it is kept in lower case. -/
def Atom.literal (caseSensitive : Bool) (b : UInt8) : Atom := .byte (Byte.fold caseSensitive b)

/-- A byte atom compares folded forms; a set has its case already folded in. -/
@[inline]
def Atom.accepts (caseSensitive : Bool) (b : UInt8) : Atom → Bool
  | .byte c => Byte.fold caseSensitive b == c
  | .any => true
  | .set s => s.contains b

/-- Is there a word byte just before position `i`? -/
def wordBefore (subject : Subject) (i : Nat) : Bool :=
  match i with
  | 0 => false
  | j + 1 => (subject.get? j).any Byte.isWord

/-- Is there a word byte at position `i`? -/
def wordAt (subject : Subject) (i : Nat) : Bool := (subject.get? i).any Byte.isWord

def Assertion.holds (subject : Subject) (i : Nat) : Assertion → Bool
  | .subjectStart => i == 0
  | .subjectEnd => i == subject.size
  | .wordStart => !wordBefore subject i && wordAt subject i
  | .wordEnd => wordBefore subject i && !wordAt subject i
  | .wordEdge => wordBefore subject i != wordAt subject i

end Bytewise.Pattern
