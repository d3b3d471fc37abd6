/-
# Bytewise.Pattern.Matching -- running a program on a subject

`run` walks a program from an instruction on, at a position of the subject.
Atoms and assertions are taken in a straight line.  A repetition is greedy: it
takes as many bytes as its atom accepts, then gives them back one at a time
until the rest of the program matches (`giveBack`).

The walk nests only where a repetition tries the rest of the program, and `run`
counts those levels against a budget; the number of repetitions in the program
(`Program.repetitions`) is enough.  Whatever a walk must never do is a `Fault`
of its own: leave the code or the subject, stop at an inner `stop`, repeat
something that is no atom, or nest deeper than its budget.

`Program.matchEnd?` is the end of the match at a position.
-/
import Bytewise.Pattern.Program

namespace Bytewise.Pattern

set_option autoImplicit false

namespace Matching

/-- What a walk over a well-formed program never meets. -/
inductive Fault
  /-- The code ended without a `stop`. -/
  | codeExhausted
  /-- A `stop` that does not end the program was met as an instruction. -/
  | innerStop
  /-- A repetition is not followed by an atom and a `stop`. -/
  | malformedRepetition
  /-- The position lies behind the end of the subject. -/
  | outsideSubject
  /-- Repetitions nested more deeply than the budget allows. -/
  | tooDeep
  deriving DecidableEq, Repr

/-- How many bytes from `at` on the atom accepts in a row, up to `limit` of them. -/
def countAccepted (caseSensitive : Bool) (subject : Subject) (a : Atom) : Nat → Nat → Nat
  | 0, _ => 0
  | limit + 1, i =>
    match subject.get? i with
    | none => 0
    | some b =>
      if a.accepts caseSensitive b then countAccepted caseSensitive subject a limit (i + 1) + 1
      else 0

/-- Tries `rest` at `start + count`, then with one byte fewer at a time, down to `start`. -/
def giveBack (rest : Nat → Except Fault (Option Nat)) (start : Nat) :
    Nat → Except Fault (Option Nat)
  | 0 => rest start
  | count + 1 =>
    match rest (start + (count + 1)) with
    | .ok none => giveBack rest start count
    | found => found

/-- Runs code at a position of the subject; the end of the match, if there is one. -/
def run (caseSensitive : Bool) (subject : Subject) (budget : Nat) :
    List Instr → Nat → Except Fault (Option Nat)
  | [], _ => .error .codeExhausted
  | [.stop], i => if i ≤ subject.size then .ok (some i) else .error .outsideSubject
  | .stop :: _ :: _, _ => .error .innerStop
  | .atom a :: code, i =>
    if i > subject.size then .error .outsideSubject
    else if (subject.get? i).any (a.accepts caseSensitive) then
      run caseSensitive subject budget code (i + 1)
    else .ok none
  | .assertion a :: code, i =>
    if i > subject.size then .error .outsideSubject
    else if a.holds subject i then run caseSensitive subject budget code i
    else .ok none
  | .closure :: .atom a :: .stop :: code, i =>
    match budget with
    | 0 => .error .tooDeep
    | budget + 1 =>
      giveBack (run caseSensitive subject budget code) i
        (countAccepted caseSensitive subject a (subject.size - i) i)
  | .optional :: .atom a :: .stop :: code, i =>
    match budget with
    | 0 => .error .tooDeep
    | budget + 1 =>
      giveBack (run caseSensitive subject budget code) i (countAccepted caseSensitive subject a 1 i)
  | .closure :: _, _ => .error .malformedRepetition
  | .optional :: _, _ => .error .malformedRepetition

end Matching

namespace Program

/-- Runs the whole program at a position, with the budget it needs. -/
def run (p : Program) (subject : Subject) (i : Nat) : Except Matching.Fault (Option Nat) :=
  Matching.run p.caseSensitive subject p.repetitions p.code i

/-- The end of the match that starts at `i`.  Behind the end of the subject there is none. -/
def matchEnd? (p : Program) (subject : Subject) (i : Nat) : Option Nat :=
  if i ≤ subject.size then
    match p.run subject i with
    | .ok found => found
    | .error _ => none
  else none

end Program

end Bytewise.Pattern
