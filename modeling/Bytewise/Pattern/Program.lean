/-
# Bytewise.Pattern.Program -- compiled patterns

A program is a flat list of instructions.  An atom or an assertion is one
instruction; a repetition is three, the kind of repetition, its atom and `stop`;
one more `stop` ends the program.  `+` is written as its atom followed by a
repetition of it.

A program is measured in cells of sixteen bits: one for an instruction, and
sixteen more for the bitmap of a set.  `compile` gives the program of a pattern
text, or says why there is none: an empty text, a fault of the text, or more
cells than the limit allows, in this order.
-/
import Bytewise.Pattern.Glob
import Bytewise.Pattern.Parse

namespace Bytewise.Pattern

set_option autoImplicit false

inductive Instr
  | atom (a : Atom)
  | assertion (a : Assertion)
  | closure
  | optional
  | stop
  deriving DecidableEq

namespace Instr

/-- Cells of the bitmap that follows the instruction for a set. -/
def bitmapCells : Nat := 16

/-- Cells of an instruction without its bitmap. -/
def ownCells : Nat := 1

def cells : Instr → Nat
  | .atom (.set _) => ownCells + bitmapCells
  | _ => ownCells

/-- Does the instruction take exactly one byte? -/
def isAtom : Instr → Bool
  | .atom _ => true
  | _ => false

/-- Does the instruction start a repetition? -/
def isRepetition : Instr → Bool
  | .closure | .optional => true
  | _ => false

end Instr

/-- The instructions of one node. -/
def Node.code : Node → List Instr
  | .atom a => [.atom a]
  | .assertion a => [.assertion a]
  | .repetition .zeroOrMore a => [.closure, .atom a, .stop]
  | .repetition .zeroOrOne a => [.optional, .atom a, .stop]
  | .repetition .oneOrMore a => [.atom a, .closure, .atom a, .stop]

/-- A compiled pattern: its instructions, the cells they take, and how bytes are compared. -/
structure Program where
  code : List Instr
  cells : Nat
  caseSensitive : Bool
  deriving DecidableEq

namespace Program

/-- The instruction a program starts with. -/
def first? (p : Program) : Option Instr := p.code.head?

/-- How many repetitions the program holds. -/
def repetitions (p : Program) : Nat := p.code.countP Instr.isRepetition

end Program

/-- Cells a program may take unless a limit is given. -/
def defaultMaxCells : Nat := 1024

/-- The cells in use once instructions have been placed behind `used` cells.  The first one that
does not fit is an overflow. -/
def place (maxCells used : Nat) : List Instr → Except Error Nat
  | [] => .ok used
  | i :: rest =>
    if used + i.cells ≤ maxCells then place maxCells (used + i.cells) rest
    else .error (.overflow maxCells)

/-- The instructions of a pattern. -/
def codeOf (nodes : List Node) : List Instr := nodes.flatMap Node.code ++ [.stop]

/-- The program of a list of nodes, if it fits into the limit. -/
def emit (caseSensitive : Bool) (maxCells : Nat) (nodes : List Node) : Except Error Program :=
  (place maxCells 0 (codeOf nodes)).map fun cells => ⟨codeOf nodes, cells, caseSensitive⟩

/-- The pattern text that is parsed: of a glob, the pattern that it stands for. -/
def sourceText (wildcard : Bool) (text : Bytes) : Bytes :=
  if wildcard then Glob.toPatternText text else text

def compile (text : Bytes) (caseSensitive wildcard : Bool) (maxCells : Nat) :
    Except Error Program :=
  if text = [] then .error .empty
  else
    match parse caseSensitive (sourceText wildcard text) with
    | .error (pos, fault) => .error (.syntaxFault pos fault)
    | .ok nodes => emit caseSensitive maxCells nodes

end Bytewise.Pattern
