/-
# Bytewise.Pattern.Basic -- patterns with their programs

A `Pattern` keeps its text, its flags and its limit, and beside them the program
and the error that were left by compiling these.  Whatever changes one of the four
compiles again, which writes both (`recompile`).  A pattern without a program is a
value like any other: it says why (`error?`) and matches nothing.

Two patterns are the same (`sameText`) when text and flags agree; their limits
and programs are not compared.
-/
import Bytewise.Pattern.Search
import Bytewise.Text.Quoted
import Bytewise.Text.Utf8

namespace Bytewise

set_option autoImplicit false

structure Pattern where
  text : String
  caseSensitive : Bool
  wildcard : Bool
  maxCells : Nat
  program? : Option Pattern.Program
  error? : Option Pattern.Error

namespace Pattern

/-- What compiling a pattern comes to, as its text, its flags and its limit are now. -/
def outcome (p : Pattern) : Except Error Program :=
  compile (Text.Utf8.ofString p.text) p.caseSensitive p.wildcard p.maxCells

/-- Compiles a pattern again after one of its fields has changed. -/
def recompile (p : Pattern) : Pattern :=
  match p.outcome with
  | .ok program => { p with program? := some program, error? := none }
  | .error e => { p with program? := none, error? := some e }

/-- A freshly compiled pattern. -/
def ofText (text : String) (caseSensitive wildcard : Bool) (maxCells : Nat) : Pattern :=
  recompile ⟨text, caseSensitive, wildcard, maxCells, none, none⟩

section

variable {text : String} {caseSensitive wildcard : Bool} {maxCells : Nat}

theorem ofText_of_ok {program : Program}
    (compiled : compile (Text.Utf8.ofString text) caseSensitive wildcard maxCells = .ok program) :
    ofText text caseSensitive wildcard maxCells =
      ⟨text, caseSensitive, wildcard, maxCells, some program, none⟩ := by
  rw [ofText, recompile, outcome, compiled]

@[simp] theorem text_ofText : (ofText text caseSensitive wildcard maxCells).text = text := by
  rw [ofText, recompile]
  split <;> rfl

@[simp] theorem caseSensitive_ofText :
    (ofText text caseSensitive wildcard maxCells).caseSensitive = caseSensitive := by
  rw [ofText, recompile]
  split <;> rfl

@[simp] theorem wildcard_ofText :
    (ofText text caseSensitive wildcard maxCells).wildcard = wildcard := by
  rw [ofText, recompile]
  split <;> rfl

@[simp] theorem maxCells_ofText :
    (ofText text caseSensitive wildcard maxCells).maxCells = maxCells := by
  rw [ofText, recompile]
  split <;> rfl

theorem ofText_inj {text' : String} {caseSensitive' wildcard' : Bool} {maxCells' : Nat} :
    ofText text caseSensitive wildcard maxCells = ofText text' caseSensitive' wildcard' maxCells' ↔
      text = text' ∧ caseSensitive = caseSensitive' ∧ wildcard = wildcard' ∧
        maxCells = maxCells' := by
  constructor
  · intro same
    refine ⟨?_, ?_, ?_, ?_⟩
    · simpa using congrArg Pattern.text same
    · simpa using congrArg Pattern.caseSensitive same
    · simpa using congrArg Pattern.wildcard same
    · simpa using congrArg Pattern.maxCells same
  · rintro ⟨rfl, rfl, rfl, rfl⟩
    rfl

end

def setText (p : Pattern) (text : String) : Pattern := { p with text }.recompile

def setCaseSensitive (p : Pattern) (caseSensitive : Bool) : Pattern :=
  { p with caseSensitive }.recompile

def setWildcard (p : Pattern) (wildcard : Bool) : Pattern := { p with wildcard }.recompile

def setMaxCells (p : Pattern) (maxCells : Nat) : Pattern := { p with maxCells }.recompile

def isValid (p : Pattern) : Bool := p.error?.isNone

def isEmpty (p : Pattern) : Bool := p.program?.isNone

def sameText (p q : Pattern) : Bool :=
  p.text == q.text && p.caseSensitive == q.caseSensitive && p.wildcard == q.wildcard

/-! ## Matching -/

/-- The first match at or after `start`. -/
def find? (p : Pattern) (subject : Subject) (start : Nat) : Option Span :=
  p.program?.bind fun program => program.search subject start

/-- The length of the match that starts at `i`. -/
def matchLength? (p : Pattern) (subject : Subject) (i : Nat) : Option Nat :=
  p.program?.bind fun program => (program.matchEnd? subject i).map (· - i)

def isMatch (p : Pattern) (subject : Subject) : Bool := (p.find? subject 0).isSome

/-- Does the match at the start of the subject take all of it? -/
def isExactMatch (p : Pattern) (subject : Subject) : Bool :=
  p.matchLength? subject 0 == some subject.size

/-! ## Description -/

def Error.describe : Error → String
  | .empty => "Empty"
  | .syntaxFault pos fault =>
    "Syntax \x7b pos: " ++ toString pos ++ ", reason: " ++ Text.Quoted.quote fault.reason ++ " \x7d"
  | .overflow limit => "Overflow \x7b limit: " ++ toString limit ++ " \x7d"

/-- All fields of a pattern but its limit, on one line. -/
def describe (p : Pattern) : String :=
  "Pattern \x7b pattern: " ++ Text.Quoted.quote p.text
    ++ ", case_sensitive: " ++ toString p.caseSensitive
    ++ ", wildcard: " ++ toString p.wildcard
    ++ ", error: " ++ (match p.error? with
      | none => "None"
      | some e => "Some(" ++ e.describe ++ ")") ++ " \x7d"

/-- The options of a compilation, on one line. -/
def describeLimit (maxCells : Nat) : String :=
  "CompileOptions \x7b max_cells: " ++ toString maxCells ++ " \x7d"

/-! ## Events -/

/-- What compiling and caching patterns reports. -/
inductive Event
  | compiled (text : String) (cells : Nat)
  | failed (text : String) (error : Error)
  | cacheFlushed (entries : Nat)
  deriving DecidableEq, Repr

/-- The report on compiling a pattern. -/
def event (p : Pattern) : Event :=
  match p.outcome with
  | .ok program => .compiled p.text program.cells
  | .error e => .failed p.text e

/-- An event as a line of a log, its level first. -/
def Event.line : Event → String
  | .compiled text cells =>
    "TRACE compiled " ++ Text.Quoted.quote text ++ " into " ++ toString cells ++ " cells"
  | .failed text error =>
    "DEBUG pattern " ++ Text.Quoted.quote text ++ " failed to compile: " ++ error.message
  | .cacheFlushed entries =>
    "TRACE pattern cache full (" ++ toString entries ++ " entries), flushing"

end Pattern

end Bytewise
