/-
# Bytewise.Shared.Search -- looking for cells

Searches over the cells of an array or of a view; both give the same answers.

* `indexFrom?` is the first position at or after `start` that holds a value;
* `runFrom?` is the first one where a run of cells starts; an empty run starts
  nowhere;
* `occurrences` counts the cells that hold a value.

Cells are compared by the equality of their type, which need not be a lawful one: a
cell may differ from itself.  A position out of range is answered with nothing; `at?`
and `find?` also warn.
-/
import Bytewise.Shared.Warning

namespace Bytewise.Shared.Search

set_option autoImplicit false

variable {α : Type}

/-- An answer and the warnings that come with it. -/
abbrev Warned (β : Type) := β × List Warning

/-- The cell at a position. -/
def at? (cells : List α) (i : Nat) : Warned (Option α) :=
  match cells[i]? with
  | some c => (some c, [])
  | none => (none, [.cellIndex .at i cells.length])

variable [BEq α]

/-- The first position of a value. -/
def index? (value : α) : List α → Option Nat
  | [] => none
  | c :: rest => if c == value then some 0 else (index? value rest).map (· + 1)

def indexFrom? (cells : List α) (value : α) (start : Nat) : Option Nat :=
  (index? value (cells.drop start)).map (· + start)

/-- Do the cells start with a run? -/
def startsWith : List α → List α → Bool
  | _, [] => true
  | [], _ :: _ => false
  | c :: cells, r :: run => c == r && startsWith cells run

/-- The first position where `run` starts. -/
def run? (run : List α) : List α → Option Nat
  | [] => none
  | c :: rest => if startsWith (c :: rest) run then some 0 else (run? run rest).map (· + 1)

def runFrom? (cells run : List α) (start : Nat) : Option Nat :=
  if run.isEmpty then none else (run? run (cells.drop start)).map (· + start)

def occurrences (cells : List α) (value : α) : Nat := cells.countP (· == value)

/-- The first position of a value at or after `start`. -/
def find? (cells : List α) (value : α) (start : Nat) : Warned (Option Nat) :=
  if start ≤ cells.length then (indexFrom? cells value start, [])
  else (none, [.cellIndex .find start cells.length])

end Bytewise.Shared.Search
