/-
# Bytewise.Interchange.Arrays -- arrays of cells in JSON and in binary

An array is the sequence of its cells: integers in JSON, and integers of the
width of a cell in binary.  What is read is a new array with one handle.
-/
import Bytewise.Binary.Codec
import Bytewise.Json.Reader
import Bytewise.Json.Writer
import Bytewise.Shared.Heap

namespace Bytewise.Interchange.Arrays

set_option autoImplicit false

open Shared (Cell Handle Heap Storable)

variable {α : Type} [Cell α]

/-! ## JSON -/

def writeJson (cells : List α) : Bytes :=
  Json.writeSequence (cells.map fun c => Json.writeInteger (Cell.toInt c))

def readJson (s : Bytes) : Json.Result (List α) :=
  Json.readSequence (Json.readInteger (Cell.typeName α) Cell.ofInt?) s

/-- Reads a JSON text as a new array. -/
def ofJson (h : Heap α) (s : Bytes) : Except Json.Error (Heap α × Handle) :=
  (Json.document readJson s).map h.alloc

/-! ## Binary -/

def writeCell (c : α) : Bytes := Binary.writeUnsigned (Storable.width α) (Cell.toBits c)

def writeBinary (cells : List α) : Bytes := Binary.writeSequence (cells.map writeCell)

/-- Reads one cell: all its bits mean something. -/
def readCell (s : Bytes) : Binary.Result α :=
  (Binary.readUnsigned (Storable.width α) s).map fun r => (Cell.ofBits r.1, r.2)

/-- Reads bytes as a new array. -/
def ofBinary (h : Heap α) (s : Bytes) : Except Binary.Error (Heap α × Handle) :=
  (Binary.document (Binary.readSequence readCell) s).map h.alloc

end Bytewise.Interchange.Arrays
