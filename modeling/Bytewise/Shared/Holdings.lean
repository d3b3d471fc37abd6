/-
# Bytewise.Shared.Holdings -- handles under names

`Holdings` are a heap together with named handles into it.  Binding a name counts
the new handle in and the old one out; `update` runs an operation on the handle
under a name, and puts the handle that it gives in the old one's place.
-/
import Bytewise.Shared.Heap
import Bytewise.Slots

namespace Bytewise.Shared

set_option autoImplicit false

structure Holdings (α : Type) where
  heap : Heap α
  handles : Slots Handle

namespace Holdings

variable {α : Type}

def empty : Holdings α := ⟨Heap.empty, []⟩

/-- The handle under a name; a name without one counts as null. -/
def handle (s : Holdings α) (name : String) : Handle := (s.handles.get? name).getD none

def cells (s : Holdings α) (name : String) : List α := s.heap.cells (s.handle name)

def refs (s : Holdings α) (name : String) : Nat := s.heap.refs (s.handle name)

def isNull (s : Holdings α) (name : String) : Bool := (s.handle name).isNone

/-- What a name shows: nothing for a null handle, else the cells. -/
def contents? (s : Holdings α) (name : String) : Option (List α) :=
  s.heap.contents? (s.handle name)

/-- Puts a handle that has been counted under a name, and lets go of the one that was there. -/
def bind (s : Holdings α) (name : String) (made : Heap α × Handle) : Holdings α :=
  ⟨made.1.release (s.handle name), s.handles.set name made.2⟩

/-- Another handle on what a name shows. -/
def share (s : Holdings α) (name : String) : Heap α × Handle :=
  (s.heap.retain (s.handle name), s.handle name)

/-- Lets go of the handle under a name. -/
def drop (s : Holdings α) (name : String) : Holdings α :=
  ⟨s.heap.release (s.handle name), s.handles.erase name⟩

/-- Puts the handle that an operation gives in the place of the one it was run on. -/
def update (s : Holdings α) (name : String) (changed : Heap α × Handle) : Holdings α :=
  ⟨changed.1, s.handles.set name changed.2⟩

/-- Runs an operation on the handle under a name. -/
def run (s : Holdings α) (name : String) (op : Heap α → Handle → Heap α × Handle) : Holdings α :=
  s.update name (op s.heap (s.handle name))

end Holdings

end Bytewise.Shared
