/-
# Bytewise.Shared.Resize -- arrays of another size

The operations that change how many cells a handle shows.  `resize?` is the only
one that can fail, for want of memory, and then there is no result and the
handle stays as it was; the others are made of it.

* `resize?` keeps the first cells and fills up with zero cells: in place where
  the handle is the only one of its block, in a new block where it is null or
  shares one;
* `truncate?` never grows;
* `fill?` resizes, where a size is given, and sets every cell;
* `duplicate` and `store?` take over the cells of a list.  The first keeps a
  block only when it is unshared and has the right size, the second resizes.
-/
import Bytewise.Shared.Heap

namespace Bytewise.Shared.Heap

set_option autoImplicit false

variable {α : Type} [Storable α]

/-- An array of zero cells. -/
def ofSize? (h : Heap α) (size : Nat) : Option (Heap α × Handle) :=
  if fits α size then some (h.alloc (List.replicate size Storable.zero)) else none

def resize? (h : Heap α) (x : Handle) (size : Nat) : Option (Heap α × Handle) :=
  let cells := h.cells x
  if h.refs x = 1 then
    if cells.length < size ∧ ¬ fits α size then none
    else some (h.write x (resized cells size), x)
  else if fits α size then some (h.move x (resized cells size))
  else none

def truncate? (h : Heap α) (x : Handle) (size : Nat) : Option (Heap α × Handle) :=
  if size < (h.cells x).length then h.resize? x size else some (h, x)

/-- Sets every cell, after resizing where a size is given. -/
def fill? (h : Heap α) (x : Handle) (value : α) (size? : Option Nat) : Option (Heap α × Handle) :=
  match size? with
  | none => some (h.modify x fun cells => cells.map fun _ => value)
  | some size =>
    (h.resize? x size).map fun r => r.1.modify r.2 fun cells => cells.map fun _ => value

def duplicate (h : Heap α) (x : Handle) (cells : List α) : Heap α × Handle :=
  if h.refs x = 1 ∧ (h.cells x).length = cells.length then (h.write x cells, x)
  else h.move x cells

def store? (h : Heap α) (x : Handle) (cells : List α) : Option (Heap α × Handle) :=
  (h.resize? x cells.length).map fun r => r.1.modify r.2 fun _ => cells

/-- Sets one cell. -/
def setAt? (h : Heap α) (x : Handle) (i : Nat) (value : α) : Option (Heap α × Handle) :=
  if i < (h.cells x).length then some (h.modify x fun cells => cells.set i value) else none

end Bytewise.Shared.Heap
