/-
# Bytewise.Shared.Heap -- blocks of cells with reference counts

A block holds the cells of an array and counts the handles that refer to it.  A
handle is null or names a block.  A block lives as long as its count: `release`
of the last handle frees it, and its number is not used again.

* `retain` and `release` count a handle in and out;
* `alloc` makes a block with one handle;
* `detach` makes a handle the only one of its block, by a copy where the block
  is shared;
* `own` does so for a null handle too, which gets an empty block;
* `write` changes the cells of a block in place, for all its handles.

A write is safe after `detach` or `own` only; `modify` and `edit` are the two
ways to change cells, and both take care of it.
-/
import Bytewise.Shared.Cell

namespace Bytewise.Shared

set_option autoImplicit false

structure Block (α : Type) where
  cells : List α
  refs : Nat
  deriving DecidableEq

/-- Blocks by number; a block that has been freed is `none`. -/
structure Heap (α : Type) where
  blocks : List (Option (Block α))
  deriving DecidableEq

/-- Null, or the number of a block. -/
abbrev Handle := Option Nat

namespace Heap

variable {α : Type}

def empty : Heap α := ⟨[]⟩

def block? (h : Heap α) (i : Nat) : Option (Block α) := h.blocks[i]?.join

def put (h : Heap α) (i : Nat) (b : Option (Block α)) : Heap α := ⟨h.blocks.set i b⟩

/-! ## What a handle shows -/

/-- The cells behind a handle; a null handle has none. -/
def cells (h : Heap α) (x : Handle) : List α :=
  match x.bind h.block? with
  | some b => b.cells
  | none => []

/-- How many handles refer to the block of a handle; zero for a null handle. -/
def refs (h : Heap α) (x : Handle) : Nat :=
  match x.bind h.block? with
  | some b => b.refs
  | none => 0

def isShared (h : Heap α) (x : Handle) : Bool := 1 < h.refs x

/-- Nothing for a null handle, else the cells. -/
def contents? (h : Heap α) (x : Handle) : Option (List α) := x.map fun _ => h.cells x

/-! ## Counting -/

/-- Changes the block of a handle, if it has one. -/
def adjust (h : Heap α) (x : Handle) (f : Block α → Option (Block α)) : Heap α :=
  match x with
  | none => h
  | some i =>
    match h.block? i with
    | some b => h.put i (f b)
    | none => h

def retain (h : Heap α) (x : Handle) : Heap α :=
  h.adjust x fun b => some { b with refs := b.refs + 1 }

def release (h : Heap α) (x : Handle) : Heap α :=
  h.adjust x fun b => if b.refs ≤ 1 then none else some { b with refs := b.refs - 1 }

/-- A new block with one handle. -/
def alloc (h : Heap α) (cells : List α) : Heap α × Handle :=
  (⟨h.blocks ++ [some ⟨cells, 1⟩]⟩, some h.blocks.length)

/-- Moves a handle to a new block. -/
def move (h : Heap α) (x : Handle) (cells : List α) : Heap α × Handle := (h.release x).alloc cells

/-! ## Changing cells -/

def write (h : Heap α) (x : Handle) (cells : List α) : Heap α :=
  h.adjust x fun b => some { b with cells }

/-- Makes the handle the only one of its block. -/
def detach (h : Heap α) (x : Handle) : Heap α × Handle :=
  if h.isShared x then h.move x (h.cells x) else (h, x)

/-- Makes the handle the only one of a block, which is new and empty for a null handle. -/
def own (h : Heap α) (x : Handle) : Heap α × Handle :=
  match x with
  | none => h.alloc []
  | some _ => h.detach x

/-- Changes the cells behind a handle and behind no other; a null handle stays null. -/
def modify (h : Heap α) (x : Handle) (f : List α → List α) : Heap α × Handle :=
  let (h, x) := h.detach x
  (h.write x (f (h.cells x)), x)

/-- As `modify`, but a null handle gets a block. -/
def edit (h : Heap α) (x : Handle) (f : List α → List α) : Heap α × Handle :=
  let (h, x) := h.own x
  (h.write x (f (h.cells x)), x)

end Heap

end Bytewise.Shared
