/-
# Bytewise.Shared.Arrays -- arrays under names, and views of memory

The whole of what a program can do with shared arrays: an `Arrays` value holds
arrays under names, pieces of memory that are owned elsewhere (`memories`), and
read-only views of such memory, and an `Edit` is one operation on them.  Memory
under a name that had some already is another memory, and views of the old one
go on showing it.

Every edit changes at most the array or the view it names.  An edit that fails
changes nothing; it says so in its reply, and leaves a warning unless the reply
carries the error itself.  An array that is the source of an edit is held by one
more handle while the edit runs.
-/
import Bytewise.Shared.Resize
import Bytewise.Shared.Holdings
import Bytewise.Shared.Warning

namespace Bytewise.Shared

set_option autoImplicit false

/-- A read-only view of the cells of a memory from `lo` up to and not including `hi`. -/
structure View where
  memory : Nat
  lo : Nat
  hi : Nat
  deriving DecidableEq, Repr

structure Arrays (α : Type) where
  held : Holdings α
  /-- All memories there have been; each is known by its index. -/
  memories : List (List α)
  /-- The memories under names. -/
  memoryNames : Slots Nat
  views : Slots View

namespace Arrays

variable {α : Type}

def empty : Arrays α := ⟨Holdings.empty, [], [], []⟩

/-- The cells of a memory. -/
def memoryCells (a : Arrays α) (memory : Nat) : List α := (a.memories[memory]?).getD []

/-- The cells that a view shows. -/
def viewCells (a : Arrays α) (v : View) : List α := ((a.memoryCells v.memory).take v.hi).drop v.lo

/-- Where an edit takes cells from. -/
inductive Source (α : Type)
  | cells (cells : List α)
  | array (name : String)
  deriving DecidableEq

/-- A part of the memory under a name. -/
structure Region where
  memory : String
  lo : Nat
  hi : Nat
  deriving DecidableEq, Repr

/-- An operation on the array under one name. -/
inductive Change (α : Type)
  | detach
  | assign (source : String)
  | duplicate (source : Source α)
  | store (source : Source α)
  | resize (size : Nat)
  | tryResize (size : Nat)
  | truncate (size : Nat)
  | fill (value : α) (size? : Option Nat)
  | setAt (i : Nat) (value : α)
  /-- Writes cells over the first ones; the size stays. -/
  | overwrite (cells : List α)
  | reverse
  deriving DecidableEq

inductive Edit (α : Type)
  /-- Makes an array of cells, or a null array. -/
  | create (name : String) (cells? : Option (List α))
  | ofSize (name : String) (size : Nat)
  | copy (name source : String)
  | deepCopy (name source : String)
  | drop (name : String)
  | change (name : String) (change : Change α)
  | memory (name : String) (cells : List α)
  | view (view : String) (region : Region)
  /-- Gives an array up for a view. -/
  | setRaw (name view : String) (region : Region)
  /-- Gives a view up for a null array. -/
  | resetRaw (view name : String) (region : Region)
  | ofView (name view : String)
  deriving DecidableEq

inductive Reply
  | nothing
  /-- Did it work? -/
  | flag (done : Bool)
  | resized
  | allocationFailed (size : Nat)
  | otherMemory
  deriving DecidableEq, Repr

/-- The arrays after an edit, its reply, and its warnings. -/
structure Outcome (α : Type) where
  arrays : Arrays α
  reply : Reply
  warnings : List Warning

/-- The arrays after an operation on the heap and one of its handles. -/
def withHeld (a : Arrays α) (held : Holdings α) : Arrays α := { a with held }

/-- Runs an operation with the source of its cells held. -/
def withSource {β : Type} (s : Holdings α) (source : Source α)
    (op : Holdings α → List α → Holdings α × β) : Holdings α × β :=
  match source with
  | .cells cells => op s cells
  | .array name =>
    let held := s.handle name
    let after := op { s with heap := s.heap.retain held } (s.cells name)
    ({ after.1 with heap := after.1.heap.release held }, after.2)

/-- The holdings after an operation that may fail, its reply, and a warning where it failed. -/
def attempt (s : Holdings α) (name : String) (changed? : Option (Heap α × Handle))
    (warning : Warning) : Holdings α × Reply × List Warning :=
  match changed? with
  | some changed => (s.update name changed, .flag true, [])
  | none => (s, .flag false, [warning])

variable [Storable α]

/-- Runs an operation on the array under a name. -/
def applyChange (s : Holdings α) (name : String) : Change α → Holdings α × Reply × List Warning
  | .detach => (s.run name Heap.detach, .nothing, [])
  | .assign source => (s.bind name (s.share source), .nothing, [])
  | .duplicate source =>
    withSource s source fun s cells =>
      (s.run name fun h x => h.duplicate x cells, .flag true, [])
  | .store source =>
    withSource s source fun s cells =>
      attempt s name (s.heap.store? (s.handle name) cells) (.notResized cells.length)
  | .resize size => attempt s name (s.heap.resize? (s.handle name) size) (.notResized size)
  | .tryResize size =>
    match s.heap.resize? (s.handle name) size with
    | some changed => (s.update name changed, .resized, [])
    | none => (s, .allocationFailed size, [])
  | .truncate size => attempt s name (s.heap.truncate? (s.handle name) size) (.notResized size)
  | .fill value size? =>
    attempt s name (s.heap.fill? (s.handle name) value size?) (.notResized (size?.getD 0))
  | .setAt i value =>
    attempt s name (s.heap.setAt? (s.handle name) i value)
      (.cellIndex .setAt i (s.cells name).length)
  | .overwrite cells =>
    (s.run name fun h x => h.modify x fun old =>
      cells.take old.length ++ old.drop cells.length, .nothing, [])
  | .reverse => (s.run name fun h x => h.modify x List.reverse, .nothing, [])

/-- The view of a region, if there is memory under its name. -/
def viewOf? {α : Type} (a : Arrays α) (r : Region) : Option View :=
  (a.memoryNames.get? r.memory).map fun memory => ⟨memory, r.lo, r.hi⟩

/-- The cells of a region. -/
def regionCells {α : Type} (a : Arrays α) (r : Region) : List α :=
  ((a.viewOf? r).map a.viewCells).getD []

/-- Puts new memory under a name.  Memory that was there before stays as it is, for its views. -/
def addMemory {α : Type} (a : Arrays α) (name : String) (cells : List α) : Arrays α :=
  { a with
    memories := a.memories ++ [cells]
    memoryNames := a.memoryNames.set name a.memories.length }

def apply (a : Arrays α) : Edit α → Outcome α
  | .create name none => ⟨a.withHeld (a.held.bind name (a.held.heap, none)), .nothing, []⟩
  | .create name (some cells) =>
    ⟨a.withHeld (a.held.bind name (a.held.heap.alloc cells)), .nothing, []⟩
  | .ofSize name size =>
    match a.held.heap.ofSize? size with
    | some made => ⟨a.withHeld (a.held.bind name made), .nothing, []⟩
    | none =>
      ⟨a.withHeld (a.held.bind name (a.held.heap, none)), .nothing, [.notMade size]⟩
  | .copy name source => ⟨a.withHeld (a.held.bind name (a.held.share source)), .nothing, []⟩
  | .deepCopy name source =>
    let made :=
      match a.held.contents? source with
      | none => (a.held.heap, none)
      | some cells => a.held.heap.alloc cells
    ⟨a.withHeld (a.held.bind name made), .nothing, []⟩
  | .drop name => ⟨a.withHeld (a.held.drop name), .nothing, []⟩
  | .change name change =>
    let r := applyChange a.held name change
    ⟨a.withHeld r.1, r.2.1, r.2.2⟩
  | .memory name cells => ⟨a.addMemory name cells, .nothing, []⟩
  | .view view region =>
    match a.viewOf? region with
    | none => ⟨a, .nothing, []⟩
    | some v => ⟨{ a with views := a.views.set view v }, .nothing, []⟩
  | .setRaw name view region =>
    match a.viewOf? region with
    | none => ⟨a, .nothing, []⟩
    | some v => ⟨{ a with held := a.held.drop name, views := a.views.set view v }, .nothing, []⟩
  | .resetRaw view name region =>
    match a.views.get? view with
    | none => ⟨a, .nothing, []⟩
    | some v =>
      if a.viewOf? region = some v then
        ⟨{ a with held := a.held.bind name (a.held.heap, none), views := a.views.erase view },
          .nothing, []⟩
      else
        ⟨a, .otherMemory, [.otherMemory (a.viewCells v).length
          (a.regionCells region).length]⟩
  | .ofView name view =>
    match a.views.get? view with
    | none => ⟨a, .nothing, []⟩
    | some v => ⟨a.withHeld (a.held.bind name (a.held.heap.alloc (a.viewCells v))), .nothing, []⟩

/-- The arrays after a list of edits. -/
def run (a : Arrays α) (edits : List (Edit α)) : Arrays α :=
  edits.foldl (fun a e => (a.apply e).arrays) a

/-! ## Questions -/

/-- Do two names show the same block?  There is no answer when one of them shows no cells. -/
def sameBlock? {α : Type} (a : Arrays α) (name other : String) : Option Bool :=
  if (a.held.cells name).isEmpty || (a.held.cells other).isEmpty then none
  else some (a.held.handle name == a.held.handle other)

/-- An array or a view. -/
inductive Operand
  | array (name : String)
  | view (name : String)
  deriving DecidableEq, Repr

/-- Where cells are kept: in a block, or in a memory from a position on. -/
inductive Place
  | block (i : Nat)
  | memory (i lo : Nat)
  deriving DecidableEq, Repr

def operandCells {α : Type} (a : Arrays α) : Operand → List α
  | .array name => a.held.cells name
  | .view name => ((a.views.get? name).map a.viewCells).getD []

def place? {α : Type} (a : Arrays α) : Operand → Option Place
  | .array name => (a.held.handle name).map .block
  | .view name => (a.views.get? name).map fun v => .memory v.memory v.lo

/-- Are the cells kept in the same place? -/
def samePlace {α : Type} (a : Arrays α) (x y : Operand) : Bool :=
  match a.place? x, a.place? y with
  | some p, some q => p == q
  | _, _ => false

/-- Do two arrays hold equal cells?  Two names of one block do, without a look at its cells. -/
def equal {α : Type} [BEq α] (a : Arrays α) (name other : String) : Bool :=
  a.samePlace (.array name) (.array other) || a.held.cells name == a.held.cells other

/-- Do two arrays or views hold equal cells?  As many cells in the same place do, without a look at
them. -/
def isEqual {α : Type} [BEq α] (a : Arrays α) (x y : Operand) : Bool :=
  (a.operandCells x).length == (a.operandCells y).length
    && (a.samePlace x y || a.operandCells x == a.operandCells y)

end Arrays

end Bytewise.Shared
