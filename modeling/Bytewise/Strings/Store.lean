/-
# Bytewise.Strings.Store -- shared strings under names

A string is a shared array of bytes, so copies are cheap and every edit detaches
first.  A `Store` keeps strings under names, and an `Edit` is one operation: it
makes a string, derives one from another, drops one or changes one.

Only the string that an edit names is changed.  A position out of range changes
nothing and is warned about; so is memory that cannot be had.  An insertion
behind the end fills up with spaces.  A result of more bytes than a block of
memory can hold is an overflow: nothing is bound, but a string that was to be
inserted into has already been detached, and filled up to the position of the
insertion if only the bytes behind it are too many (`filledUp`).
-/
import Bytewise.Needle.Replace
import Bytewise.Shared.Resize
import Bytewise.Shared.Holdings
import Bytewise.Strings.Derivation
import Bytewise.Text.Numeral

namespace Bytewise.Strings

set_option autoImplicit false

open Shared (Handle Heap Holdings Warning)

abbrev Store := Holdings UInt8

/-- An operation on the string under one name. -/
inductive Change
  | replace (needle : Needle) (replacement : Bytes)
  | replaceRange (i length : Nat) (bytes : Bytes)
  | insert (i : Nat) (bytes : Bytes)
  | append (bytes : Bytes)
  | remove (i length : Nat)
  | truncate (length : Nat)
  | fill (c : UInt8) (length? : Option Nat)
  | setNumber (n : Int)

inductive Edit
  /-- Makes a string of bytes, or a null string. -/
  | create (name : String) (bytes? : Option Bytes)
  | ofNumber (name : String) (n : Int)
  | derive (name source : String) (derivation : Derivation)
  | drop (name : String)
  | change (name : String) (change : Change)

inductive Reply
  | nothing
  /-- Did it work? -/
  | flag (done : Bool)
  | overflow
  deriving DecidableEq, Repr

/-- What is said about an overflow. -/
def overflowMessage : String := "capacity overflow"

/-- The strings after an edit, its reply, and its warnings. -/
structure Outcome where
  store : Store
  reply : Reply
  warnings : List Warning

/-- The bytes of a number. -/
def numberBytes (n : Int) : Bytes := Text.Numeral.integer n

/-- Replaces the bytes of a string by those `op` makes of them, after detaching it. -/
def edited (s : Store) (name : String) (op : Bytes → Bytes) : Outcome :=
  ⟨s.run name fun h x => h.edit x op, .nothing, []⟩

/-- What an insertion at `i` that overflows has made of the bytes by then. -/
def filledUp (old : Bytes) (i : Nat) : Bytes :=
  if i ≤ Shared.maxBytes then Bytes.padTo old i else old

/-- The strings after an operation that may fail for want of memory. -/
def attempt (s : Store) (name : String) (changed? : Option (Heap UInt8 × Handle)) (size : Nat) :
    Outcome :=
  match changed? with
  | some changed => ⟨s.update name changed, .flag true, []⟩
  | none => ⟨s, .flag false, [.notResized size]⟩

def applyChange (s : Store) (name : String) : Change → Outcome
  | .replace needle replacement =>
    let (spans, bytes) := needle.replace replacement (s.cells name)
    if spans = [] then ⟨s, .nothing, []⟩ else edited s name fun _ => bytes
  | .replaceRange i length bytes =>
    if i ≤ (s.cells name).length then edited s name fun old => Bytes.splice old i length bytes
    else ⟨s, .nothing, [.byteIndex .replaceRange i (s.cells name).length]⟩
  | .insert i bytes =>
    if max i (s.cells name).length + bytes.length ≤ Shared.maxBytes then
      edited s name fun old => Bytes.splice (Bytes.padTo old i) i 0 bytes
    else { edited s name fun old => filledUp old i with reply := .overflow }
  | .append bytes => edited s name fun old => old ++ bytes
  | .remove i length =>
    if i ≤ (s.cells name).length then
      if i < Bytes.spanEnd (s.cells name) i length then
        edited s name fun old => Bytes.splice old i length []
      else ⟨s, .nothing, []⟩
    else ⟨s, .nothing, [.byteIndex .remove i (s.cells name).length]⟩
  | .truncate length => attempt s name (s.heap.truncate? (s.handle name) length) length
  | .fill c length? =>
    attempt s name (s.heap.fill? (s.handle name) c length?) (length?.getD 0)
  | .setNumber n =>
    { attempt s name (s.heap.store? (s.handle name) (numberBytes n)) (numberBytes n).length with
      reply := .nothing }

/-- Binds what comes of a derivation. -/
def bindDerived (s : Store) (name source : String) : Derived → Store
  | .same => s.bind name (s.share source)
  | .null => s.bind name (s.heap, none)
  | .fresh bytes => s.bind name (s.heap.alloc bytes)
  | .tooLong => s

def apply (s : Store) : Edit → Outcome
  | .create name none => ⟨s.bind name (s.heap, none), .nothing, []⟩
  | .create name (some bytes) => ⟨s.bind name (s.heap.alloc bytes), .nothing, []⟩
  | .ofNumber name n => ⟨s.bind name (s.heap.alloc (numberBytes n)), .nothing, []⟩
  | .derive name source derivation =>
    let bytes := s.cells source
    let derived := derive (s.isNull source) bytes derivation
    ⟨bindDerived s name source derived, if derived = .tooLong then .overflow else .nothing,
      derivationWarnings bytes derivation⟩
  | .drop name => ⟨s.drop name, .nothing, []⟩
  | .change name change => applyChange s name change

/-- The strings after a list of edits. -/
def run (s : Store) (edits : List Edit) : Store := edits.foldl (fun s e => (apply s e).store) s

/-! ## Questions -/

/-- The last occurrence that starts at or before a position, or at all; a position out of range is
warned about. -/
def findLast? (s : Bytes) (needle : Needle) (start? : Option Nat) : Option Nat × List Warning :=
  match start? with
  | none => (needle.findLast? (.ofBytes s) s.length, [])
  | some start =>
    if start ≤ s.length then (needle.findLast? (.ofBytes s) start, [])
    else (none, [.byteIndex .findLast start s.length])

/-- Bytes are ordered as unsigned numbers, strings by the first byte that differs; a string comes
before what it starts. -/
def compare : Bytes → Bytes → Ordering
  | [], [] => .eq
  | [], _ :: _ => .lt
  | _ :: _, [] => .gt
  | a :: s, b :: t => if a < b then .lt else if b < a then .gt else compare s t

end Bytewise.Strings
