/-
# Bytewise.Pattern.Register -- patterns under names

A register keeps any number of patterns, each under a name of its own, and an
`Edit` makes one, copies one or changes one.  Only the named pattern is touched,
and every edit that compiles reports how that went.
-/
import Bytewise.Pattern.Basic
import Bytewise.Slots

namespace Bytewise.Pattern

set_option autoImplicit false

abbrev Register := Slots Pattern

namespace Register

/-- A change to the pattern under one name. -/
inductive Setter
  | text (text : String)
  | caseSensitive (value : Bool)
  | wildcard (value : Bool)
  | maxCells (value : Nat)
  deriving DecidableEq, Repr

inductive Edit
  /-- Makes a pattern, valid or not. -/
  | create (name text : String) (caseSensitive wildcard : Bool) (maxCells : Nat)
  /-- Makes a pattern, unless it is not valid. -/
  | createValid (name text : String) (caseSensitive wildcard : Bool)
  | copy (name source : String)
  | change (name : String) (setter : Setter)
  deriving DecidableEq, Repr

def Setter.apply (p : Pattern) : Setter → Pattern
  | .text t => p.setText t
  | .caseSensitive v => p.setCaseSensitive v
  | .wildcard v => p.setWildcard v
  | .maxCells n => p.setMaxCells n

/-- A register after an edit, the error of an edit that was refused, and what was reported. -/
structure Outcome where
  register : Register
  error? : Option Error
  events : List Event

def apply (r : Register) : Edit → Outcome
  | .create name text caseSensitive wildcard maxCells =>
    let p := ofText text caseSensitive wildcard maxCells
    ⟨r.set name p, none, [p.event]⟩
  | .createValid name text caseSensitive wildcard =>
    let p := ofText text caseSensitive wildcard defaultMaxCells
    match p.error? with
    | some e => ⟨r, some e, [p.event]⟩
    | none => ⟨r.set name p, none, [p.event]⟩
  | .copy name source =>
    match r.get? source with
    | some p => ⟨r.set name p, none, []⟩
    | none => ⟨r, none, []⟩
  | .change name setter =>
    match r.get? name with
    | some p => ⟨r.set name (setter.apply p), none, [(setter.apply p).event]⟩
    | none => ⟨r, none, []⟩

/-- The register after a list of edits. -/
def run (r : Register) (edits : List Edit) : Register :=
  edits.foldl (fun r e => (r.apply e).register) r

end Register

end Bytewise.Pattern
