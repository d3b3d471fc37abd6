/-
# Bytewise.Pattern.Cache -- compiled patterns, kept for the next time

A cache hands out compiled patterns by text and flags.  The first request for a
key compiles; later ones get the very pattern handed out before, until the cache
is flushed.  It is flushed as a whole: by `clear`, by `setMaxCells` with another
limit, and by a request for a new key when it is full.

Every pattern that is handed out has an identity, its number in the list of all
patterns handed out so far (`issued`).  A flush forgets which key has which
identity and nothing else, so what has been handed out never changes.
-/
import Bytewise.Pattern.Basic

namespace Bytewise.Pattern

set_option autoImplicit false

/-- What a cached pattern is found by. -/
structure Cache.Key where
  text : String
  caseSensitive : Bool
  wildcard : Bool
  deriving DecidableEq, Repr

structure Cache where
  /-- How many keys fit; at least one. -/
  capacity : Nat
  /-- The limit under which patterns are compiled from now on. -/
  maxCells : Nat
  /-- The identity of the pattern kept for a key. -/
  entries : List (Cache.Key × Nat)
  /-- All patterns handed out so far; the identity of each is its index. -/
  issued : List Pattern

namespace Cache

/-- Keys that fit unless a capacity is given. -/
def defaultCapacity : Nat := 64

def ofCapacity (capacity : Nat) : Cache := ⟨max capacity 1, defaultMaxCells, [], []⟩

def size (c : Cache) : Nat := c.entries.length

def isEmpty (c : Cache) : Bool := c.entries.isEmpty

def clear (c : Cache) : Cache := { c with entries := [] }

def setMaxCells (c : Cache) (maxCells : Nat) : Cache :=
  if c.maxCells = maxCells then c else { c with maxCells, entries := [] }

/-- The pattern that has an identity. -/
def pattern? (c : Cache) (id : Nat) : Option Pattern := c.issued[id]?

/-- Is there no room for another key? -/
def isFull (c : Cache) : Bool := c.capacity ≤ c.size

/-- Forgets all keys if there is no room for another one. -/
def makeRoom (c : Cache) : Cache := if c.isFull then c.clear else c

/-- A cache after a request, the identity it answered with, and what was reported. -/
structure Outcome where
  cache : Cache
  id : Nat
  events : List Event

def get (c : Cache) (key : Key) : Outcome :=
  match c.entries.lookup key with
  | some id => ⟨c, id, []⟩
  | none =>
    let p := ofText key.text key.caseSensitive key.wildcard c.maxCells
    let kept := c.makeRoom
    let id := c.issued.length
    ⟨{ kept with entries := (key, id) :: kept.entries, issued := c.issued ++ [p] }, id,
      (if c.isFull then [.cacheFlushed c.size] else []) ++ [p.event]⟩

/-! ## Histories -/

inductive Request
  | get (key : Key)
  | setMaxCells (maxCells : Nat)
  | clear
  deriving DecidableEq, Repr

def apply (c : Cache) : Request → Cache
  | .get key => (c.get key).cache
  | .setMaxCells maxCells => c.setMaxCells maxCells
  | .clear => c.clear

end Cache

end Bytewise.Pattern
