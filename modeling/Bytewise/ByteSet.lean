/-
# Bytewise.ByteSet -- sets of bytes as sixteen 16-bit words

A set of bytes is a bitmap of 256 bits kept in sixteen words of 16 bits, the
form in which a compiled pattern stores it behind a class instruction.  Byte `b`
is bit `b % 16` of word `b / 16`.

* `insert`, `insertRange`, `insertAll` add bytes; a range whose ends are the
  wrong way round adds none;
* `negate` complements over all 256 bytes;
* `foldCase` adds the other case of every letter present;
* `ranges` lists the members as maximal inclusive ranges in ascending order.

`Edit` names the changes, so that a history of a set is a list.
-/
import Bytewise.Byte

namespace Bytewise

set_option autoImplicit false

structure ByteSet where
  words : Vector UInt16 16
  deriving DecidableEq

namespace ByteSet

/-- The word that holds a byte. -/
def index (b : UInt8) : Fin 16 := ⟨b.toNat / 16, by have := b.toNat_lt; omega⟩

/-- The bit of a byte inside its word. -/
def mask (b : UInt8) : UInt16 := 1 <<< UInt16.ofNat (b.toNat % 16)

def empty : ByteSet := ⟨Vector.replicate 16 0⟩

instance : Inhabited ByteSet := ⟨empty⟩

def contains (s : ByteSet) (b : UInt8) : Bool := s.words[index b] &&& mask b != 0

instance : Membership UInt8 ByteSet := ⟨fun s b => s.contains b = true⟩

instance (b : UInt8) (s : ByteSet) : Decidable (b ∈ s) :=
  inferInstanceAs (Decidable (s.contains b = true))

/-! ## Changes -/

def insert (s : ByteSet) (b : UInt8) : ByteSet :=
  ⟨s.words.set (index b) (s.words[index b] ||| mask b)⟩

def insertAll (s : ByteSet) (bs : Bytes) : ByteSet := bs.foldl insert s

/-- The bytes from `lo` up to and including `hi`; none when `hi < lo`. -/
def span (lo hi : UInt8) : Bytes :=
  (List.range' lo.toNat (hi.toNat + 1 - lo.toNat)).map UInt8.ofNat

def insertRange (s : ByteSet) (lo hi : UInt8) : ByteSet := s.insertAll (span lo hi)

def negate (s : ByteSet) : ByteSet := ⟨s.words.map (~~~ ·)⟩

/-- Adds a lower-case letter and its upper case when either is present. -/
def foldLetter (s : ByteSet) (b : UInt8) : ByteSet :=
  if s.contains b || s.contains (Byte.toUpper b) then (s.insert b).insert (Byte.toUpper b) else s

def foldCase (s : ByteSet) : ByteSet := (span 0x61 0x7a).foldl foldLetter s

def ofList (bs : Bytes) : ByteSet := empty.insertAll bs

/-- The white-space bytes. -/
def blank : ByteSet := ofList Byte.blanks

/-! ## Questions -/

/-- Number of bits set in a word. -/
def popCount (w : UInt16) : Nat := (List.range 16).countP fun i => w.toNat.testBit i

def size (s : ByteSet) : Nat := s.words.foldl (fun n w => n + popCount w) 0

def isEmpty (s : ByteSet) : Bool := s.words.all (· == 0)

/-- The members in ascending order. -/
def toList (s : ByteSet) : Bytes := (span 0 255).filter s.contains

/-- Joins each byte of an ascending list to the run that starts right after it. -/
def runs : Bytes → List (UInt8 × UInt8)
  | [] => []
  | b :: bs =>
    match runs bs with
    | (lo, hi) :: rest =>
      if lo.toNat = b.toNat + 1 then (b, hi) :: rest else (b, b) :: (lo, hi) :: rest
    | [] => [(b, b)]

def ranges (s : ByteSet) : List (UInt8 × UInt8) := runs s.toList

/-! ## Histories -/

inductive Edit
  | insert (b : UInt8)
  | insertRange (lo hi : UInt8)
  | insertAll (bs : Bytes)
  | negate
  | foldCase
  deriving DecidableEq, Repr

def apply (s : ByteSet) : Edit → ByteSet
  | .insert b => s.insert b
  | .insertRange lo hi => s.insertRange lo hi
  | .insertAll bs => s.insertAll bs
  | .negate => s.negate
  | .foldCase => s.foldCase

end ByteSet

end Bytewise
