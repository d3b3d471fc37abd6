/-
# Bytewise.Binary.Codec -- values as bytes of fixed layout

Unsigned integers take a fixed number of bytes, the lowest first; a truth value
is one byte, zero or one; whatever has a length is preceded by it, as an integer
of eight bytes.  A value does not say where it ends, nor is anything behind it
looked at: readers give what they read together with the rest.
-/
import Bytewise.Byte

namespace Bytewise.Binary

set_option autoImplicit false

inductive Error
  | endOfInput
  | invalidText
  | invalidBoolean
  deriving DecidableEq, Repr

/-- What a reader gives: a value and the bytes after it, or an error. -/
abbrev Result (α : Type) := Except Error (α × Bytes)

/-- Bytes of a length. -/
def lengthWidth : Nat := 8

/-! ## Writing -/

/-- The lowest `width` bytes of a natural, the lowest first. -/
def writeUnsigned : Nat → Nat → Bytes
  | 0, _ => []
  | width + 1, n => UInt8.ofNat n :: writeUnsigned width (n / 256)

def writeBool (b : Bool) : Bytes := [if b then 1 else 0]

/-- Bytes behind their length. -/
def writeBytes (s : Bytes) : Bytes := writeUnsigned lengthWidth s.length ++ s

/-- Parts behind their number. -/
def writeSequence (parts : List Bytes) : Bytes :=
  writeUnsigned lengthWidth parts.length ++ parts.flatten

/-! ## Reading -/

def readUnsigned : Nat → Bytes → Result Nat
  | 0, s => .ok (0, s)
  | _ + 1, [] => .error .endOfInput
  | width + 1, b :: rest => (readUnsigned width rest).map fun r => (b.toNat + 256 * r.1, r.2)

def readBool : Bytes → Result Bool
  | [] => .error .endOfInput
  | b :: rest =>
    if b = 0 then .ok (false, rest)
    else if b = 1 then .ok (true, rest)
    else .error .invalidBoolean

/-- The first `n` bytes. -/
def take (n : Nat) (s : Bytes) : Result Bytes :=
  if n ≤ s.length then .ok (s.take n, s.drop n) else .error .endOfInput

def readBytes (s : Bytes) : Result Bytes :=
  match readUnsigned lengthWidth s with
  | .error e => .error e
  | .ok (n, rest) => take n rest

/-- Reads `n` elements. -/
def items {α : Type} (item : Bytes → Result α) : Nat → Bytes → Result (List α)
  | 0, s => .ok ([], s)
  | n + 1, s =>
    match item s with
    | .error e => .error e
    | .ok (a, rest) => (items item n rest).map fun r => (a :: r.1, r.2)

def readSequence {α : Type} (item : Bytes → Result α) (s : Bytes) : Result (List α) :=
  match readUnsigned lengthWidth s with
  | .error e => .error e
  | .ok (n, rest) => items item n rest

/-- Reads a value and pays no attention to what is behind it. -/
def document {α : Type} (value : Bytes → Result α) (s : Bytes) : Except Error α :=
  (value s).map (·.1)

end Bytewise.Binary
