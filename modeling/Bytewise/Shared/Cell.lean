/-
# Bytewise.Shared.Cell -- what arrays are made of

An array holds cells of any type that has a width and a cell to fill new room with
(`Storable`).  An array of `n` cells needs `n` times the width in bytes, and no
block of memory is larger than `maxBytes`, so `fits` says which lengths can be had.

Cells that are integers of fixed width are also written and read (`Cell`): as
integers, and as their bits.
-/
namespace Bytewise.Shared

set_option autoImplicit false

/-! ## Room for cells -/

class Storable (α : Type) where
  /-- Bytes that one cell takes. -/
  width : Nat
  /-- The cell that new room is filled with. -/
  zero : α

instance : Storable Float where
  width := 8
  zero := 0

/-- No block of memory is larger than this. -/
def maxBytes : Nat := 0x7fffffffffffffff

/-- Can an array of `length` cells be had? -/
def fits (α : Type) [Storable α] (length : Nat) : Prop := length * Storable.width α ≤ maxBytes

instance (α : Type) [Storable α] (length : Nat) : Decidable (fits α length) :=
  inferInstanceAs (Decidable (_ ≤ _))

theorem fits_of_le {α : Type} [Storable α] {length larger : Nat} (had : fits α larger)
    (le : length ≤ larger) : fits α length :=
  Nat.le_trans (Nat.mul_le_mul_right _ le) had

/-- The first `length` cells, followed by as many zero cells as are missing. -/
def resized {α : Type} [Storable α] (cells : List α) (length : Nat) : List α :=
  cells.take length ++ List.replicate (length - cells.length) Storable.zero

/-! ## Integers -/

/-- A cell that is an integer of fixed width. -/
class Cell (α : Type) extends Storable α where
  toInt : α → Int
  /-- The cell of an integer in range. -/
  ofInt? : Int → Option α
  /-- The bits of a cell, as a natural; a negative cell is in two's complement. -/
  toBits : α → Nat
  ofBits : Nat → α
  /-- What the type of the cell is called. -/
  typeName : String

namespace Cell

export Storable (width zero)

end Cell

/-- The bits of an unsigned integer below `bound`. -/
def unsigned? (bound : Nat) (n : Int) : Option Nat :=
  if 0 ≤ n ∧ n < bound then some n.toNat else none

instance : Cell UInt8 where
  width := 1
  zero := 0
  toInt n := n.toNat
  ofInt? n := (unsigned? 0x100 n).map UInt8.ofNat
  toBits n := n.toNat
  ofBits n := UInt8.ofNat n
  typeName := "u8"

instance : Cell UInt16 where
  width := 2
  zero := 0
  toInt n := n.toNat
  ofInt? n := (unsigned? 0x10000 n).map UInt16.ofNat
  toBits n := n.toNat
  ofBits n := UInt16.ofNat n
  typeName := "u16"

instance : Cell UInt32 where
  width := 4
  zero := 0
  toInt n := n.toNat
  ofInt? n := (unsigned? 0x100000000 n).map UInt32.ofNat
  toBits n := n.toNat
  ofBits n := UInt32.ofNat n
  typeName := "u32"

instance : Cell UInt64 where
  width := 8
  zero := 0
  toInt n := n.toNat
  ofInt? n := (unsigned? 0x10000000000000000 n).map UInt64.ofNat
  toBits n := n.toNat
  ofBits n := UInt64.ofNat n
  typeName := "u64"

instance : Cell Int16 where
  width := 2
  zero := 0
  toInt n := n.toInt
  ofInt? n := if -0x8000 ≤ n ∧ n < 0x8000 then some (Int16.ofInt n) else none
  toBits n := n.toUInt16.toNat
  ofBits n := (UInt16.ofNat n).toInt16
  typeName := "i16"

end Bytewise.Shared
