/-
# Bytewise.Shared.Warning -- what arrays and strings warn about

An index that is out of range and memory that cannot be had are reported, not
raised: the operation does nothing and leaves a warning.
-/
namespace Bytewise.Shared

set_option autoImplicit false

/-- The array operation that was given an index out of range. -/
inductive ArrayAccess
  | at
  | find
  | setAt
  deriving DecidableEq, Repr

/-- The string operation that was given an index out of range. -/
inductive StringAccess
  | findLast
  | replaceRange
  | remove
  | mid
  deriving DecidableEq, Repr

inductive Warning
  | cellIndex (access : ArrayAccess) (index size : Nat)
  | byteIndex (access : StringAccess) (index length : Nat)
  /-- An array of a given size could not be made. -/
  | notMade (size : Nat)
  | notResized (size : Nat)
  /-- A view was given up with other memory than it was made from. -/
  | otherMemory (expected given : Nat)
  deriving DecidableEq, Repr

def ArrayAccess.name : ArrayAccess → String
  | .at => "ArrayData::at"
  | .find => "ArrayData::find"
  | .setAt => "SharedArray::set_at"

def StringAccess.name : StringAccess → String
  | .findLast => "SharedString::find_rev"
  | .replaceRange => "SharedString::replace_range"
  | .remove => "SharedString::remove"
  | .mid => "SharedString::mid"

/-- What is said when memory for `size` cells cannot be had. -/
def allocationMessage (size : Nat) : String :=
  "Failed to allocate " ++ toString size ++ " cells"

/-- What is said when a view is given up with other memory. -/
def otherMemoryMessage : String := "Raw data mismatch: reset with a different pointer or length"

/-- A warning as a line of a log, its level first. -/
def Warning.line : Warning → String
  | .cellIndex access index size =>
    "WARN " ++ access.name ++ ": index " ++ toString index ++ " out of range (size "
      ++ toString size ++ ")"
  | .byteIndex access index length =>
    "WARN " ++ access.name ++ ": index " ++ toString index ++ " out of range (len "
      ++ toString length ++ ")"
  | .notMade size => "WARN SharedArray::with_size: " ++ allocationMessage size
  | .notResized size => "WARN SharedArray::resize: " ++ allocationMessage size
  | .otherMemory expected given =>
    "WARN RawArray::reset_raw_data: expected PTR+" ++ toString expected ++ ", got PTR+"
      ++ toString given

end Bytewise.Shared
