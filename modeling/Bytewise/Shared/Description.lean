/-
# Bytewise.Shared.Description -- arrays and views on one line

Cells are listed between brackets, with a comma and a space between two of them.
A view also says that it points somewhere; where is not shown.
-/
import Bytewise.Shared.Arrays

namespace Bytewise.Shared

set_option autoImplicit false

variable {α : Type} [Cell α]

/-- The cells of an array. -/
def describeCells (cells : List α) : String :=
  "[" ++ String.intercalate ", " (cells.map fun c => toString (Cell.toInt c)) ++ "]"

/-- The cells of a view. -/
def describeView (cells : List α) : String :=
  "RawArray \x7b ptr: PTR, data: " ++ describeCells cells ++ " \x7d"

end Bytewise.Shared
