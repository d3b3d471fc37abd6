/-
# Bytewise.Interchange.Mismatch -- values of another kind than expected

Reading a value fails with a `Mismatch` when the text is well formed but holds
something else: another type of value (`Found` says which), an integer out of
range, a field that is missing or stands twice, or too few elements.
-/
import Bytewise.Text.Double
import Bytewise.Text.Quoted

namespace Bytewise.Interchange

set_option autoImplicit false

inductive Found
  | integer (n : Int)
  | float (x : Text.Double)
  | boolean (b : Bool)
  | text (s : String)
  | null
  | unit
  | sequence
  | map
  deriving DecidableEq, Repr

inductive Mismatch
  | type (found : Found) (expected : String)
  | value (found : Found) (expected : String)
  | missingField (name : String)
  | duplicateField (name : String)
  | tooShort (length : Nat) (expected : String)
  deriving DecidableEq, Repr

def Found.describe : Found → String
  | .integer n => "integer `" ++ toString n ++ "`"
  | .float x => "floating point `" ++ String.ofList (Text.Quoted.asciiText x.text) ++ "`"
  | .boolean b => "boolean `" ++ toString b ++ "`"
  | .text s => "string " ++ Text.Quoted.quote s
  | .null => "null"
  | .unit => "unit value"
  | .sequence => "sequence"
  | .map => "map"

def Mismatch.message : Mismatch → String
  | .type found expected => "invalid type: " ++ found.describe ++ ", expected " ++ expected
  | .value found expected => "invalid value: " ++ found.describe ++ ", expected " ++ expected
  | .missingField name => "missing field `" ++ name ++ "`"
  | .duplicateField name => "duplicate field `" ++ name ++ "`"
  | .tooShort length expected =>
    "invalid length " ++ toString length ++ ", expected " ++ expected

end Bytewise.Interchange
