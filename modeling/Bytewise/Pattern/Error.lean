/-
# Bytewise.Pattern.Error -- why a pattern has no program

The five faults a pattern text can have (`Fault`) and the three ways its
compilation can fail (`Error`), each with its wording.
-/
namespace Bytewise.Pattern

set_option autoImplicit false

/-- A fault of the pattern text, found at the start of the token that has it. -/
inductive Fault
  | unterminatedBracket
  | trailingBackslash
  | quantifierAfterQuantifier
  | quantifierAfterAnchor
  | nothingToRepeat
  deriving DecidableEq, Repr

def Fault.reason : Fault → String
  | .unterminatedBracket => "unterminated '['"
  | .trailingBackslash => "pattern ends with '\\'"
  | .quantifierAfterQuantifier => "quantifier follows another quantifier"
  | .quantifierAfterAnchor => "quantifier follows an anchor"
  | .nothingToRepeat => "nothing to repeat"

inductive Error
  | empty
  | syntaxFault (pos : Nat) (fault : Fault)
  | overflow (limit : Nat)
  deriving DecidableEq, Repr

def Error.message : Error → String
  | .empty => "Empty pattern"
  | .syntaxFault pos fault => "Syntax error at " ++ toString pos ++ ": " ++ fault.reason
  | .overflow limit => "Pattern too large: more than " ++ toString limit ++ " cells"

end Bytewise.Pattern
