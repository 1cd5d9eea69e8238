/-!
# Rejected expressions

Why an expression is refused, and the report that says so: the reason, the line it was found on and
a caret under the last character taken from that line.
-/

namespace ReversePolish

inductive Rejection where
  /-- A leading name is followed by a token that makes no sense there. -/
  | unexpected (token : String)
  /-- A character begins no token, or a number does not denote a value. -/
  | unreadable (token : String)
  /-- An operator or the end mark finds too few values. -/
  | tooFewOperands
  /-- The end mark finds more than one value. -/
  | tooManyOperands (count : Nat)
  deriving DecidableEq

namespace Rejection

def message : Rejection → String
  | unexpected token =>
    "Invalid expression: unexpected '" ++ token ++ "' after a leading variable"
  | unreadable token => "Bad token: '" ++ token ++ "'"
  | tooFewOperands => "Not enough operands"
  | tooManyOperands count =>
    "Too many operands: " ++ toString count ++ " values left on the stack"

def caret (position : Nat) : String :=
  String.ofList (List.replicate (position - 1) ' ' ++ ['^'])

/-- The lines of the report on a rejection at a position of a source line. -/
def report (rejection : Rejection) (source : String) (position : Nat) : List String :=
  [rejection.message, source, caret position]

end Rejection

end ReversePolish
