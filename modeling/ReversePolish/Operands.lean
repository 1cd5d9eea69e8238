import ReversePolish.Binary64.Arithmetic
import ReversePolish.Rejection
import ReversePolish.Token

/-!
# Operands

The values that an expression has produced and not yet used, the latest on top. An operator takes
its first operand from the top and its second from below it.
-/

namespace ReversePolish

/-- A stack of values, the top first. -/
structure Operands where
  values : List Binary64 := []
  deriving DecidableEq

namespace Operands

def push (operands : Operands) (value : Binary64) : Operands := ⟨value :: operands.values⟩

def pop (operands : Operands) : Except Rejection (Binary64 × Operands) :=
  match operands.values with
  | [] => .error .tooFewOperands
  | value :: values => .ok (value, ⟨values⟩)

def clear (_ : Operands) : Operands := ⟨[]⟩

def size (operands : Operands) : Nat := operands.values.length

def isEmpty (operands : Operands) : Bool := operands.values.isEmpty

def negate (operands : Operands) : Except Rejection Operands := do
  let (value, below) ← operands.pop
  return below.push (-value)

def apply (operands : Operands) (operator : Operator) : Except Rejection Operands := do
  let (first, below) ← operands.pop
  let (second, below) ← below.pop
  return below.push <| match operator with
    | .add => first + second
    | .subtract => first - second
    | .multiply => first * second
    | .divide => first / second

/-- The single value left at the end of an expression, taken from the stack. -/
def result (operands : Operands) : Except Rejection (Binary64 × Operands) := do
  let (value, below) ← operands.pop
  if below.isEmpty then return (value, below)
  else throw (.tooManyOperands operands.size)

@[simp] theorem pop_push (operands : Operands) (value : Binary64) :
    (operands.push value).pop = .ok (value, operands) := rfl

@[simp] theorem size_push (operands : Operands) (value : Binary64) :
    (operands.push value).size = operands.size + 1 := rfl

end Operands

end ReversePolish
