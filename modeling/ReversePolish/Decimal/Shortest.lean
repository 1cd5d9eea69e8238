import ReversePolish.Decimal.Basic

/-!
# The shortest decimal that reads back

For a growing number of leading digits, the exact decimal of a binary64 magnitude lies between two
neighbours with that many digits. The first count at which a neighbour rounds back to the magnitude
is the least possible. If both do, the nearer one is taken, and the larger from the exact middle.
-/

namespace ReversePolish.Decimal

attribute [local instance (high)] instPowNat

/-- The decimal next to `exact` with its last `dropped` digits cut that rounds back to `rank`, if
there is one. -/
def neighbour? (rank : Nat) (exact : Decimal) (dropped : Nat) : Option Decimal :=
  let step := 10 ^ dropped
  let below : Decimal := ⟨exact.coefficient / step, exact.exponent + dropped⟩
  let above : Decimal := ⟨exact.coefficient / step + 1, exact.exponent + dropped⟩
  if below.nearestRank = rank then
    if above.nearestRank = rank ∧ step ≤ 2 * (exact.coefficient % step) then some above
    else some below
  else if above.nearestRank = rank then some above
  else none

/-- The first neighbour that rounds back, keeping one digit more at each attempt. -/
def shortestFrom (rank : Nat) (exact : Decimal) : Nat → Decimal
  | 0 => exact
  | dropped + 1 => (neighbour? rank exact (dropped + 1)).getD (shortestFrom rank exact dropped)

/-- The decimal of fewest digits that rounds to the magnitude of a rank. -/
def shortest (rank : Nat) : Decimal :=
  let exact := ofRank rank
  (shortestFrom rank exact ((Nat.toDigits 10 exact.coefficient).length - 1)).trim

end ReversePolish.Decimal
