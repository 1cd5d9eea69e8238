import ReversePolish.Binary64.Rounding

/-!
# Decimals

A decimal is a natural coefficient times a power of ten. A negative power of two is a power of five
times the same power of ten, so every finite binary64 magnitude is a decimal.
-/

namespace ReversePolish

attribute [local instance (high)] instPowNat

/-- The magnitude `coefficient * 10 ^ exponent`. -/
structure Decimal where
  coefficient : Nat
  exponent : Int
  deriving DecidableEq

namespace Decimal

/-- The magnitude as a ratio of naturals that counts binary64 units. -/
def unitRatio (d : Decimal) : Nat × Nat :=
  match d.exponent with
  | .ofNat e => (d.coefficient * 10 ^ e * 2 ^ (1074 : Nat), 1)
  | .negSucc e => (d.coefficient * 2 ^ (1074 : Nat), 10 ^ (e + 1))

def nearestRank (d : Decimal) : Nat :=
  Binary64.nearestRank d.unitRatio.1 d.unitRatio.2

def toBinary64 (negative : Bool) (d : Decimal) : Binary64 :=
  Binary64.ofRank negative d.nearestRank

/-- The same magnitude with a coefficient that ten does not divide, zero as `0 * 10 ^ 0`. -/
def trim (d : Decimal) : Decimal :=
  if d.coefficient = 0 then ⟨0, 0⟩
  else if d.coefficient % 10 = 0 then trim ⟨d.coefficient / 10, d.exponent + 1⟩
  else d
termination_by d.coefficient
decreasing_by omega

/-- The magnitude of a rank, exactly. Powers of two below one are made of fives and tens. -/
def ofRank (rank : Nat) : Decimal :=
  let scale := Binary64.scale rank
  if scale ≤ 1074 then ⟨Binary64.significand rank * 5 ^ (1074 - scale), (scale : Int) - 1074⟩
  else ⟨Binary64.significand rank * 2 ^ (scale - 1074), 0⟩

end Decimal

end ReversePolish
