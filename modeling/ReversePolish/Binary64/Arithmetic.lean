import ReversePolish.Binary64.Rounding

/-!
# Binary64 arithmetic

Each operation takes the exact result of its finite operands and rounds it once. The remaining
cases are those of infinities, NaN and the signs of zeros.
-/

namespace ReversePolish.Binary64

attribute [local instance (high)] instPowNat

/-- The units of one, so that a product of two unit counts is `unitsOfOne` times too large. -/
def unitsOfOne : Nat := 2 ^ (1074 : Nat)

/-- A finite number as a signed count of units. The sign of a zero is lost. -/
def signedUnits (negative : Bool) (rank : Nat) : Int :=
  if negative then -(unitsOfRank rank : Int) else unitsOfRank rank

protected def neg : Binary64 → Binary64
  | nan => nan
  | infinite negative => infinite !negative
  | finite negative rank => finite (!negative) rank

/-- The sum. An exact zero is negative only when both zeros were. -/
protected def add : Binary64 → Binary64 → Binary64
  | nan, _ | _, nan => nan
  | infinite a, infinite b => if a = b then infinite a else nan
  | infinite a, finite .. => infinite a
  | finite .., infinite b => infinite b
  | finite a x, finite b y =>
    let sum := signedUnits a x + signedUnits b y
    if sum = 0 then zero (a && b) else ofRatio (sum < 0) sum.natAbs 1

protected def mul : Binary64 → Binary64 → Binary64
  | nan, _ | _, nan => nan
  | infinite a, infinite b => infinite (a != b)
  | infinite a, finite b y => if y.val = 0 then nan else infinite (a != b)
  | finite a x, infinite b => if x.val = 0 then nan else infinite (a != b)
  | finite a x, finite b y => ofRatio (a != b) (unitsOfRank x * unitsOfRank y) unitsOfOne

/-- The quotient. A zero divisor gives an infinity, or NaN under a zero. -/
protected def div : Binary64 → Binary64 → Binary64
  | nan, _ | _, nan => nan
  | infinite _, infinite _ => nan
  | infinite a, finite b _ => infinite (a != b)
  | finite a _, infinite b => zero (a != b)
  | finite a x, finite b y =>
    if y.val = 0 then if x.val = 0 then nan else infinite (a != b)
    else ofRatio (a != b) (unitsOfRank x * unitsOfOne) (unitsOfRank y)

instance : Neg Binary64 := ⟨Binary64.neg⟩
instance : Add Binary64 := ⟨Binary64.add⟩
instance : Sub Binary64 := ⟨fun a b => a + -b⟩
instance : Mul Binary64 := ⟨Binary64.mul⟩
instance : Div Binary64 := ⟨Binary64.div⟩

end ReversePolish.Binary64
