/-!
# Binary64 numbers

A finite number is a sign and a rank, the position of its magnitude among all finite magnitudes in
increasing order. Every magnitude is a natural multiple of `2 ^ (-1074)`; that multiple is its
number of units. There is one NaN.
-/

namespace ReversePolish

-- Powers are those of the core library, also where another one brings its own.
attribute [local instance (high)] instPowNat

namespace Binary64

/-- The number of finite magnitudes, which is also the rank that infinity would have. -/
def rankCount : Nat := 2047 * 2 ^ (52 : Nat)

/-- The leading binary digits of the magnitude with a given rank. Below `2 ^ 52` they are the rank
itself; above they have one digit more, which is always set. -/
def significand (rank : Nat) : Nat :=
  if rank < 2 ^ (52 : Nat) then rank else 2 ^ (52 : Nat) + rank % 2 ^ (52 : Nat)

/-- How often the distance between neighbours has doubled up to a given rank: not within the first
two blocks of `2 ^ 52` ranks, and once with each further one. -/
def scale (rank : Nat) : Nat := rank / 2 ^ (52 : Nat) - 1

/-- The units of the magnitude with a given rank. -/
def unitsOfRank (rank : Nat) : Nat := significand rank * 2 ^ scale rank

end Binary64

/-- A binary64 number, the NaNs taken together. -/
inductive Binary64 where
  | nan
  | infinite (negative : Bool)
  | finite (negative : Bool) (rank : Fin Binary64.rankCount)
  deriving DecidableEq

namespace Binary64

def zero (negative : Bool) : Binary64 := .finite negative ⟨0, by decide⟩

instance : Inhabited Binary64 := ⟨zero false⟩

/-- The sign bit; a NaN counts as unsigned. -/
def isNegative : Binary64 → Bool
  | nan => false
  | infinite negative | finite negative _ => negative

/-- The number of a bit pattern: the sign bit, then the rank in the lower 63 bits. -/
def ofBits (bits : UInt64) : Binary64 :=
  let negative := 2 ^ (63 : Nat) ≤ bits.toNat
  let magnitude := bits.toNat % 2 ^ (63 : Nat)
  if h : magnitude < rankCount then .finite negative ⟨magnitude, h⟩
  else if magnitude = rankCount then .infinite negative
  else .nan

/-- The bit pattern of a number; NaN has the quiet pattern without payload. -/
def toBits : Binary64 → UInt64
  | nan => .ofNat (rankCount + 2 ^ (51 : Nat))
  | infinite negative => .ofNat (negative.toNat * 2 ^ (63 : Nat) + rankCount)
  | finite negative rank => .ofNat (negative.toNat * 2 ^ (63 : Nat) + rank)

end Binary64

end ReversePolish
