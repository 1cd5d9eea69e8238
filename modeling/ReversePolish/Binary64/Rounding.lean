import ReversePolish.Binary64.Basic

/-!
# Rounding a ratio to a binary64 number

An exact magnitude is given as a ratio of naturals that counts units. It is cut to the 53 leading
binary digits that the format keeps at its size, to the nearest and from a tie to the even
neighbour. A carry out of the leading digits lands on the first rank of the next block, so it
needs no case of its own.
-/

namespace ReversePolish

attribute [local instance (high)] instPowNat

/-- The natural number nearest to a ratio; of two equally near ones the even one. -/
def roundHalfEven (num den : Nat) : Nat :=
  let quotient := num / den
  let remainder := num % den
  if 2 * remainder < den then quotient
  else if den < 2 * remainder then quotient + 1
  else quotient + quotient % 2

namespace Binary64

/-- The rank of the magnitude nearest to `num / den` units, as if ranks went on for ever. -/
def nearestRank (num den : Nat) : Nat :=
  let shift := (num / den).log2 - 52
  shift * 2 ^ (52 : Nat) + roundHalfEven num (den * 2 ^ shift)

/-- The number of a sign and a rank; ranks past the last finite one are infinite. -/
def ofRank (negative : Bool) (rank : Nat) : Binary64 :=
  if h : rank < rankCount then .finite negative ⟨rank, h⟩ else .infinite negative

/-- The number nearest to `num / den` units with the given sign, a zero keeping that sign. -/
def ofRatio (negative : Bool) (num den : Nat) : Binary64 :=
  ofRank negative (nearestRank num den)

end Binary64

end ReversePolish
