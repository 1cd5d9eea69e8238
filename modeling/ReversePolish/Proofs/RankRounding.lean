import ReversePolish.Binary64.Rounding
import Mathlib.Algebra.Group.Nat.Defs

/-!
# Rounding to ranks

The rank nearest to a ratio depends on the value of the ratio only, and a magnitude that has a rank
rounds to it. Neither is bounded by the ranks of finite numbers.
-/

namespace ReversePolish

theorem roundHalfEven_mul_left {factor : Nat} (hfactor : 0 < factor) (num den : Nat) :
    roundHalfEven (factor * num) (factor * den) = roundHalfEven num den := by
  have hbelow : 2 * (factor * (num % den)) < factor * den ↔ 2 * (num % den) < den := by
    rw [Nat.mul_left_comm, Nat.mul_lt_mul_left hfactor]
  have habove : factor * den < 2 * (factor * (num % den)) ↔ den < 2 * (num % den) := by
    rw [Nat.mul_left_comm, Nat.mul_lt_mul_left hfactor]
  simp only [roundHalfEven, Nat.mul_div_mul_left _ _ hfactor, Nat.mul_mod_mul_left, hbelow, habove]

theorem roundHalfEven_mul_self {den : Nat} (hden : 0 < den) (number : Nat) :
    roundHalfEven (number * den) den = number := by
  simp [roundHalfEven, Nat.mul_div_cancel _ hden, hden]

namespace Binary64

theorem nearestRank_mul_left {factor : Nat} (hfactor : 0 < factor) (num den : Nat) :
    nearestRank (factor * num) (factor * den) = nearestRank num den := by
  simp only [nearestRank, Nat.mul_div_mul_left _ _ hfactor, Nat.mul_assoc,
    roundHalfEven_mul_left hfactor]

theorem nearestRank_congr {num den num' den' : Nat} (hden : 0 < den) (hden' : 0 < den')
    (h : num * den' = num' * den) : nearestRank num den = nearestRank num' den' := by
  calc
    nearestRank num den = nearestRank (den' * num) (den' * den) :=
      (nearestRank_mul_left hden' num den).symm
    _ = nearestRank (den * num') (den * den') := by
      rw [Nat.mul_comm den' num, h, Nat.mul_comm num' den, Nat.mul_comm den' den]
    _ = nearestRank num' den' := nearestRank_mul_left hden num' den'

/-- The significand of a rank from the second block on has 53 binary digits. -/
theorem significand_bounds {rank : Nat} (h : 2 ^ 52 ≤ rank) :
    2 ^ 52 ≤ significand rank ∧ significand rank < 2 ^ 53 := by
  have hmod : rank % 2 ^ 52 < 2 ^ 52 := Nat.mod_lt _ (by decide)
  rw [significand, if_neg (Nat.not_lt.2 h)]
  omega

theorem log2_unitsOfRank {rank : Nat} (h : 2 ^ 52 ≤ rank) :
    (unitsOfRank rank).log2 = 52 + scale rank := by
  obtain ⟨hlow, hhigh⟩ := significand_bounds h
  have hpos : 0 < 2 ^ scale rank := Nat.two_pow_pos _
  have hne : unitsOfRank rank ≠ 0 := Nat.mul_ne_zero (by omega) (by omega)
  rw [Nat.log2_eq_iff hne, Nat.pow_add, Nat.add_right_comm, Nat.pow_add]
  exact ⟨Nat.mul_le_mul_right _ hlow, Nat.mul_lt_mul_of_pos_right hhigh hpos⟩

/-- A magnitude that has a rank rounds to that rank. -/
theorem nearestRank_unitsOfRank (rank : Nat) : nearestRank (unitsOfRank rank) 1 = rank := by
  by_cases h : rank < 2 ^ 52
  · have hscale : scale rank = 0 := by
      rw [scale, Nat.div_eq_of_lt h]
    have hunits : unitsOfRank rank = rank := by
      rw [unitsOfRank, hscale, significand, if_pos h, Nat.pow_zero, Nat.mul_one]
    have hshift : rank.log2 - 52 = 0 := by
      by_cases hzero : rank = 0
      · subst hzero
        rfl
      · have hlog := (Nat.log2_lt hzero).2 h
        omega
    have hround := roundHalfEven_mul_self Nat.one_pos rank
    rw [Nat.mul_one] at hround
    rw [nearestRank, hunits, Nat.div_one, hshift]
    simpa using hround
  · have hle : 2 ^ 52 ≤ rank := Nat.not_lt.1 h
    have hdiv : 1 ≤ rank / 2 ^ 52 := Nat.div_pos hle (Nat.two_pow_pos 52)
    have hsplit : rank / 2 ^ 52 * 2 ^ 52 + rank % 2 ^ 52 = rank := Nat.div_add_mod' rank _
    have hround : roundHalfEven (unitsOfRank rank) (2 ^ scale rank) = significand rank :=
      roundHalfEven_mul_self (Nat.two_pow_pos _) _
    rw [nearestRank, Nat.div_one, log2_unitsOfRank hle, Nat.add_sub_cancel_left, Nat.one_mul,
      hround, significand, if_neg h, scale, ← Nat.add_assoc, ← Nat.succ_mul, Nat.succ_eq_add_one,
      Nat.sub_add_cancel hdiv]
    exact hsplit

end Binary64

end ReversePolish
