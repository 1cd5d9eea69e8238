import ReversePolish.Binary64.Arithmetic
import ReversePolish.Decimal.Shortest
import ReversePolish.Proofs.RankRounding
import Mathlib.Algebra.Order.Field.Rat
import Mathlib.Tactic.FieldSimp
import Mathlib.Tactic.Ring

/-!
# The value of a decimal

A decimal denotes a rational number, and the rank nearest to it depends on that number only. The
shortest decimal of a magnitude has the rank that it is the shortest decimal of, and its digits
stay within a range of powers of ten.
-/

namespace ReversePolish.Decimal

open Binary64

def value (d : Decimal) : ℚ := d.coefficient * 10 ^ d.exponent

theorem unitRatio_den_pos (d : Decimal) : 0 < d.unitRatio.2 := by
  unfold unitRatio
  split
  · exact Nat.one_pos
  · exact Nat.pow_pos (by decide)

theorem unitRatio_value (d : Decimal) :
    (d.unitRatio.1 : ℚ) = d.value * unitsOfOne * d.unitRatio.2 := by
  have hunits : 2 ^ 1074 = unitsOfOne := by rw [unitsOfOne]
  obtain ⟨coefficient, exponent⟩ := d
  cases exponent with
  | ofNat e =>
    simp only [unitRatio, value, hunits, Int.ofNat_eq_natCast, zpow_natCast]
    push_cast
    ring
  | negSucc e =>
    have hpow : (10 : ℚ) ^ (e + 1) ≠ 0 := pow_ne_zero _ (by norm_num)
    simp only [unitRatio, value, hunits, zpow_negSucc]
    clear hunits
    generalize unitsOfOne = units
    push_cast
    field_simp

/-- The nearest rank of a decimal is that of any ratio with its value. -/
theorem nearestRank_eq {d : Decimal} {num den : Nat} (hden : 0 < den)
    (h : d.value * unitsOfOne * den = num) : d.nearestRank = Binary64.nearestRank num den := by
  apply Binary64.nearestRank_congr d.unitRatio_den_pos hden
  have hratio : (d.unitRatio.1 : ℚ) * den = num * d.unitRatio.2 := by
    rw [unitRatio_value, ← h]
    ring
  exact_mod_cast hratio

theorem nearestRank_congr {d d' : Decimal} (h : d.value = d'.value) :
    d.nearestRank = d'.nearestRank := by
  apply nearestRank_eq d'.unitRatio_den_pos
  rw [h, unitRatio_value]

theorem value_trim (d : Decimal) : d.trim.value = d.value := by
  fun_induction trim d with
  | case1 d hzero => simp [value, hzero]
  | case2 d hzero hten ih =>
    have hsplit : d.coefficient = 10 * (d.coefficient / 10) := by omega
    rw [ih, value, value, zpow_add₀ (by norm_num)]
    conv => rhs; rw [hsplit]
    push_cast
    ring
  | case3 => rfl

/-- The decimal of a rank is its magnitude exactly. -/
theorem value_ofRank (rank : Nat) : (ofRank rank).value * unitsOfOne = unitsOfRank rank := by
  unfold ofRank unitsOfRank
  dsimp only
  generalize scale rank = scale
  split
  · next h =>
    obtain ⟨fives, hfives⟩ := Nat.exists_eq_add_of_le h
    have hunits : unitsOfOne = 2 ^ scale * 2 ^ fives := by
      rw [← Nat.pow_add, ← hfives]
      rfl
    have hcount : 1074 - scale = fives := by omega
    have hexponent : (scale : ℤ) - 1074 = -(fives : ℤ) := by omega
    have hfive : (5 : ℚ) ^ fives ≠ 0 := pow_ne_zero _ (by norm_num)
    have htwo : (2 : ℚ) ^ fives ≠ 0 := pow_ne_zero _ (by norm_num)
    have hten : (10 : ℚ) ^ fives = 2 ^ fives * 5 ^ fives := by
      rw [← mul_pow]
      norm_num
    rw [value, hunits, hcount, hexponent, zpow_neg, zpow_natCast, hten]
    push_cast
    field_simp
  · next h =>
    obtain ⟨limit, hlimit, hunits⟩ : ∃ limit, limit = 1074 ∧ 2 ^ limit = unitsOfOne :=
      ⟨1074, rfl, by rw [unitsOfOne]⟩
    obtain ⟨twos, rfl⟩ : ∃ twos, scale = limit + twos := ⟨scale - limit, by omega⟩
    rw [value, ← hlimit, Nat.add_sub_cancel_left, Nat.pow_add, hunits, zpow_zero]
    push_cast
    ring

theorem nearestRank_ofRank (rank : Nat) : (ofRank rank).nearestRank = rank := by
  have hunits : (ofRank rank).value * unitsOfOne * (1 : Nat) = unitsOfRank rank := by
    rw [value_ofRank, Nat.cast_one, mul_one]
  exact (nearestRank_eq Nat.one_pos hunits).trans (nearestRank_unitsOfRank rank)

/-- A neighbour that is found has the rank looked for, and is the one below or the one above. -/
theorem neighbour?_eq_some {rank dropped : Nat} {exact d : Decimal}
    (h : neighbour? rank exact dropped = some d) :
    d.nearestRank = rank ∧ ∃ carry ≤ 1,
      d = ⟨exact.coefficient / 10 ^ dropped + carry, exact.exponent + dropped⟩ := by
  unfold neighbour? at h
  dsimp only at h
  split at h
  · next hbelow =>
    split at h
    · next habove =>
      obtain rfl := Option.some.inj h
      exact ⟨habove.1, 1, Nat.le_refl 1, rfl⟩
    · obtain rfl := Option.some.inj h
      exact ⟨hbelow, 0, Nat.zero_le 1, rfl⟩
  · split at h
    · next habove =>
      obtain rfl := Option.some.inj h
      exact ⟨habove, 1, Nat.le_refl 1, rfl⟩
    · simp at h

theorem nearestRank_shortestFrom {rank : Nat} {exact : Decimal} (h : exact.nearestRank = rank)
    (dropped : Nat) : (shortestFrom rank exact dropped).nearestRank = rank := by
  induction dropped with
  | zero => exact h
  | succ dropped ih =>
    rw [shortestFrom]
    cases hneighbour : neighbour? rank exact (dropped + 1) with
    | none => exact ih
    | some d => exact (neighbour?_eq_some hneighbour).1

/-- The shortest decimal of a magnitude rounds back to it. -/
theorem nearestRank_shortest (rank : Nat) : (shortest rank).nearestRank = rank := by
  rw [shortest, nearestRank_congr (value_trim _)]
  exact nearestRank_shortestFrom (nearestRank_ofRank rank) _

/-- The digits of a decimal stand for powers of ten from a lower bound on and below an upper one. -/
def Spans (d : Decimal) (low high : Int) : Prop :=
  low ≤ d.exponent ∧ d.exponent + (Nat.toDigits 10 d.coefficient).length ≤ high

theorem spans_of_lt {d : Decimal} {low high : Int} {count : Nat} (hlow : low ≤ d.exponent)
    (hpos : 0 < count) (hcount : d.coefficient < 10 ^ count) (hhigh : d.exponent + count ≤ high) :
    d.Spans low high := by
  have hlength := (Nat.length_toDigits_le_iff (by decide) hpos).2 hcount
  exact ⟨hlow, by omega⟩

theorem significand_lt (rank : Nat) : significand rank < 10 ^ 16 := by
  have hmod : rank % 2 ^ 52 < 2 ^ 52 := Nat.mod_lt _ (by decide)
  rw [significand]
  split <;> omega

theorem spans_ofRank {rank : Nat} (h : rank < rankCount) : (ofRank rank).Spans (-1074) 988 := by
  have hscale : scale rank ≤ 2045 := by
    have hdiv : rank / 2 ^ 52 < 2047 := Nat.div_lt_of_lt_mul (Nat.mul_comm 2047 _ ▸ h)
    simp only [scale]
    omega
  have hsignificand := significand_lt rank
  unfold ofRank
  dsimp only
  generalize scale rank = scale at hscale
  split
  · next hle =>
    have hfive : 5 ^ (1074 - scale) ≤ 10 ^ (1074 - scale) := Nat.pow_le_pow_left (by decide) _
    have hlt : significand rank * 5 ^ (1074 - scale) < 10 ^ (16 + (1074 - scale)) := by
      rw [Nat.pow_add]
      exact Nat.mul_lt_mul_of_lt_of_le hsignificand hfive (Nat.pow_pos (by decide))
    refine spans_of_lt ?_ (by omega) hlt ?_
    · show (-1074 : Int) ≤ (scale : Int) - 1074
      omega
    · show (scale : Int) - 1074 + ((16 + (1074 - scale) : Nat) : Int) ≤ 988
      omega
  · next hgt =>
    have htwo : 2 ^ (scale - 1074) ≤ 10 ^ (scale - 1074) := Nat.pow_le_pow_left (by decide) _
    have hlt : significand rank * 2 ^ (scale - 1074) < 10 ^ (16 + (scale - 1074)) := by
      rw [Nat.pow_add]
      exact Nat.mul_lt_mul_of_lt_of_le hsignificand htwo (Nat.pow_pos (by decide))
    refine spans_of_lt ?_ (by omega) hlt ?_
    · show (-1074 : Int) ≤ 0
      omega
    · show (0 : Int) + ((16 + (scale - 1074) : Nat) : Int) ≤ 988
      omega

namespace Spans

variable {d : Decimal} {low high : Int}

/-- Cutting digits and rounding up may bring one more power of ten. -/
theorem cut (h : d.Spans low high) {dropped carry : Nat} (hcarry : carry ≤ 1)
    (hdropped : dropped < (Nat.toDigits 10 d.coefficient).length) :
    Spans ⟨d.coefficient / 10 ^ dropped + carry, d.exponent + dropped⟩ low (high + 1) := by
  obtain ⟨hlow, hhigh⟩ := h
  obtain ⟨kept, hkept⟩ := Nat.exists_eq_add_of_lt hdropped
  have hlt : d.coefficient < 10 ^ (dropped + kept + 1) :=
    (Nat.length_toDigits_le_iff (by decide) (by omega)).1 (Nat.le_of_eq hkept)
  have hdiv : d.coefficient / 10 ^ dropped < 10 ^ (kept + 1) := by
    apply Nat.div_lt_of_lt_mul
    rwa [← Nat.pow_add]
  have hcut : d.coefficient / 10 ^ dropped + carry < 10 ^ (kept + 2) := by
    have hpos : 0 < 10 ^ (kept + 1) := Nat.pow_pos (by decide)
    rw [Nat.pow_succ 10 (kept + 1)]
    omega
  refine spans_of_lt ?_ (by omega) hcut ?_
  · show low ≤ d.exponent + dropped
    omega
  · show d.exponent + dropped + ((kept + 2 : Nat) : Int) ≤ high + 1
    omega

theorem trim (h : d.Spans low high) (hlow : low ≤ 0) (hhigh : 1 ≤ high) :
    d.trim.Spans low high := by
  fun_induction Decimal.trim d with
  | case1 d hzero =>
    refine ⟨hlow, ?_⟩
    simpa using hhigh
  | case2 d hzero hten ih =>
    apply ih
    obtain ⟨hfrom, hto⟩ := h
    have hlt : d.coefficient < 10 ^ (Nat.toDigits 10 d.coefficient).length :=
      (Nat.length_toDigits_le_iff (by decide) Nat.length_toDigits_pos).1 (Nat.le_refl _)
    obtain ⟨count, hcount⟩ : ∃ count, (Nat.toDigits 10 d.coefficient).length = count + 2 := by
      have hmore : ¬(Nat.toDigits 10 d.coefficient).length ≤ 1 := by
        rw [Nat.length_toDigits_le_iff (by decide) Nat.one_pos]
        omega
      exact ⟨(Nat.toDigits 10 d.coefficient).length - 2, by omega⟩
    rw [hcount] at hlt hto
    have hcut : d.coefficient / 10 < 10 ^ (count + 1) := by
      rw [Nat.pow_succ 10 (count + 1)] at hlt
      omega
    refine spans_of_lt ?_ (by omega) hcut ?_
    · show low ≤ d.exponent + 1
      omega
    · show d.exponent + 1 + ((count + 1 : Nat) : Int) ≤ high
      omega
  | case3 => exact h

theorem shortestFrom (h : d.Spans low high) (rank : Nat) {dropped : Nat}
    (hdropped : dropped < (Nat.toDigits 10 d.coefficient).length) :
    (Decimal.shortestFrom rank d dropped).Spans low (high + 1) := by
  induction dropped with
  | zero => exact ⟨h.1, Int.le_trans h.2 (by omega)⟩
  | succ dropped ih =>
    rw [Decimal.shortestFrom]
    cases hneighbour : neighbour? rank d (dropped + 1) with
    | none => exact ih (by omega)
    | some found =>
      obtain ⟨-, carry, hcarry, rfl⟩ := neighbour?_eq_some hneighbour
      exact h.cut hcarry hdropped

end Spans

/-- The digits of a shortest decimal stand for powers of ten that the format can have. -/
theorem spans_shortest {rank : Nat} (h : rank < rankCount) :
    (shortest rank).Spans (-1074) 989 := by
  have hlength : 0 < (Nat.toDigits 10 (ofRank rank).coefficient).length := Nat.length_toDigits_pos
  exact ((spans_ofRank h).shortestFrom rank (by omega)).trim (by decide) (by decide)

end ReversePolish.Decimal
