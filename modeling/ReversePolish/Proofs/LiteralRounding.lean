import ReversePolish.Proofs.LiteralGrammar
import ReversePolish.Proofs.NearestMagnitude

/-!
# Literals rounded

What rounding has to give is said about rational numbers: the nearest finite number, of two the one
with an even significand, and an infinity from the middle on between the largest finite number and
the next power of two. A numeral of any length is read as the result for the number it denotes.
-/

namespace ReversePolish

namespace Binary64

attribute [local instance (high)] instPowNat

/-- The rational number of a rank, whether it is that of a finite number or not. -/
def magnitude (rank : ℕ) : ℚ := unitsOfRank rank / unitsOfOne

def withSign (negative : Bool) (q : ℚ) : ℚ := if negative then -q else q

/-- The rational number of a sign and a rank. Both zeros have the same. -/
def rational (negative : Bool) (rank : ℕ) : ℚ := withSign negative (magnitude rank)

/-- The result of rounding, its sign being given for the sake of zeros. -/
inductive RoundsTo (q : ℚ) (negative : Bool) : Binary64 → Prop
  | finite (rank : Fin rankCount) (below : |q| < 2 ^ 1024 - 2 ^ 970)
      (nearest : ∀ (otherNegative : Bool) (other : Fin rankCount),
        |q - rational negative rank| ≤ |q - rational otherNegative other|)
      (even : ∀ (otherNegative : Bool) (other : Fin rankCount),
        rational otherNegative other ≠ rational negative rank →
          |q - rational otherNegative other| = |q - rational negative rank| →
            Even (significand rank)) :
      RoundsTo q negative (.finite negative rank)
  | infinite (beyond : 2 ^ 1024 - 2 ^ 970 ≤ |q|) : RoundsTo q negative (.infinite negative)

theorem exists_unitsOfOne : ∃ count, count = 1074 ∧ 2 ^ count = unitsOfOne :=
  ⟨1074, rfl, by rw [unitsOfOne]⟩

theorem unitsOfOne_pos : 0 < unitsOfOne := by
  obtain ⟨count, -, hunits⟩ := exists_unitsOfOne
  rw [← hunits]
  exact Nat.two_pow_pos count

@[simp] theorem magnitude_zero : magnitude 0 = 0 := by
  rw [magnitude, unitsOfRank, significand, if_pos (Nat.two_pow_pos 52), Nat.zero_mul,
    Nat.cast_zero, zero_div]

theorem strictMono_magnitude : StrictMono magnitude := by
  intro a b hab
  have hpos : (0 : ℚ) < unitsOfOne := Nat.cast_pos.2 unitsOfOne_pos
  exact div_lt_div_of_pos_right (Nat.cast_lt.2 (strictMono_unitsOfRank hab)) hpos

theorem magnitude_nonneg (rank : ℕ) : 0 ≤ magnitude rank := by
  rw [← magnitude_zero]
  exact strictMono_magnitude.monotone (Nat.zero_le rank)

@[simp] theorem abs_withSign (negative : Bool) (q : ℚ) : |withSign negative q| = |q| := by
  cases negative
  · rfl
  · exact abs_neg q

theorem abs_sub_rational (q : ℚ) (negative : Bool) (rank : ℕ) :
    |q - rational negative rank| = |withSign negative q - magnitude rank| := by
  cases negative
  · rfl
  · have hneg : -q - magnitude rank = -(q - -magnitude rank) := by ring
    exact (hneg ▸ abs_neg _).symm

theorem withSign_withSign (negative : Bool) (q : ℚ) :
    withSign negative (withSign negative q) = q := by
  cases negative
  · rfl
  · exact neg_neg q

theorem rational_injective (negative : Bool) : Function.Injective (rational negative) := by
  intro a b h
  have hmagnitude := congrArg (withSign negative) h
  rw [rational, rational, withSign_withSign, withSign_withSign] at hmagnitude
  exact strictMono_magnitude.injective hmagnitude

theorem abs_sub_magnitude_le {q : ℚ} (hq : 0 ≤ q) (negative otherNegative : Bool) (other : ℕ) :
    |q - magnitude other| ≤ |withSign negative q - rational otherNegative other| := by
  have habs := abs_abs_sub_abs_le (withSign negative q) (rational otherNegative other)
  rwa [rational, abs_withSign, abs_withSign, abs_of_nonneg hq,
    abs_of_nonneg (magnitude_nonneg other)] at habs

theorem abs_sub_rational_self (q : ℚ) (negative : Bool) (rank : ℕ) :
    |withSign negative q - rational negative rank| = |q - magnitude rank| := by
  rw [abs_sub_rational, withSign_withSign]

theorem magnitude_eq_zero_of_sign {q : ℚ} (hq : 0 ≤ q) {rank other : ℕ}
    (h : NearestEven magnitude q rank) {negative otherNegative : Bool}
    (hsign : otherNegative ≠ negative)
    (heq : |withSign negative q - rational otherNegative other| = |q - magnitude rank|) :
    magnitude other = 0 := by
  have hother := magnitude_nonneg other
  have hneg : withSign otherNegative (withSign negative q) = -q := by
    revert hsign
    cases otherNegative <;> cases negative <;> simp [withSign]
  have hsum : |-q - magnitude other| = q + magnitude other := by
    rw [← neg_add', abs_neg, abs_of_nonneg (add_nonneg hq hother)]
  rw [abs_sub_rational, hneg, hsum] at heq
  have hzero := h.nearest 0
  rw [magnitude_zero, sub_zero, abs_of_nonneg hq] at hzero
  linarith

theorem roundsTo_ofRank {q : ℚ} (hq : 0 ≤ q) {rank : ℕ} (h : NearestEven magnitude q rank)
    (hfinite : rank < rankCount ↔ q < 2 ^ 1024 - 2 ^ 970) (negative : Bool) :
    RoundsTo (withSign negative q) negative (ofRank negative rank) := by
  have habs : |withSign negative q| = q := by rw [abs_withSign, abs_of_nonneg hq]
  rw [ofRank]
  split
  · next hlt =>
    refine .finite ⟨rank, hlt⟩ (habs.symm ▸ hfinite.1 hlt) ?_ ?_
    · intro otherNegative other
      rw [abs_sub_rational_self]
      exact (h.nearest other).trans (abs_sub_magnitude_le hq negative otherNegative other)
    · intro otherNegative other hne heq
      rw [abs_sub_rational_self] at heq
      rw [even_significand_iff]
      have hle := abs_sub_magnitude_le hq negative otherNegative other
      refine h.even other ?_ (le_antisymm (hle.trans_eq heq) (h.nearest other))
      intro hrank
      apply hne
      dsimp only [rational]
      rw [← hrank]
      by_cases hsign : otherNegative = negative
      · rw [hsign]
      · rw [magnitude_eq_zero_of_sign hq h hsign heq]
        simp [withSign]
  · next hge => exact .infinite (habs.symm ▸ not_lt.1 (mt hfinite.2 hge))

/-- Between two equally near places there is a nearer one. -/
theorem abs_sub_lt_of_between {place : ℕ → ℚ} (hplace : StrictMono place) {q : ℚ} {a b c : ℕ}
    (hab : a < b) (hbc : b < c) (heq : |q - place a| = |q - place c|) :
    |q - place b| < |q - place a| := by
  have hlow := hplace hab
  have hhigh := hplace hbc
  rcases abs_eq_abs.1 heq with hsame | hmiddle
  · linarith
  · have hpos : 0 < q - place a := by linarith
    rw [abs_of_pos hpos, abs_lt]
    constructor <;> linarith

theorem RoundsTo.rank_not_lt {q : ℚ} {negative : Bool} {a b : Fin rankCount}
    (ha : RoundsTo q negative (.finite negative a))
    (hb : RoundsTo q negative (.finite negative b)) : ¬(a : ℕ) < b := by
  intro hlt
  cases ha with
  | finite _ _ hnearestA hevenA =>
    cases hb with
    | finite _ _ hnearestB hevenB =>
      have heq := le_antisymm (hnearestA negative b) (hnearestB negative a)
      have hne : rational negative a ≠ rational negative b :=
        fun h => absurd (rational_injective negative h) (Nat.ne_of_lt hlt)
      have hparityA := (even_significand_iff _).1 (hevenA negative b hne.symm heq.symm)
      have hparityB := (even_significand_iff _).1 (hevenB negative a hne heq)
      rcases Nat.lt_or_ge (a + 1) b with hbetween | hnext
      · rw [abs_sub_rational, abs_sub_rational] at heq
        have hnearer := abs_sub_lt_of_between strictMono_magnitude (Nat.lt_succ_self a)
          hbetween heq
        have hbest := hnearestA negative ⟨a + 1, hbetween.trans b.isLt⟩
        rw [abs_sub_rational, abs_sub_rational] at hbest
        exact absurd hbest (not_le.2 hnearer)
      · have hsucc : (b : ℕ) = a + 1 := by omega
        rw [hsucc, Nat.even_add_one] at hparityB
        exact hparityB hparityA

/-- Rounding has one result. -/
theorem RoundsTo.unique {q : ℚ} {negative : Bool} {value value' : Binary64}
    (h : RoundsTo q negative value) (h' : RoundsTo q negative value') : value = value' := by
  have hfinite := h
  have hfinite' := h'
  cases h with
  | finite rank below =>
    cases h' with
    | finite rank' =>
      have hrank : rank = rank' := Fin.ext (Nat.le_antisymm
        (Nat.not_lt.1 (hfinite'.rank_not_lt hfinite)) (Nat.not_lt.1 (hfinite.rank_not_lt hfinite')))
      rw [hrank]
    | infinite beyond => exact absurd beyond (not_le.2 below)
  | infinite beyond =>
    cases h' with
    | finite rank' below => exact absurd beyond (not_le.2 below)
    | infinite => rfl

end Binary64

namespace Decimal

open Binary64

attribute [local instance (high)] instPowNat

theorem value_nonneg (d : Decimal) : 0 ≤ d.value :=
  mul_nonneg (Nat.cast_nonneg _) (zpow_nonneg (by norm_num) _)

theorem unitRatio_div (d : Decimal) :
    (d.unitRatio.1 / d.unitRatio.2 : ℚ) = d.value * unitsOfOne := by
  have hden : (d.unitRatio.2 : ℚ) ≠ 0 :=
    Nat.cast_ne_zero.2 (Nat.pos_iff_ne_zero.1 d.unitRatio_den_pos)
  rw [unitRatio_value, mul_div_assoc, div_self hden, mul_one]

/-- The middle between the largest finite magnitude and the next power of two, in units. -/
theorem overflow_units :
    ((2 : ℚ) ^ 54 - 1) * 2 ^ 2044 = (2 ^ 1024 - 2 ^ 970) * unitsOfOne := by
  obtain ⟨count, hcount, hunits⟩ := exists_unitsOfOne
  have hstep : (2 : ℚ) ^ 2044 = 2 ^ 970 * 2 ^ count := by rw [hcount, ← pow_add]
  have hpower : (2 : ℚ) ^ 1024 = 2 ^ 54 * 2 ^ 970 := by rw [← pow_add]
  have hcast : (unitsOfOne : ℚ) = 2 ^ count := by
    rw [← hunits]
    push_cast
    rfl
  rw [hcast, hstep, hpower]
  generalize (2 : ℚ) ^ 970 = step
  ring

/-- The rank nearest to a decimal is the one of the nearest magnitude, ties to even. -/
theorem nearestRank_nearest (d : Decimal) : NearestEven magnitude d.value d.nearestRank := by
  have hunits : (0 : ℚ) < unitsOfOne := Nat.cast_pos.2 unitsOfOne_pos
  have hnearest := (Binary64.nearestRank_nearest d.unitRatio.1 d.unitRatio_den_pos).mul
    (inv_pos.2 hunits)
  rwa [unitRatio_div, mul_assoc, mul_inv_cancel₀ (ne_of_gt hunits), mul_one] at hnearest

/-- A decimal with a sign is rounded. -/
theorem toBinary64_rounds (d : Decimal) (negative : Bool) :
    RoundsTo (withSign negative d.value) negative (d.toBinary64 negative) := by
  have hunits : (0 : ℚ) < unitsOfOne := Nat.cast_pos.2 unitsOfOne_pos
  have hfinite := nearestRank_lt_rankCount_iff d.unitRatio.1 d.unitRatio_den_pos
  rw [unitRatio_div, overflow_units, mul_lt_mul_iff_left₀ hunits] at hfinite
  exact roundsTo_ofRank d.value_nonneg d.nearestRank_nearest hfinite negative

theorem toBinary64_eq_zero {d : Decimal} (h : d.value ≤ 2 ^ (-1075 : ℤ)) (negative : Bool) :
    d.toBinary64 negative = .zero negative := by
  have hhalf : (2 : ℚ) ^ (-1075 : ℤ) * unitsOfOne = 1 / 2 := by
    obtain ⟨count, hcount, hunits⟩ := exists_unitsOfOne
    have hexponent : (-1075 : ℤ) = -((count + 1 : ℕ) : ℤ) := by omega
    rw [← hunits, hexponent, zpow_neg, zpow_natCast, pow_succ]
    push_cast
    field_simp
  have hsmall : (d.unitRatio.1 / d.unitRatio.2 : ℚ) ≤ 1 / 2 := by
    rw [unitRatio_div, ← hhalf]
    exact mul_le_mul_of_nonneg_right h (Nat.cast_nonneg _)
  have hrank : d.nearestRank = 0 := nearestRank_eq_zero d.unitRatio_den_pos hsmall
  rw [toBinary64, hrank]
  exact dif_pos (by decide)

end Decimal

namespace Literal

def Numeral.value (numeral : Numeral) : ℚ := (numeral.scaled numeral.exponentValue).value

theorem Numeral.value_nonneg (numeral : Numeral) : 0 ≤ numeral.value :=
  (numeral.scaled numeral.exponentValue).value_nonneg

end Literal

open Binary64 Literal

/-- A numeral with a sign is read as the only result of rounding the number it denotes. Up to half
of the least magnitude that is a zero with the sign in front of it. -/
theorem numberValue_rounds (sign : Sign) (numeral : Numeral)
    (h : numeral.exponentValue.natAbs < 65536) :
    let q := withSign sign.isMinus numeral.value
    ∃ value, numberValue (String.ofList (sign.chars ++ numeral.chars)) = .ok value ∧
      (∀ other, RoundsTo q sign.isMinus other ↔ other = value) ∧
      (|q| ≤ 2 ^ (-1075 : ℤ) → value = .zero sign.isMinus) := by
  have hread := read?_numeral sign numeral (Numeral.exponent?_scaling h)
  have hrounds := (numeral.scaled numeral.exponentValue).toBinary64_rounds sign.isMinus
  refine ⟨_, ?_, fun other => ⟨fun h => h.unique hrounds, fun h => h ▸ hrounds⟩, fun hsmall => ?_⟩
  · rw [numberValue, hread]
  · rw [abs_withSign, abs_of_nonneg numeral.value_nonneg] at hsmall
    exact Decimal.toBinary64_eq_zero hsmall sign.isMinus

/-- Less than half of the least magnitude. -/
theorem numberValue_of_less_than_half :
    numberValue "-2e-324" = .ok (.zero true) ∧
      RoundsTo (-(2 * 10 ^ (-324 : ℤ))) true (.zero true) := by
  let numeral : Numeral :=
    { whole := ['2']
      exponent := some ⟨'e', .minus, ['3', '2', '4'], by decide,
        List.all_eq_true.1 (by decide), by decide⟩
      isDigit_whole := List.all_eq_true.1 (by decide)
      isDigit_fraction := List.forall_mem_nil _
      ne_nil := by decide }
  have hvalue : numeral.value = 2 * 10 ^ (-324 : ℤ) := by
    have hscaled : numeral.scaled numeral.exponentValue = ⟨2, -324⟩ := by decide
    rw [Numeral.value, hscaled, Decimal.value]
    rfl
  have hsmall : |withSign true numeral.value| ≤ 2 ^ (-1075 : ℤ) := by
    have hpowers : 2 * 2 ^ 1075 ≤ 10 ^ 324 := by decide +kernel
    have hten : (0 : ℚ) < 10 ^ 324 := by positivity
    have htwo : (0 : ℚ) < 2 ^ 1075 := by positivity
    rw [abs_withSign, abs_of_nonneg numeral.value_nonneg, hvalue, zpow_neg, zpow_neg,
      zpow_ofNat, zpow_ofNat, ← div_eq_mul_inv, ← one_div, div_le_div_iff₀ hten htwo, one_mul]
    exact_mod_cast hpowers
  obtain ⟨value, hread, hrounds, hzero⟩ := numberValue_rounds .minus numeral (by decide)
  obtain rfl := hzero hsmall
  refine ⟨hread, ?_⟩
  rw [← hvalue]
  exact (hrounds _).2 rfl

/-- A tie between two numbers, broken by a digit far behind. -/
example : numberValue "9007199254740993" = .ok (.ofBits 0x4340000000000000) ∧
    numberValue "9007199254740993.00000000000000000001" = .ok (.ofBits 0x4340000000000001) := by
  decide +kernel

end ReversePolish
