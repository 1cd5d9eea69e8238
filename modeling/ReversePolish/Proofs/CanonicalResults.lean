import ReversePolish.Proofs.FewestDigits

/-!
# Results in canonical form

Which form a result has depends on its magnitude alone. The form is chosen by the digits that the
magnitude is written with, and these agree with the magnitude about the two bounds, since both
bounds are written with one digit. They agree about whole numbers too.
-/

namespace ReversePolish

attribute [local instance (high)] instPowNat

open Binary64 Literal

/-- Zero, and the magnitudes from the one nearest to `1e-6` on and below that nearest to `1e16`. -/
def Binary64.Moderate (rank : ℕ) : Prop :=
  rank = 0 ∨ magnitude (Decimal.nearestRank ⟨1, -6⟩) ≤ magnitude rank ∧
    magnitude rank < magnitude (Decimal.nearestRank ⟨1, 16⟩)

namespace Decimal

variable {d : Decimal} {rank : ℕ} {e : ℤ}

theorem pow_digitCount_le (hne : d.coefficient ≠ 0) :
    10 ^ (d.digitCount - 1) ≤ d.coefficient :=
  pow_le_coefficient hne (Nat.sub_add_cancel d.digitCount_pos).symm

theorem lt_pow_digitCount (d : Decimal) : d.coefficient < 10 ^ d.digitCount :=
  (digitCount_le_iff d.digitCount_pos).1 (le_refl _)

theorem le_lead_iff (hne : d.coefficient ≠ 0) : e ≤ d.lead ↔ (10 : ℚ) ^ e ≤ d.value := by
  have hlead : d.lead = ((d.digitCount - 1 : ℕ) : ℤ) + d.exponent := by
    have hpos := d.digitCount_pos
    rw [lead]
    omega
  have hten : (0 : ℚ) < 10 := by norm_num
  have hscale : (0 : ℚ) < 10 ^ d.exponent := zpow_pos hten _
  constructor
  · intro hle
    have hdigits : ((10 : ℚ) ^ (d.digitCount - 1)) ≤ d.coefficient := by
      exact_mod_cast pow_digitCount_le hne
    calc
      (10 : ℚ) ^ e ≤ 10 ^ d.lead := zpow_le_zpow_right₀ (by norm_num) hle
      _ = 10 ^ (d.digitCount - 1) * 10 ^ d.exponent := by
        rw [hlead, zpow_add₀ hten.ne', zpow_natCast]
      _ ≤ d.value := mul_le_mul_of_nonneg_right hdigits hscale.le
  · intro hle
    have hdigits : (d.coefficient : ℚ) < 10 ^ d.digitCount := by
      exact_mod_cast d.lt_pow_digitCount
    have hlt : (10 : ℚ) ^ e < 10 ^ (d.lead + 1) := by
      calc
        (10 : ℚ) ^ e ≤ d.value := hle
        _ < 10 ^ d.digitCount * 10 ^ d.exponent := mul_lt_mul_of_pos_right hdigits hscale
        _ = 10 ^ (d.lead + 1) := by
          rw [← zpow_natCast, ← zpow_add₀ hten.ne', lead]
          congr 1
          omega
    exact Int.lt_add_one_iff.1 ((zpow_lt_zpow_iff_right₀ (by norm_num)).1 hlt)

/-- A power of ten that is its own shortest decimal separates the magnitudes as it separates their
shortest decimals. -/
theorem le_lead_shortest_iff (hrank : rank ≠ 0)
    (hpower : shortest (nearestRank ⟨1, e⟩) = ⟨1, e⟩) :
    e ≤ (shortest rank).lead ↔ magnitude (nearestRank ⟨1, e⟩) ≤ magnitude rank := by
  have hshortest := nearestRank_shortest rank
  have hvalue : value ⟨1, e⟩ = 10 ^ e := by rw [value, Nat.cast_one, one_mul]
  rw [le_lead_iff (coefficient_ne_zero (hshortest.trans_ne hrank)),
    strictMono_magnitude.le_iff_le, ← hvalue]
  constructor
  · intro hle
    exact (nearestRank_mono hle).trans_eq hshortest
  · intro hle
    by_contra hlt
    have hrank' := (nearestRank_mono (not_le.1 hlt).le).antisymm (hle.trans_eq hshortest.symm)
    rw [← hshortest, hrank', hpower] at hlt
    exact hlt (le_refl _)

/-- The range of the positional form is that of the moderate magnitudes. -/
theorem lead_shortest_iff (rank : ℕ) :
    (-6 ≤ (shortest rank).lead ∧ (shortest rank).lead < 16) ↔ Moderate rank := by
  rcases Nat.eq_zero_or_pos rank with rfl | hpos
  · have hzero : -6 ≤ (shortest 0).lead ∧ (shortest 0).lead < 16 := by decide +kernel
    exact iff_of_true hzero (.inl rfl)
  · have hrank := Nat.ne_of_gt hpos
    have hlow : shortest (nearestRank ⟨1, -6⟩) = ⟨1, -6⟩ := by decide +kernel
    have hhigh : shortest (nearestRank ⟨1, 16⟩) = ⟨1, 16⟩ := by decide +kernel
    rw [Moderate, or_iff_right hrank, ← not_le, le_lead_shortest_iff hrank hlow,
      le_lead_shortest_iff hrank hhigh, not_le]

/-- Units that are a multiple of the distance between magnitudes at their size are not rounded. -/
theorem digitsOf_mul_of_dvd {units : ℕ} (h : 2 ^ shiftOf units 1 ∣ units) :
    digitsOf units 1 * 2 ^ shiftOf units 1 = units := by
  rw [digitsOf, Nat.one_mul]
  generalize shiftOf units 1 = shift at h ⊢
  obtain ⟨digits, rfl⟩ := h
  rw [Nat.mul_comm (2 ^ shift) digits, roundHalfEven_mul_self (Nat.two_pow_pos _)]

/-- A whole number is rounded to a whole one: at its size the magnitudes are multiples of a power of
two, and if that is not a whole number then the number is not rounded. -/
theorem magnitude_nearestRank_whole (n : ℕ) :
    ∃ m : ℕ, magnitude (nearestRank ⟨n, 0⟩) = m := by
  obtain ⟨count, hcount, hunits⟩ := exists_unitsOfOne
  have hone : (unitsOfOne : ℚ) ≠ 0 := Nat.cast_ne_zero.2 (Nat.pos_iff_ne_zero.1 unitsOfOne_pos)
  have hratio : nearestRank ⟨n, 0⟩ = Binary64.nearestRank (n * unitsOfOne) 1 := by
    apply nearestRank_eq Nat.one_pos
    rw [value, zpow_zero]
    push_cast
    ring
  have hwhole : unitsOfOne ∣ unitsOfRank (nearestRank ⟨n, 0⟩) := by
    rw [hratio, unitsOfRank_nearestRank]
    rcases Nat.le_total (shiftOf (n * unitsOfOne) 1) count with hle | hge
    · have hdvd : 2 ^ shiftOf (n * unitsOfOne) 1 ∣ n * unitsOfOne :=
        Nat.dvd_mul_left_of_dvd ((Nat.pow_dvd_pow 2 hle).trans (dvd_of_eq hunits)) n
      rw [digitsOf_mul_of_dvd hdvd]
      exact Nat.dvd_mul_left _ _
    · exact Nat.dvd_mul_left_of_dvd ((dvd_of_eq hunits.symm).trans (Nat.pow_dvd_pow 2 hge)) _
  obtain ⟨m, hm⟩ := hwhole
  refine ⟨m, ?_⟩
  rw [magnitude, hm, Nat.cast_mul, mul_div_cancel_left₀ _ hone]

theorem exponent_shortest_nonneg {n : ℕ} (hrank : rank ≠ 0) (hn : magnitude rank = n) :
    0 ≤ (shortest rank).exponent := by
  have hvalue : value ⟨n, 0⟩ = magnitude rank := by rw [value, zpow_zero, mul_one, hn]
  have hreads : nearestRank ⟨n, 0⟩ = rank := by
    rw [← nearestRank_ofRank rank]
    exact nearestRank_congr (hvalue.trans (value_ofRank_eq rank).symm)
  have hne : n ≠ 0 := coefficient_ne_zero (hreads.trans_ne hrank)
  have hshortest := nearestRank_shortest rank
  have hcount := digitCount_shortest_le hrank hreads (lt_pow_digitCount ⟨n, 0⟩)
  obtain ⟨power, hpower⟩ := Nat.exists_eq_add_one.2 (digitCount_pos ⟨n, 0⟩)
  by_contra hneg
  have hlead : ¬(power : ℤ) ≤ (shortest rank).lead := by
    rw [lead]
    omega
  rw [le_lead_iff (coefficient_ne_zero (hshortest.trans_ne hrank)), not_le] at hlead
  have hbelow : (10 : ℚ) ^ (power : ℤ) ≤ magnitude rank := by
    rw [hn, zpow_natCast]
    exact_mod_cast pow_le_coefficient (d := ⟨n, 0⟩) hne hpower
  have hone : value ⟨1, power⟩ = 10 ^ (power : ℤ) := by rw [value, Nat.cast_one, one_mul]
  have hbetween : nearestRank ⟨1, power⟩ = rank := by
    refine nearestRank_eq_of_between hshortest hreads ?_ ?_
    · exact hone ▸ hlead.le
    · exact (hone.trans_le hbelow).trans_eq hvalue.symm
  have hnearer := abs_sub_shortest_le hrank hbetween
    (Nat.one_lt_pow (Nat.ne_of_gt (digitCount_pos _)) (by decide))
  rw [hone, abs_of_nonneg (sub_nonneg.2 (hlead.le.trans hbelow)),
    abs_of_nonneg (sub_nonneg.2 hbelow)] at hnearer
  linarith

/-- Exactly the whole magnitudes have a whole shortest decimal. -/
theorem exponent_shortest_nonneg_iff (rank : ℕ) :
    0 ≤ (shortest rank).exponent ↔ ∃ n : ℕ, magnitude rank = n := by
  constructor
  · intro hexponent
    obtain ⟨shift, hshift⟩ := Int.eq_ofNat_of_zero_le hexponent
    have hwhole : (shortest rank).value =
        value ⟨(shortest rank).coefficient * 10 ^ shift, 0⟩ := by
      rw [value, value, hshift, zpow_zero, zpow_natCast]
      push_cast
      ring
    rw [← nearestRank_shortest rank, nearestRank_congr hwhole]
    exact magnitude_nearestRank_whole _
  · rintro ⟨n, hn⟩
    rcases Nat.eq_zero_or_pos rank with rfl | hpos
    · decide +kernel
    · exact exponent_shortest_nonneg (Nat.ne_of_gt hpos) hn

end Decimal

namespace Binary64

/-- The canonical text of a number. -/
inductive Canonical : Binary64 → List Char → Prop
  | nan : Canonical .nan "NaN".toList
  | infinite (negative : Bool) :
      Canonical (.infinite negative) ((Sign.ofNegative negative).chars ++ "Infinity".toList)
  | plain (negative : Bool) {rank : Fin rankCount} {numeral : Numeral} (moderate : Moderate rank)
      (form : numeral.IsPlain) (whole : numeral.fraction = none ↔ ∃ n : ℕ, magnitude rank = n) :
      Canonical (.finite negative rank) ((Sign.ofNegative negative).chars ++ numeral.chars)
  | scientific (negative : Bool) {rank : Fin rankCount} {numeral : Numeral}
      (extreme : ¬Moderate rank) (form : numeral.IsScientific) :
      Canonical (.finite negative rank) ((Sign.ofNegative negative).chars ++ numeral.chars)

theorem canonical_write_finite (negative : Bool) (rank : Fin rankCount) :
    Canonical (.finite negative rank) ((finite negative rank).write .result).toList := by
  obtain ⟨numeral, hwritten⟩ := Decimal.exists_writtenAs_shortest rank.isLt
  rw [write, String.toList_ofList, hwritten.chars, ← Sign.chars_ofNegative_append]
  by_cases hmoderate : Moderate rank
  · obtain ⟨hlow, hhigh⟩ := (Decimal.lead_shortest_iff rank).2 hmoderate
    obtain ⟨hplain, hwhole⟩ := hwritten.plain hlow hhigh
    exact .plain negative hmoderate hplain
      (hwhole.trans (Decimal.exponent_shortest_nonneg_iff rank))
  · have hbeyond := mt (Decimal.lead_shortest_iff rank).1 hmoderate
    exact .scientific negative hmoderate (hwritten.scientific hbeyond)

theorem Canonical.head_minus_iff {value : Binary64} {text : List Char} (h : Canonical value text) :
    text.head? = some '-' ↔ value.isNegative := by
  have hsigned : ∀ negative {unsigned : List Char}, unsigned.head? ≠ some '-' →
      (((Sign.ofNegative negative).chars ++ unsigned).head? = some '-' ↔ negative = true) := by
    intro negative unsigned hunsigned
    cases negative with
    | false => exact iff_of_false hunsigned (by decide)
    | true => exact iff_of_true rfl rfl
  have hnumeral : ∀ numeral : Numeral, numeral.chars.head? ≠ some '-' :=
    fun numeral hhead => (numeral.head_chars '-' hhead).1 rfl
  cases h with
  | nan => decide
  | infinite negative => exact hsigned negative (by decide)
  | plain negative => exact hsigned negative (hnumeral _)
  | scientific negative => exact hsigned negative (hnumeral _)

/-- Every number is written in canonical form, and with a minus exactly if its sign bit is set. -/
theorem write_canonical (value : Binary64) :
    Canonical value (value.write .result).toList ∧
      ((value.write .result).toList.head? = some '-' ↔ value.isNegative) := by
  have hcanonical : Canonical value (value.write .result).toList := by
    cases value with
    | nan => exact .nan
    | infinite negative =>
      rw [write, String.toList_ofList, ← Sign.chars_ofNegative_append]
      exact .infinite negative
    | finite negative rank => exact canonical_write_finite negative rank
  exact ⟨hcanonical, hcanonical.head_minus_iff⟩

/-- The numbers on both sides of the two bounds. -/
example : (ofBits 0x4341c37937e08000).write .result = "1e16" ∧
    (ofBits 0x4341c37937e07fff).write .result = "9999999999999998" ∧
    (ofBits 0xbeb0c6f7a0b5ed8d).write .result = "-0.000001" ∧
    (ofBits 0xbeb0c6f7a0b5ed8c).write .result = "-9.999999999999997e-7" := by
  decide +kernel

end Binary64

end ReversePolish
