import Mathlib.Algebra.Order.Field.Basic
import Mathlib.Algebra.Order.Field.Rat
import Mathlib.Algebra.Order.Ring.Abs
import Mathlib.Algebra.Ring.Parity
import Mathlib.Data.Nat.Cast.Order.Field
import Mathlib.Order.Monotone.Basic
import Mathlib.Tactic.FieldSimp
import Mathlib.Tactic.Linarith
import Mathlib.Tactic.Positivity
import Mathlib.Tactic.Ring
import ReversePolish.Proofs.RankRounding

/-!
# The nearest magnitude

Magnitudes increase with their ranks, past those of finite numbers too. Rounding a ratio takes the
nearest of all of them, and from the middle between two the one of even rank. At the size of the
ratio the magnitudes are the multiples of a power of two; those further down are closer together,
but none of them is as near.
-/

namespace ReversePolish

attribute [local instance (high)] instPowNat

/-- Of the numbers in all places, the one in place `k` is nearest to `q`, and `k` is even where
another one is as near. -/
structure NearestEven (place : ℕ → ℚ) (q : ℚ) (k : ℕ) : Prop where
  nearest : ∀ other, |q - place k| ≤ |q - place other|
  even : ∀ other, other ≠ k → |q - place other| = |q - place k| → Even k

theorem NearestEven.mul {place : ℕ → ℚ} {q : ℚ} {k : ℕ} (h : NearestEven place q k) {width : ℚ}
    (hwidth : 0 < width) : NearestEven (fun i => place i * width) (q * width) k := by
  have hscaled : ∀ i, |q * width - place i * width| = |q - place i| * width := by
    intro i
    rw [← sub_mul, abs_mul, abs_of_pos hwidth]
  refine ⟨fun other => ?_, fun other hne heq => h.even other hne ?_⟩
  · rw [hscaled, hscaled]
    exact mul_le_mul_of_nonneg_right (h.nearest other) (le_of_lt hwidth)
  · rw [hscaled, hscaled] at heq
    exact mul_right_cancel₀ (ne_of_gt hwidth) heq

/-- What a quotient leaves of a ratio, compared with a half by its remainder. -/
structure Leaves (num den : ℕ) (part : ℚ) : Prop where
  ratio : (num / den : ℚ) = (num / den : ℕ) + part
  nonneg : 0 ≤ part
  lt_one : part < 1
  below : 2 * (num % den) < den ↔ part < 1 / 2
  above : den < 2 * (num % den) ↔ 1 / 2 < part

theorem leaves_mod (num : ℕ) {den : ℕ} (hden : 0 < den) :
    Leaves num den ((num % den : ℕ) / den) := by
  have hpos : (0 : ℚ) < den := by exact_mod_cast hden
  constructor
  case ratio =>
    have hsplit : ((den * (num / den) + num % den : ℕ) : ℚ) = num :=
      congrArg _ (Nat.div_add_mod num den)
    push_cast at hsplit
    rw [← hsplit]
    field_simp
  case nonneg => positivity
  case lt_one =>
    rw [div_lt_one hpos]
    exact_mod_cast Nat.mod_lt num hden
  case below =>
    rw [div_lt_div_iff₀ hpos two_pos, one_mul, mul_comm]
    exact_mod_cast Iff.rfl
  case above =>
    rw [div_lt_div_iff₀ two_pos hpos, one_mul, mul_comm]
    exact_mod_cast Iff.rfl

theorem roundHalfEven_within (num : ℕ) {den : ℕ} (hden : 0 < den) :
    |(num / den : ℚ) - roundHalfEven num den| ≤ 1 / 2 ∧
      (|(num / den : ℚ) - roundHalfEven num den| = 1 / 2 → Even (roundHalfEven num den)) := by
  obtain ⟨part, hratio, hnonneg, hlt, hbelow, habove⟩ : ∃ part, Leaves num den part :=
    ⟨_, leaves_mod num hden⟩
  simp only [roundHalfEven, hratio, hbelow, habove]
  generalize num / den = quotient
  split
  · next h =>
    rw [add_sub_cancel_left, abs_of_nonneg hnonneg]
    exact ⟨le_of_lt h, fun heq => absurd heq (ne_of_lt h)⟩
  · next h =>
    split
    · next h' =>
      have hdiff : (quotient : ℚ) + part - ((quotient + 1 : ℕ) : ℚ) = -(1 - part) := by
        push_cast
        ring
      rw [hdiff, abs_neg, abs_of_pos (sub_pos.2 hlt)]
      exact ⟨by linarith, fun heq => absurd heq (by linarith)⟩
    · next h' =>
      have hhalf : part = 1 / 2 := le_antisymm (not_lt.1 h') (not_lt.1 h)
      rcases Nat.mod_two_eq_zero_or_one quotient with heven | hodd
      · rw [heven, Nat.add_zero, add_sub_cancel_left, hhalf, abs_of_pos one_half_pos]
        exact ⟨le_refl _, fun _ => Nat.even_iff.2 heven⟩
      · have hdiff : (quotient : ℚ) + part - ((quotient + 1 : ℕ) : ℚ) = -(1 / 2) := by
          rw [hhalf]
          push_cast
          ring
        rw [hodd, hdiff, abs_neg, abs_of_pos one_half_pos]
        exact ⟨le_refl _, fun _ => (Nat.odd_iff.2 hodd).add_one⟩

theorem roundHalfEven_nearest (num : ℕ) {den : ℕ} (hden : 0 < den) :
    NearestEven (fun k => (k : ℚ)) (num / den) (roundHalfEven num den) := by
  obtain ⟨hwithin, heven⟩ := roundHalfEven_within num hden
  generalize (num / den : ℚ) = q at hwithin heven ⊢
  generalize roundHalfEven num den = rounded at hwithin heven ⊢
  have hother : ∀ other : ℕ, other ≠ rounded →
      1 - |q - (rounded : ℚ)| ≤ |q - (other : ℚ)| := by
    intro other hne
    have hapart : (1 : ℤ) ≤ |(rounded : ℤ) - other| :=
      Int.one_le_abs (sub_ne_zero.2 (by exact_mod_cast hne.symm))
    have hapart' : (1 : ℚ) ≤ |(rounded : ℚ) - other| := by exact_mod_cast hapart
    have htriangle := abs_sub_le (rounded : ℚ) q other
    rw [abs_sub_comm (rounded : ℚ) q] at htriangle
    linarith
  refine ⟨fun other => ?_, fun other hne heq => heven ?_⟩
  · rcases eq_or_ne other rounded with rfl | hne
    · exact le_refl _
    · have := hother other hne
      linarith
  · have := hother other hne
    linarith

theorem div_le_roundHalfEven (num den : ℕ) :
    num / den ≤ roundHalfEven num den ∧ roundHalfEven num den ≤ num / den + 1 := by
  simp only [roundHalfEven]
  split
  · omega
  · split <;> omega

namespace Binary64

theorem scale_mul_add_significand (rank : ℕ) :
    scale rank * 2 ^ 52 + significand rank = rank := by
  have hsplit : rank / 2 ^ 52 * 2 ^ 52 + rank % 2 ^ 52 = rank := Nat.div_add_mod' rank _
  rw [scale, significand]
  split
  · next h => rw [Nat.div_eq_of_lt h, Nat.zero_sub, Nat.zero_mul, Nat.zero_add]
  · next h =>
    have hdiv : 1 ≤ rank / 2 ^ 52 := Nat.div_pos (Nat.not_lt.1 h) (Nat.two_pow_pos 52)
    rw [Nat.sub_mul, Nat.one_mul]
    omega

theorem even_significand_iff (rank : ℕ) : Even (significand rank) ↔ Even rank := by
  have hrank := scale_mul_add_significand rank
  rw [Nat.even_iff, Nat.even_iff]
  omega

/-- The digits of a rank may be one too many, by a carry. -/
theorem unitsOfRank_add {shift digits : ℕ} (hlow : shift = 0 ∨ 2 ^ 52 ≤ digits)
    (hhigh : digits ≤ 2 ^ 53) : unitsOfRank (shift * 2 ^ 52 + digits) = digits * 2 ^ shift := by
  rcases Nat.lt_or_ge digits (2 ^ 52) with hsmall | hlarge
  · obtain rfl : shift = 0 := hlow.resolve_right (Nat.not_le.2 hsmall)
    rw [unitsOfRank, scale, significand, Nat.zero_mul, Nat.zero_add, if_pos hsmall,
      Nat.div_eq_of_lt hsmall]
  · have hnot : ¬shift * 2 ^ 52 + digits < 2 ^ 52 := by omega
    rw [unitsOfRank, scale, significand, if_neg hnot]
    rcases Nat.lt_or_eq_of_le hhigh with hlt | rfl
    · have hdiv : (shift * 2 ^ 52 + digits) / 2 ^ 52 = shift + 1 := by omega
      have hmod : (shift * 2 ^ 52 + digits) % 2 ^ 52 = digits - 2 ^ 52 := by omega
      rw [hdiv, hmod, Nat.add_sub_cancel, Nat.add_sub_cancel' hlarge]
    · have hdiv : (shift * 2 ^ 52 + 2 ^ 53) / 2 ^ 52 = shift + 2 := by omega
      have hmod : (shift * 2 ^ 52 + 2 ^ 53) % 2 ^ 52 = 0 := by omega
      have hdouble : (2 : ℕ) ^ 53 = 2 ^ 52 * 2 := rfl
      rw [hdiv, hmod, Nat.add_zero, hdouble, Nat.mul_assoc, ← Nat.pow_succ']
      rfl

theorem significand_lt_two_pow (rank : ℕ) : significand rank < 2 ^ 53 := by
  rcases Nat.lt_or_ge rank (2 ^ 52) with h | h
  · rw [significand, if_pos h]
    omega
  · exact (significand_bounds h).2

theorem unitsOfRank_succ (rank : ℕ) :
    unitsOfRank (rank + 1) = unitsOfRank rank + 2 ^ scale rank := by
  have hrank := scale_mul_add_significand rank
  have hlow : scale rank = 0 ∨ 2 ^ 52 ≤ significand rank + 1 := by
    rcases Nat.lt_or_ge rank (2 ^ 52) with h | h
    · exact .inl (by rw [scale, Nat.div_eq_of_lt h])
    · exact .inr (Nat.le_succ_of_le (significand_bounds h).1)
  calc
    unitsOfRank (rank + 1) = unitsOfRank (scale rank * 2 ^ 52 + (significand rank + 1)) := by
      rw [← Nat.add_assoc, hrank]
    _ = (significand rank + 1) * 2 ^ scale rank :=
      unitsOfRank_add hlow (significand_lt_two_pow rank)
    _ = unitsOfRank rank + 2 ^ scale rank := by
      rw [Nat.succ_mul, unitsOfRank]

theorem strictMono_unitsOfRank : StrictMono unitsOfRank := by
  refine strictMono_nat_of_lt_succ fun rank => ?_
  rw [unitsOfRank_succ]
  exact Nat.lt_add_of_pos_right (Nat.two_pow_pos _)

section Ratio

variable (num den : ℕ)

/-- How often the distance between neighbours has doubled at the size of a ratio of units. -/
def shiftOf : ℕ := (num / den).log2 - 52

/-- The leading binary digits of a ratio of units, rounded. -/
def digitsOf : ℕ := roundHalfEven num (den * 2 ^ shiftOf num den)

theorem nearestRank_eq_add :
    nearestRank num den = shiftOf num den * 2 ^ 52 + digitsOf num den := rfl

variable {num den}

theorem quotient_bounds (num den : ℕ) :
    (shiftOf num den = 0 ∨ 2 ^ 52 ≤ num / den / 2 ^ shiftOf num den) ∧
      num / den / 2 ^ shiftOf num den < 2 ^ 53 := by
  rw [shiftOf]
  generalize num / den = quotient
  by_cases hzero : quotient = 0
  · subst hzero
    exact ⟨.inl rfl, by simp⟩
  · have hlt : quotient < 2 ^ (quotient.log2 - 52) * 2 ^ 53 := by
      rw [← Nat.pow_add]
      exact Nat.lt_of_lt_of_le Nat.lt_log2_self (Nat.pow_le_pow_right two_pos (by omega))
    refine ⟨?_, Nat.div_lt_of_lt_mul hlt⟩
    rcases Nat.lt_or_ge 52 quotient.log2 with hlog | hlog
    · refine .inr ((Nat.le_div_iff_mul_le (Nat.two_pow_pos _)).2 ?_)
      rw [← Nat.pow_add, Nat.add_sub_cancel' (Nat.le_of_lt hlog)]
      exact Nat.log2_self_le hzero
    · exact .inl (Nat.sub_eq_zero_of_le hlog)

theorem unitsOfRank_nearestRank (num den : ℕ) :
    unitsOfRank (nearestRank num den) = digitsOf num den * 2 ^ shiftOf num den := by
  obtain ⟨hlow, hhigh⟩ := quotient_bounds num den
  obtain ⟨hfrom, hto⟩ := div_le_roundHalfEven num (den * 2 ^ shiftOf num den)
  rw [← Nat.div_div_eq_div_mul] at hfrom hto
  exact unitsOfRank_add (hlow.imp_right fun h => h.trans hfrom) (hto.trans hhigh)

/-- A magnitude is a multiple of a power of two, or too small to have that many digits of the
size. -/
theorem unitsOfRank_multiple_or_lt (rank shift : ℕ) :
    (∃ count, unitsOfRank rank = count * 2 ^ shift) ∨
      0 < shift ∧ unitsOfRank rank < 2 ^ 52 * 2 ^ shift := by
  rcases Nat.lt_or_ge (scale rank) shift with hlt | hle
  · refine .inr ⟨Nat.zero_lt_of_lt hlt, ?_⟩
    calc
      unitsOfRank rank < 2 ^ 53 * 2 ^ scale rank :=
        Nat.mul_lt_mul_of_pos_right (significand_lt_two_pow rank) (Nat.two_pow_pos _)
      _ = 2 ^ 52 * 2 ^ (scale rank + 1) := by
        rw [Nat.pow_succ 2 52, Nat.mul_assoc, ← Nat.pow_succ']
      _ ≤ 2 ^ 52 * 2 ^ shift :=
        Nat.mul_le_mul_left _ (Nat.pow_le_pow_right two_pos hlt)
  · refine .inl ⟨significand rank * 2 ^ (scale rank - shift), ?_⟩
    rw [Nat.mul_assoc, ← Nat.pow_add, Nat.sub_add_cancel hle, unitsOfRank]

theorem le_ratio_of_shiftOf_pos (h : 0 < shiftOf num den) :
    ((2 ^ 52 : ℕ) : ℚ) * 2 ^ shiftOf num den ≤ num / den := by
  have hquotient := (quotient_bounds num den).1.resolve_left (Nat.ne_of_gt h)
  rw [Nat.le_div_iff_mul_le (Nat.two_pow_pos _)] at hquotient
  calc
    ((2 ^ 52 : ℕ) : ℚ) * 2 ^ shiftOf num den = (2 ^ 52 * 2 ^ shiftOf num den : ℕ) := by
      push_cast
      rfl
    _ ≤ (num / den : ℕ) := by exact_mod_cast hquotient
    _ ≤ num / den := Nat.cast_div_le

variable (num) in
theorem digitsOf_nearest (hden : 0 < den) :
    NearestEven (fun count => (count : ℚ) * 2 ^ shiftOf num den) (num / den)
      (digitsOf num den) := by
  have hnearest := (roundHalfEven_nearest num
    (Nat.mul_pos hden (Nat.two_pow_pos (shiftOf num den)))).mul (pow_pos two_pos (shiftOf num den))
  have hratio : (num / (den * 2 ^ shiftOf num den : ℕ) : ℚ) * 2 ^ shiftOf num den =
      num / den := by
    push_cast
    field_simp
  rwa [hratio] at hnearest

/-- A magnitude below the least multiple that has all its digits is farther away. -/
theorem digitsOf_nearer_of_lt (hden : 0 < den) (hpos : 0 < shiftOf num den) {other : ℕ}
    (hlt : unitsOfRank other < 2 ^ 52 * 2 ^ shiftOf num den) :
    |(num / den : ℚ) - digitsOf num den * 2 ^ shiftOf num den| <
      |(num / den : ℚ) - unitsOfRank other| := by
  have hfirst := (digitsOf_nearest num hden).nearest (2 ^ 52)
  have hratio := le_ratio_of_shiftOf_pos hpos
  have hother : (unitsOfRank other : ℚ) < ((2 ^ 52 : ℕ) : ℚ) * 2 ^ shiftOf num den := by
    exact_mod_cast hlt
  rw [abs_of_nonneg (sub_nonneg.2 hratio)] at hfirst
  rw [abs_of_pos (sub_pos.2 (hother.trans_le hratio))]
  exact hfirst.trans_lt (sub_lt_sub_left hother _)

theorem even_nearestRank_iff (num den : ℕ) :
    Even (nearestRank num den) ↔ Even (digitsOf num den) := by
  rw [nearestRank_eq_add, Nat.even_iff, Nat.even_iff]
  omega

variable (num) in
/-- The rank that a ratio is rounded to is the one of the nearest magnitude, ties to even. -/
theorem nearestRank_nearest (hden : 0 < den) :
    NearestEven (fun rank => (unitsOfRank rank : ℚ)) (num / den) (nearestRank num den) := by
  have hdigits := digitsOf_nearest num hden
  have hunits : (unitsOfRank (nearestRank num den) : ℚ) =
      digitsOf num den * 2 ^ shiftOf num den := by
    rw [unitsOfRank_nearestRank]
    push_cast
    rfl
  constructor
  · intro other
    rw [hunits]
    rcases unitsOfRank_multiple_or_lt other (shiftOf num den) with ⟨count, hcount⟩ | ⟨hpos, hlt⟩
    · have hmultiple := hdigits.nearest count
      rw [hcount]
      exact_mod_cast hmultiple
    · exact le_of_lt (digitsOf_nearer_of_lt hden hpos hlt)
  · intro other hne heq
    rw [even_nearestRank_iff]
    rw [hunits] at heq
    rcases unitsOfRank_multiple_or_lt other (shiftOf num den) with ⟨count, hcount⟩ | ⟨hpos, hlt⟩
    · refine hdigits.even count ?_ ?_
      · rintro rfl
        exact hne (strictMono_unitsOfRank.injective
          (hcount.trans (unitsOfRank_nearestRank num den).symm))
      · rw [hcount] at heq
        exact_mod_cast heq
    · exact absurd heq (ne_of_gt (digitsOf_nearer_of_lt hden hpos hlt))

/-- The magnitudes on the two sides of the middle from which on numbers are infinite. -/
theorem exists_unitsOfRank_rankCount : ∃ step : ℚ, 0 < step ∧ step = 2 ^ 2044 ∧
    (unitsOfRank (rankCount - 1) : ℚ) = (2 ^ 54 - 2) * step ∧
    (unitsOfRank rankCount : ℚ) = 2 ^ 54 * step := by
  obtain ⟨shift, hshift⟩ : ∃ shift, shift = 2044 := ⟨_, rfl⟩
  have hlast : rankCount - 1 = (shift + 1) * 2 ^ 52 + (2 ^ 53 - 1) := by
    rw [hshift]
    rfl
  have hbeyond : rankCount = (shift + 1) * 2 ^ 52 + 2 ^ 53 := by
    rw [hshift]
    rfl
  refine ⟨2 ^ shift, pow_pos two_pos _, by rw [hshift], ?_, ?_⟩
  · rw [hlast, unitsOfRank_add (.inr (by decide)) (by decide), Nat.pow_succ]
    push_cast
    ring
  · rw [hbeyond, unitsOfRank_add (.inr (by decide)) (by decide), Nat.pow_succ]
    push_cast
    ring

variable (num) in
/-- The ranks of finite numbers end where the next magnitude, of even rank, is as near. -/
theorem nearestRank_lt_rankCount_iff (hden : 0 < den) :
    nearestRank num den < rankCount ↔ (num / den : ℚ) < (2 ^ 54 - 1) * 2 ^ 2044 := by
  have hnearest := nearestRank_nearest num hden
  obtain ⟨step, hstep, hpower, hlast, hbeyond⟩ := exists_unitsOfRank_rankCount
  have hmono : ∀ {a b}, a ≤ b → (unitsOfRank a : ℚ) ≤ unitsOfRank b := fun h => by
    exact_mod_cast strictMono_unitsOfRank.monotone h
  rw [← hpower]
  clear hpower
  generalize (num / den : ℚ) = q at hnearest ⊢
  generalize nearestRank num den = rank at hnearest ⊢
  constructor
  · intro hlt
    have hle := hmono (Nat.le_sub_one_of_lt hlt)
    have hnear := hnearest.nearest rankCount
    have htie := hnearest.even rankCount (Nat.ne_of_gt hlt)
    by_contra hge
    rw [not_lt] at hge
    have hright : (unitsOfRank rank : ℚ) < q := by linarith
    rw [abs_of_pos (sub_pos.2 hright), hbeyond] at hnear htie
    have hleft : q < 2 ^ 54 * step := by
      by_contra hleft
      rw [abs_of_nonneg (sub_nonneg.2 (not_lt.1 hleft))] at hnear
      linarith
    rw [abs_of_neg (sub_neg.2 hleft)] at hnear htie
    have hunits : (unitsOfRank rank : ℚ) = unitsOfRank (rankCount - 1) := by linarith
    have hrank := strictMono_unitsOfRank.injective (Nat.cast_injective hunits)
    have heven := htie (by linarith)
    rw [hrank] at heven
    exact absurd heven (by decide)
  · intro hlt
    by_contra hge
    have hle := hmono (Nat.not_lt.1 hge)
    have hnear := hnearest.nearest (rankCount - 1)
    have hleft : q < unitsOfRank rank := by linarith
    rw [abs_of_neg (sub_neg.2 hleft), hlast, le_abs] at hnear
    rcases hnear with hnear | hnear <;> linarith

theorem nearestRank_eq_zero (hden : 0 < den) (h : (num / den : ℚ) ≤ 1 / 2) :
    nearestRank num den = 0 := by
  have hhalf : 2 * num ≤ den := by
    rw [div_le_div_iff₀ (by exact_mod_cast hden) two_pos, one_mul, mul_comm] at h
    exact_mod_cast h
  have hlt : num < den := by omega
  have habove : ¬den < 2 * num := Nat.not_lt.2 hhalf
  simp [nearestRank, roundHalfEven, Nat.div_eq_of_lt hlt, Nat.mod_eq_of_lt hlt, habove]

end Ratio

end Binary64

end ReversePolish
