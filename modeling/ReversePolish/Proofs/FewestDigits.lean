import ReversePolish.Proofs.WrittenNumerals

/-!
# Fewest digits

Of all numerals that are read as a number other than zero, the one that is written as its result has
the fewest significant digits, and of those with as few it is the nearest. A numeral whose exponent
is cut short in reading denotes something that is far from the number that it is read as.
-/

namespace ReversePolish

attribute [local instance (high)] instPowNat

open Binary64 Literal

namespace Decimal

variable {d : Decimal} {rank : ℕ}

theorem magnitude_succ_le (hrank : rank ≠ 0) : magnitude (rank + 1) ≤ 2 * magnitude rank := by
  have hunits : (0 : ℚ) < unitsOfOne := Nat.cast_pos.2 unitsOfOne_pos
  have hpos : 0 < unitsOfRank rank :=
    (Nat.zero_le _).trans_lt (strictMono_unitsOfRank (Nat.pos_of_ne_zero hrank))
  have hstep : 2 ^ scale rank ≤ unitsOfRank rank := Nat.le_of_dvd hpos (Nat.dvd_mul_left _ _)
  rw [magnitude, magnitude, unitsOfRank_succ, ← mul_div_assoc]
  apply div_le_div_of_nonneg_right _ hunits.le
  have hcast : ((2 ^ scale rank : ℕ) : ℚ) ≤ unitsOfRank rank := Nat.cast_le.2 hstep
  rw [Nat.cast_add]
  linarith

/-- What rounds to a magnitude is at least a half of it and at most three halves. -/
theorem value_bounds (hrank : rank ≠ 0) (hd : d.nearestRank = rank) :
    magnitude rank ≤ 2 * d.value ∧ 2 * d.value ≤ 3 * magnitude rank := by
  have hnearest := d.nearestRank_nearest
  rw [hd] at hnearest
  have hbelow := add_le_of_abs_sub_le
    (strictMono_magnitude (Nat.sub_lt (Nat.pos_of_ne_zero hrank) Nat.one_pos))
    (hnearest.nearest (rank - 1))
  have habove := le_add_of_abs_sub_le (strictMono_magnitude (Nat.lt_succ_self rank))
    (hnearest.nearest (rank + 1))
  have hzero := magnitude_nonneg (rank - 1)
  have hnext := magnitude_succ_le hrank
  constructor <;> linarith

end Decimal

/-- Nothing that is off by a power of ten is as near. -/
theorem abs_sub_le_of_scaled {v q : ℚ} (hfrom : v ≤ 2 * q) (hto : 2 * q ≤ 3 * v) {m : ℤ}
    (hm : m ≠ 0) : |v - q| ≤ |v - q * 10 ^ m| := by
  have hhalf : |v - q| ≤ v / 2 := abs_le.2 ⟨by linarith, by linarith⟩
  refine hhalf.trans ?_
  rcases lt_or_gt_of_ne hm with hneg | hpos
  · have hpower : (10 : ℚ) ^ m ≤ 10 ^ (-1 : ℤ) := zpow_le_zpow_right₀ (by norm_num) (by omega)
    rw [zpow_neg_one] at hpower
    have hscaled : q * 10 ^ m ≤ q * 10⁻¹ := mul_le_mul_of_nonneg_left hpower (by linarith)
    exact le_trans (by linarith) (le_abs_self _)
  · have hpower : (10 : ℚ) ^ (1 : ℤ) ≤ 10 ^ m := zpow_le_zpow_right₀ (by norm_num) (by omega)
    rw [zpow_one] at hpower
    have hscaled : q * 10 ≤ q * 10 ^ m := mul_le_mul_of_nonneg_left hpower (by linarith)
    exact le_trans (by linarith) (neg_le_abs _)

namespace Literal

theorem ofDigitChars_lt_pow {digits : List Char} (h : ∀ c ∈ digits, c.isDigit) :
    Nat.ofDigitChars 10 digits 0 < 10 ^ digits.length := by
  induction digits with
  | nil => exact Nat.one_pos
  | cons c digits ih =>
    obtain ⟨hc, hdigits⟩ := List.forall_mem_cons.1 h
    have hrest := ih hdigits
    have hdigit : c.toNat - '0'.toNat ≤ 9 := by
      rw [Char.isDigit, Bool.and_eq_true, decide_eq_true_eq, decide_eq_true_eq] at hc
      exact Nat.sub_le_sub_right (m := 57) hc.2 48
    calc
      Nat.ofDigitChars 10 (c :: digits) 0 =
          10 ^ digits.length * (c.toNat - '0'.toNat) + Nat.ofDigitChars 10 digits 0 := by
        rw [Nat.ofDigitChars_cons, Nat.ofDigitChars_eq_ofDigitChars_zero, Nat.mul_zero,
          Nat.zero_add]
      _ < 10 ^ digits.length * 9 + 10 ^ digits.length :=
        Nat.add_lt_add_of_le_of_lt (Nat.mul_le_mul_left _ hdigit) hrest
      _ = 10 ^ (c :: digits).length := by rw [List.length_cons, Nat.pow_succ]; omega

namespace Numeral

variable (numeral : Numeral)

theorem value_scaled (e e' : ℤ) :
    (numeral.scaled e').value = (numeral.scaled e).value * 10 ^ (e' - e) := by
  simp only [scaled, Decimal.value]
  rw [mul_assoc, ← zpow_add₀ (by norm_num)]
  congr 2
  omega

theorem isDigit_digits : ∀ c ∈ numeral.digits, c.isDigit := by
  intro c hc
  rcases List.mem_append.1 hc with hc | hc
  · exact numeral.isDigit_whole c hc
  · exact numeral.isDigit_fraction c hc

/-- The significant digits of a numeral are a coefficient for what it denotes. -/
theorem exists_significant (e : ℤ) : ∃ d : Decimal, d.value = (numeral.scaled e).value ∧
    d.coefficient < 10 ^ numeral.significant.length := by
  obtain ⟨before, after, hdigits⟩ := exists_zeros numeral.digits
  have hsignificant : ∀ c ∈ numeral.significant, c.isDigit := by
    intro c hc
    apply numeral.isDigit_digits
    rw [hdigits]
    exact List.mem_append_right _ (List.mem_append_left _ hc)
  have hcoefficient : Nat.ofDigitChars 10 numeral.digits 0 =
      10 ^ after * Nat.ofDigitChars 10 numeral.significant 0 := by
    conv_lhs => rw [hdigits]
    rw [Nat.ofDigitChars_append, Nat.ofDigitChars_append, Nat.ofDigitChars_replicate_zero,
      Nat.ofDigitChars_replicate_zero, Nat.mul_zero, significant]
  refine ⟨⟨Nat.ofDigitChars 10 numeral.significant 0, (numeral.scaled e).exponent + after⟩, ?_,
    ofDigitChars_lt_pow hsignificant⟩
  simp only [Decimal.value, scaled]
  rw [hcoefficient, zpow_add₀ (by norm_num), zpow_natCast]
  push_cast
  ring

end Numeral

end Literal

/-- A numeral is read as a finite number if its decimal rounds to the magnitude, the exponent read
as some power of ten. -/
theorem exists_scaled_of_numberValue {sign : Sign} {numeral : Numeral} {negative : Bool}
    {rank : Fin rankCount}
    (h : numberValue (String.ofList (sign.chars ++ numeral.chars)) = .ok (finite negative rank)) :
    sign.isMinus = negative ∧ ∃ e, (numeral.scaled e).nearestRank = rank := by
  obtain ⟨e, he⟩ := numeral.exists_exponent?
  rw [numberValue, read?_numeral sign numeral he] at h
  have hvalue : (numeral.scaled e).toBinary64 sign.isMinus = finite negative rank :=
    Except.ok.inj h
  rw [Decimal.toBinary64, Binary64.ofRank] at hvalue
  split at hvalue
  · obtain ⟨hsign, hrank⟩ := Binary64.finite.inj hvalue
    exact ⟨hsign, e, congrArg Fin.val hrank⟩
  · simp at hvalue

/-- What is written for a nonzero number is read as it, with the fewest significant digits of all
numerals that are, and none of those with as many is nearer to it. -/
theorem write_fewest_digits (negative : Bool) {rank : Fin rankCount} (h : (rank : ℕ) ≠ 0) :
    numberValue ((finite negative rank).write .result) = .ok (finite negative rank) ∧
    ∃ written : Numeral,
      ((finite negative rank).write .result).toList =
          (Sign.ofNegative negative).chars ++ written.chars ∧
        ∀ (sign : Sign) (other : Numeral),
          numberValue (String.ofList (sign.chars ++ other.chars)) = .ok (finite negative rank) →
            written.significant.length ≤ other.significant.length ∧
              (other.significant.length = written.significant.length →
                |rational negative rank - withSign negative written.value| ≤
                  |rational negative rank - withSign sign.isMinus other.value|) := by
  refine ⟨numberValue_of_read? (read?_write _), ?_⟩
  obtain ⟨written, hwritten⟩ := Decimal.exists_writtenAs_shortest rank.isLt
  have hne : (Decimal.shortest rank).coefficient ≠ 0 :=
    Decimal.coefficient_ne_zero ((Decimal.nearestRank_shortest rank).trans_ne h)
  have hlength : written.significant.length = (Decimal.shortest rank).digitCount :=
    congrArg List.length (hwritten.significant hne)
  refine ⟨written, ?_, fun sign other hread => ?_⟩
  · rw [write, String.toList_ofList, hwritten.chars, Sign.chars_ofNegative_append]
  · obtain ⟨rfl, e, hrank⟩ := exists_scaled_of_numberValue hread
    obtain ⟨d, hvalue, hcount⟩ := other.exists_significant e
    have hd : d.nearestRank = rank := (Decimal.nearestRank_congr hvalue).trans hrank
    constructor
    · rw [hlength]
      exact Decimal.digitCount_shortest_le h hd hcount
    · intro heq
      rw [heq, hlength] at hcount
      rw [abs_sub_comm, abs_sub_rational_self, abs_sub_comm, hwritten.value,
        abs_sub_comm (rational _ _), abs_sub_rational_self, abs_sub_comm other.value]
      calc
        |magnitude rank - (Decimal.shortest rank).value| ≤ |magnitude rank - d.value| :=
          Decimal.abs_sub_shortest_le h hd hcount
        _ ≤ |magnitude rank - other.value| := by
          obtain ⟨hfrom, hto⟩ := Decimal.value_bounds h hd
          rw [Numeral.value, other.value_scaled e, ← hvalue]
          rcases eq_or_ne (other.exponentValue - e) 0 with hzero | hne
          · rw [hzero, zpow_zero, mul_one]
          · exact abs_sub_le_of_scaled hfrom hto hne

/-- Of the least magnitude of all, one digit is left, as in another numeral that is read as it. -/
theorem write_fewest_digits_of_least :
    let least : Binary64 := .finite false ⟨1, by decide⟩
    least.write .result = "5e-324" ∧ numberValue "5e-324" = .ok least ∧
      numberValue "4e-324" = .ok least ∧
      ∃ written : Numeral, "5e-324".toList = written.chars ∧ written.significant.length ≤ 1 := by
  have hwritten : (Binary64.finite false ⟨1, by decide⟩).write .result = "5e-324" := by
    decide +kernel
  have hread : numberValue "4e-324" = .ok (.finite false ⟨1, by decide⟩) := by decide +kernel
  let other : Numeral :=
    { whole := ['4']
      exponent := some (.ofInt (-324))
      isDigit_whole := by simp
      isDigit_fraction := by simp
      ne_nil := .inl (by simp) }
  obtain ⟨hback, written, hchars, hfewest⟩ :=
    write_fewest_digits false (show ((⟨1, by decide⟩ : Fin rankCount) : ℕ) ≠ 0 by decide)
  rw [hwritten] at hback hchars
  exact ⟨hwritten, hback, hread, written, hchars, (hfewest .absent other hread).1⟩

end ReversePolish
