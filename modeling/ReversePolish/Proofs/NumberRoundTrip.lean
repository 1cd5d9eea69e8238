import ReversePolish.Decimal.Layout
import ReversePolish.Proofs.DecimalValue
import ReversePolish.Proofs.LiteralDigits

/-!
# Numbers read back

A number that has been written as a result or in the journal reads back as the same number, in each
of its written forms and with the sign that it has, a zero included.
-/

namespace ReversePolish

/-- What follows a whole number makes it no other number. -/
def Layout.EndsWhole (layout : Layout) : Prop :=
  layout.wholeEnding = [] ∨ layout.wholeEnding = ['.', '0']

theorem Layout.endsWhole_result : result.EndsWhole := .inl rfl

theorem Layout.endsWhole_journal : journal.EndsWhole := .inr rfl

namespace Decimal

section Forms

variable {digits : List Char} (hdigits : ∀ c ∈ digits, c.isDigit)

include hdigits

theorem isDigit_zeros_append (count : Nat) :
    ∀ c ∈ List.replicate count '0' ++ digits, c.isDigit := by
  intro c hc
  rcases List.mem_append.1 hc with hc | hc
  · rw [List.eq_of_mem_replicate hc]
    decide
  · exact hdigits c hc

theorem ofText?_leading_zeros (count : Nat) :
    ofText? ('0' :: '.' :: (List.replicate count '0' ++ digits)) =
      some ⟨Nat.ofDigitChars 10 digits 0, -((count + digits.length : Nat) : Int)⟩ := by
  have htext := ofText?_point ['0'] (List.replicate count '0' ++ digits) (.inl (by simp))
    (by simp) (isDigit_zeros_append hdigits count) exponent?_nil
  rw [List.append_nil, Nat.ofDigitChars_append, Nat.ofDigitChars_append,
    Nat.ofDigitChars_replicate_zero] at htext
  simpa [Nat.ofDigitChars_cons] using htext

theorem isDigit_append_zeros (count : Nat) :
    ∀ c ∈ digits ++ List.replicate count '0', c.isDigit := by
  intro c hc
  rcases List.mem_append.1 hc with hc | hc
  · exact hdigits c hc
  · rw [List.eq_of_mem_replicate hc]
    decide

theorem ofText?_trailing_zeros (hne : digits ≠ []) (count : Nat) :
    ofText? (digits ++ List.replicate count '0') =
      some ⟨10 ^ count * Nat.ofDigitChars 10 digits 0, 0⟩ := by
  have hwhole := isDigit_append_zeros hdigits count
  have htext := ofText?_whole (by simp [hne]) hwhole exponent?_nil
  rw [List.append_nil, Nat.ofDigitChars_append, Nat.ofDigitChars_replicate_zero] at htext
  exact htext

theorem ofText?_trailing_point (hne : digits ≠ []) (count : Nat) :
    ofText? (digits ++ List.replicate count '0' ++ ['.', '0']) =
      some ⟨10 ^ (count + 1) * Nat.ofDigitChars 10 digits 0, -1⟩ := by
  have hwhole := isDigit_append_zeros hdigits count
  have htext := ofText?_point (digits ++ List.replicate count '0') ['0'] (.inl (by simp [hne]))
    hwhole (by simp) exponent?_nil
  have hzeros : digits ++ List.replicate count '0' ++ ['0'] =
      digits ++ List.replicate (count + 1) '0' := by
    rw [List.append_assoc, ← List.replicate_succ']
  rw [hzeros, Nat.ofDigitChars_append, Nat.ofDigitChars_replicate_zero] at htext
  exact htext

theorem ofText?_inner_point {places : Nat} (hpos : 0 < places) (hlt : places < digits.length) :
    ofText? (digits.take places ++ '.' :: digits.drop places) =
      some ⟨Nat.ofDigitChars 10 digits 0, (places : Int) - digits.length⟩ := by
  have hne : digits.take places ≠ [] := by
    apply List.ne_nil_of_length_pos
    rw [List.length_take]
    omega
  have htext := ofText?_point (digits.take places) (digits.drop places) (.inl hne)
    (fun c hc => hdigits c (List.mem_of_mem_take hc))
    (fun c hc => hdigits c (List.mem_of_mem_drop hc)) exponent?_nil
  rw [List.append_nil, List.take_append_drop, List.length_drop] at htext
  rw [htext]
  congr 2
  omega

/-- A positional text denotes the decimal that it was made from. -/
theorem ofText?_positional {layout : Layout} (hending : layout.EndsWhole)
    (hne : digits ≠ []) (exponent : Int) :
    ∃ d, ofText? (layout.positional digits (exponent + digits.length - 1)) = some d ∧
      d.value = value ⟨Nat.ofDigitChars 10 digits 0, exponent⟩ := by
  have hlength := List.length_pos_iff.2 hne
  rw [Layout.positional]
  split
  · next hlead =>
    refine ⟨_, ofText?_leading_zeros hdigits _, ?_⟩
    congr 2
    omega
  · next hlead =>
    dsimp only
    split
    · next hplaces =>
      generalize hzeros : (exponent + digits.length - 1).toNat + 1 - digits.length = zeros
      have hexponent : exponent = zeros := by omega
      rcases hending with hending | hending
      · rw [hending, List.append_nil]
        refine ⟨_, ofText?_trailing_zeros hdigits hne _, ?_⟩
        simp only [value, hexponent, zpow_zero, zpow_natCast]
        push_cast
        ring
      · rw [hending]
        refine ⟨_, ofText?_trailing_point hdigits hne _, ?_⟩
        simp only [value, hexponent, zpow_neg_one, zpow_natCast]
        push_cast
        field_simp
        ring
    · next hplaces =>
      refine ⟨_, ofText?_inner_point hdigits (by omega) (by omega), ?_⟩
      congr 2
      omega

/-- A text with an exponent denotes the decimal that it was made from. -/
theorem ofText?_scientific (hne : digits ≠ []) (exponent : Int)
    (hlead : (exponent + digits.length - 1).natAbs < 65536) :
    ofText? (Layout.scientific digits (exponent + digits.length - 1)) =
      some ⟨Nat.ofDigitChars 10 digits 0, exponent⟩ := by
  have hexponent := exponent?_toString hlead
  match digits, hne with
  | [first], _ =>
    refine (ofText?_whole (by simp) hdigits hexponent).trans ?_
    congr 2
    simp
  | first :: second :: others, _ =>
    obtain ⟨hfirst, hothers⟩ := List.forall_mem_cons.1 hdigits
    refine (ofText?_point [first] (second :: others) (.inl (by simp))
      (by simpa using hfirst) hothers hexponent).trans ?_
    congr 2
    simp only [List.length_cons]
    omega

end Forms

/-- In either form the text of a decimal denotes it, unless its exponent is large. -/
theorem ofText?_magnitude {layout : Layout} (hending : layout.EndsWhole) {d : Decimal}
    {low high : Int} (hspans : d.Spans low high) (hlow : -65536 < low) (hhigh : high ≤ 65536) :
    ∃ d', ofText? (layout.magnitude d) = some d' ∧ d'.value = d.value := by
  obtain ⟨hfrom, hto⟩ := hspans
  have hdigits := isDigit_toDigits d.coefficient
  have hne : Nat.toDigits 10 d.coefficient ≠ [] := Nat.toDigits_ne_nil
  have hpos := List.length_pos_iff.2 hne
  have hpositional := ofText?_positional hdigits hending hne d.exponent
  have hscientific := ofText?_scientific hdigits hne d.exponent (by omega)
  rw [Nat.ofDigitChars_ten_toDigits] at hpositional hscientific
  simp only [Layout.magnitude]
  split
  · exact hpositional
  · exact ⟨d, hscientific, rfl⟩

theorem head_of_ofText? {text : List Char} {d : Decimal} (h : ofText? text = some d) :
    ∃ first others, text = first :: others ∧ (first.isDigit ∨ first = '.') := by
  match text with
  | [] => simp [ofText?, splitFraction] at h
  | first :: others =>
    refine ⟨first, others, rfl, ?_⟩
    by_cases hdigit : first.isDigit
    · exact .inl hdigit
    · by_cases hpoint : first = '.'
      · exact .inr hpoint
      · simp [ofText?, splitFraction, hdigit, hpoint] at h

end Decimal

namespace Binary64

theorem toLower_eq_self {c : Char} (h : c.isDigit ∨ c = '.') : c.toLower = c := by
  rcases h with h | rfl
  · simp only [Char.isDigit, Bool.and_eq_true, decide_eq_true_eq] at h
    refine dif_neg ?_
    rintro ⟨hupper, -⟩
    exact absurd (UInt32.le_trans hupper h.2) (by decide)
  · rfl

theorem toLower_ne_word {text : List Char} {d : Decimal} (h : Decimal.ofText? text = some d)
    {word : String} (letter : Char) (hhead : word.toList.head? = some letter)
    (hletter : letter.isDigit = false ∧ letter ≠ '.') :
    String.ofList (text.map Char.toLower) ≠ word := by
  obtain ⟨first, others, rfl, hfirst⟩ := Decimal.head_of_ofText? h
  rintro rfl
  rw [String.toList_ofList, List.map_cons, toLower_eq_self hfirst] at hhead
  obtain rfl := Option.some.inj hhead
  rcases hfirst with hfirst | hfirst
  · rw [hletter.1] at hfirst
    simp at hfirst
  · exact hletter.2 hfirst

theorem splitSign_signed {text : List Char} {d : Decimal} (h : Decimal.ofText? text = some d)
    (negative : Bool) : Decimal.splitSign (Layout.signed negative text) = (negative, text) := by
  obtain ⟨first, others, rfl, hfirst⟩ := Decimal.head_of_ofText? h
  cases negative with
  | true => rfl
  | false =>
    rcases hfirst with hfirst | rfl
    · exact Decimal.splitSign_of_isDigit hfirst others
    · rfl

theorem read?_of_splitSign {text unsigned : List Char} {negative : Bool} {d : Decimal}
    (hsplit : Decimal.splitSign text = (negative, unsigned))
    (h : Decimal.ofText? unsigned = some d) :
    read? (String.ofList text) = some (d.toBinary64 negative) := by
  rw [read?, String.toList_ofList, hsplit]
  dsimp only
  split
  · next hword =>
    exact absurd hword (toLower_ne_word h 'i' rfl (by decide))
  · next hword =>
    exact absurd hword (toLower_ne_word h 'i' rfl (by decide))
  · next hword =>
    exact absurd hword (toLower_ne_word h 'n' rfl (by decide))
  · rw [h]
    rfl

theorem read?_signed {text : List Char} {d : Decimal} (h : Decimal.ofText? text = some d)
    (negative : Bool) :
    read? (String.ofList (Layout.signed negative text)) = some (d.toBinary64 negative) :=
  read?_of_splitSign (splitSign_signed h negative) h

theorem read?_write_finite {layout : Layout} (hending : layout.EndsWhole) (negative : Bool)
    (rank : Fin rankCount) :
    read? ((finite negative rank).write layout) = some (finite negative rank) := by
  obtain ⟨d, htext, hvalue⟩ := Decimal.ofText?_magnitude hending
    (Decimal.spans_shortest rank.isLt) (by decide) (by decide)
  have hrank : d.nearestRank = rank :=
    (Decimal.nearestRank_congr hvalue).trans (Decimal.nearestRank_shortest rank)
  rw [write, read?_signed htext, Decimal.toBinary64, hrank, ofRank, dif_pos rank.isLt]

/-- A written result reads back as the number. -/
theorem read?_write (value : Binary64) : read? (value.write .result) = some value := by
  cases value with
  | nan => decide +kernel
  | infinite negative => cases negative <;> decide +kernel
  | finite negative rank => exact read?_write_finite Layout.endsWhole_result negative rank

theorem read?_write_journal (value : Binary64) : read? (value.write .journal) = some value := by
  cases value with
  | nan => decide +kernel
  | infinite negative => cases negative <;> decide +kernel
  | finite negative rank => exact read?_write_finite Layout.endsWhole_journal negative rank

theorem toBits_ofBits {bits : UInt64} (h : bits.toNat % 2 ^ 63 ≤ rankCount) :
    (ofBits bits).toBits = bits := by
  have hsplit : (decide (2 ^ 63 ≤ bits.toNat)).toNat * 2 ^ 63 + bits.toNat % 2 ^ 63 =
      bits.toNat := by
    have hlt := bits.toNat_lt
    by_cases hsign : 2 ^ 63 ≤ bits.toNat
    · rw [decide_eq_true hsign, Bool.toNat_true]
      omega
    · rw [decide_eq_false hsign, Bool.toNat_false]
      omega
  rcases Nat.lt_or_eq_of_le h with hfinite | hinfinite
  · have hbits : ofBits bits = .finite (2 ^ 63 ≤ bits.toNat) ⟨_, hfinite⟩ := dif_pos hfinite
    rw [hbits]
    exact (congrArg UInt64.ofNat hsplit).trans (UInt64.ofNat_toNat)
  · have hbits : ofBits bits = .infinite (2 ^ 63 ≤ bits.toNat) := by
      rw [ofBits, dif_neg (Nat.not_lt.2 (Nat.le_of_eq hinfinite.symm)), if_pos hinfinite]
    rw [hinfinite] at hsplit
    rw [hbits]
    exact (congrArg UInt64.ofNat hsplit).trans (UInt64.ofNat_toNat)

/-- Every number reads back from what is written as its result, and every bit pattern that is no
NaN is that of the number read. -/
theorem reads_back (bits : UInt64) :
    ∃ value, read? ((ofBits bits).write .result) = some value ∧
      if rankCount < bits.toNat % 2 ^ 63 then value = nan else value.toBits = bits := by
  refine ⟨ofBits bits, read?_write _, ?_⟩
  by_cases hnan : rankCount < bits.toNat % 2 ^ 63
  · have hfinite : ¬bits.toNat % 2 ^ 63 < rankCount := Nat.not_lt.2 (Nat.le_of_lt hnan)
    rw [if_pos hnan, ofBits, dif_neg hfinite, if_neg (Nat.ne_of_gt hnan)]
  · rw [if_neg hnan]
    exact toBits_ofBits (Nat.not_lt.1 hnan)

/-- The least magnitude of all and back. -/
example : (ofBits 0x8000000000000001).write .result = "-5e-324" ∧
    read? "-5e-324" = some (ofBits 0x8000000000000001) := by
  decide +kernel

end Binary64

end ReversePolish
