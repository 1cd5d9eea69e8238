import Mathlib.Data.List.DropRight
import ReversePolish.Proofs.LiteralGrammar
import ReversePolish.Proofs.ShortestDigits

/-!
# Written results as numerals

The text of a finite result is a numeral in one of two forms. Its significant digits are those of
the decimal that it was made from, and it denotes that decimal.
-/

namespace ReversePolish

namespace Literal

def Sign.ofNegative (negative : Bool) : Sign := if negative then .minus else .absent

@[simp] theorem Sign.isMinus_ofNegative (negative : Bool) :
    (ofNegative negative).isMinus = negative := by
  cases negative <;> rfl

theorem Sign.ofNegative_ne_plus (negative : Bool) : ofNegative negative ≠ .plus := by
  cases negative <;> decide

theorem Sign.chars_ofNegative_append (negative : Bool) (text : List Char) :
    (ofNegative negative).chars ++ text = Layout.signed negative text := by
  cases negative <;> rfl

def withoutZeros (digits : List Char) : List Char :=
  (digits.dropWhile (· == '0')).rdropWhile (· == '0')

/-- The digits of a numeral on both sides of the point, without the zeros around them. -/
def Numeral.significant (numeral : Numeral) : List Char := withoutZeros numeral.digits

theorem exists_replicate_of_zeros {text : List Char} (h : ∀ c ∈ text, (c == '0') = true) :
    ∃ count, text = List.replicate count '0' :=
  ⟨text.length, List.eq_replicate_iff.2 ⟨rfl, fun c hc => eq_of_beq (h c hc)⟩⟩

theorem exists_zeros (digits : List Char) : ∃ before after,
    digits = List.replicate before '0' ++ (withoutZeros digits ++ List.replicate after '0') := by
  obtain ⟨before, hbefore⟩ := exists_replicate_of_zeros
    fun c (hc : c ∈ digits.takeWhile (· == '0')) => List.mem_takeWhile_imp (p := (· == '0')) hc
  obtain ⟨after, hafter⟩ := exists_replicate_of_zeros
    fun c (hc : c ∈ (digits.dropWhile (· == '0')).rtakeWhile (· == '0')) =>
      List.mem_rtakeWhile_imp (p := (· == '0')) hc
  refine ⟨before, after, ?_⟩
  rw [← hbefore, ← hafter, withoutZeros, List.rdropWhile_append_rtakeWhile,
    List.takeWhile_append_dropWhile]

def BeginsNonzero (digits : List Char) : Prop := ∃ c ∈ digits.head?, c ≠ '0'

def EndsNonzero (digits : List Char) : Prop := ∃ c ∈ digits.getLast?, c ≠ '0'

theorem BeginsNonzero.exists_cons {digits : List Char} (h : BeginsNonzero digits) :
    ∃ first others, digits = first :: others ∧ first ≠ '0' := by
  obtain ⟨first, hfirst, hne⟩ := h
  obtain ⟨others, rfl⟩ := List.head?_eq_some_iff.1 hfirst
  exact ⟨first, others, rfl, hne⟩

theorem BeginsNonzero.append {digits : List Char} (h : BeginsNonzero digits) (text : List Char) :
    BeginsNonzero (digits ++ text) := by
  obtain ⟨first, others, rfl, hne⟩ := h.exists_cons
  exact ⟨first, rfl, hne⟩

theorem EndsNonzero.append {digits : List Char} (h : EndsNonzero digits) (text : List Char) :
    EndsNonzero (text ++ digits) := by
  obtain ⟨last, hlast, hne⟩ := h
  obtain ⟨others, rfl⟩ := List.getLast?_eq_some_iff.1 hlast
  exact ⟨last, by simp, hne⟩

structure Bare (digits : List Char) : Prop where
  isDigit : ∀ c ∈ digits, c.isDigit
  head : BeginsNonzero digits
  last : EndsNonzero digits

namespace Bare

variable {digits : List Char} (h : Bare digits)

include h

theorem ne_nil : digits ≠ [] := by
  obtain ⟨first, others, rfl, -⟩ := h.head.exists_cons
  exact List.cons_ne_nil _ _

theorem dropWhile_append (text : List Char) :
    (digits ++ text).dropWhile (· == '0') = digits ++ text := by
  obtain ⟨first, others, rfl, hne⟩ := h.head.exists_cons
  exact List.dropWhile_cons_of_neg (by simpa using hne)

theorem takeWhile_zeros_append (count : ℕ) :
    (List.replicate count '0' ++ digits).takeWhile (· == '0') = List.replicate count '0' := by
  obtain ⟨first, others, rfl, hne⟩ := h.head.exists_cons
  rw [List.takeWhile_append_of_pos (by simp), List.takeWhile_cons_of_neg (by simpa using hne),
    List.append_nil]

theorem rdropWhile_append_zeros (after : ℕ) :
    (digits ++ List.replicate after '0').rdropWhile (· == '0') = digits := by
  obtain ⟨c, hc, hne⟩ := h.last
  induction after with
  | zero =>
    rw [List.replicate_zero, List.append_nil, List.rdropWhile_eq_self_iff]
    intro hlast
    rw [List.getLast?_eq_some_getLast hlast, Option.mem_some_iff] at hc
    simpa [hc] using hne
  | succ after ih =>
    rw [List.replicate_succ', ← List.append_assoc, List.rdropWhile_concat_pos _ _ _ (by simp), ih]

/-- Around such digits all zeros are left out. -/
theorem withoutZeros_eq (before after : ℕ) :
    withoutZeros (List.replicate before '0' ++ (digits ++ List.replicate after '0')) = digits := by
  have hzeros : ∀ c ∈ List.replicate before '0', (c == '0') = true := by simp
  rw [withoutZeros, List.dropWhile_append_of_pos hzeros, h.dropWhile_append,
    h.rdropWhile_append_zeros]

theorem significant_eq {numeral : Numeral} (before after : ℕ) (hdigits : numeral.digits =
    List.replicate before '0' ++ (digits ++ List.replicate after '0')) :
    numeral.significant = digits := by
  rw [Numeral.significant, hdigits, h.withoutZeros_eq]

end Bare

/-- The positional form. The digits before the point are few and without superfluous zeros, those
after it say something, and below one they begin with few zeros. -/
structure Numeral.IsPlain (numeral : Numeral) : Prop where
  exponent : numeral.exponent = none
  length_le : numeral.whole.length ≤ 16
  head : numeral.whole = ['0'] ∨ BeginsNonzero numeral.whole
  last : ∀ fraction ∈ numeral.fraction, EndsNonzero fraction
  zeros : numeral.whole = ['0'] → ∀ fraction ∈ numeral.fraction,
    (fraction.takeWhile (· == '0')).length ≤ 5

/-- The form with one digit before the point and an exponent of ten. -/
structure Numeral.IsScientific (numeral : Numeral) : Prop where
  length_eq : numeral.whole.length = 1
  head : BeginsNonzero numeral.whole
  last : ∀ fraction ∈ numeral.fraction, EndsNonzero fraction
  exponent : ∃ exponent ∈ numeral.exponent, exponent.mark = 'e' ∧ exponent.sign ≠ .plus ∧
    BeginsNonzero exponent.digits
  beyond : 16 ≤ numeral.exponentValue ∨ numeral.exponentValue ≤ -7

section Forms

variable {digits : List Char} (h : Bare digits)

include h

theorem exists_leading_zeros {count : ℕ} (hcount : count ≤ 5) : ∃ numeral : Numeral,
    numeral.chars = '0' :: '.' :: (List.replicate count '0' ++ digits) ∧
      numeral.significant = digits ∧ numeral.IsPlain ∧ numeral.fraction ≠ none := by
  let numeral : Numeral :=
    { whole := ['0']
      fraction := some (List.replicate count '0' ++ digits)
      isDigit_whole := by simp
      isDigit_fraction := Decimal.isDigit_zeros_append h.isDigit count
      ne_nil := .inl (by simp) }
  have hlast := h.last.append (List.replicate count '0')
  have hzeros := h.takeWhile_zeros_append count
  refine ⟨numeral, by simp [numeral, Numeral.chars, Numeral.scaling], ?_, ?_, by simp [numeral]⟩
  · exact h.significant_eq (count + 1) 0 (by simp [numeral, Numeral.digits, List.replicate_succ])
  · constructor <;> simp [numeral, hlast, hzeros, hcount]

theorem exists_trailing_zeros {count : ℕ} (hlength : digits.length + count ≤ 16) :
    ∃ numeral : Numeral, numeral.chars = digits ++ List.replicate count '0' ∧
      numeral.significant = digits ∧ numeral.IsPlain ∧ numeral.fraction = none := by
  let numeral : Numeral :=
    { whole := digits ++ List.replicate count '0'
      isDigit_whole := Decimal.isDigit_append_zeros h.isDigit count
      isDigit_fraction := by simp
      ne_nil := .inl (by simp [h.ne_nil]) }
  have hhead := h.head.append (List.replicate count '0')
  refine ⟨numeral, by simp [numeral, Numeral.chars, Numeral.scaling], ?_, ?_, rfl⟩
  · exact h.significant_eq 0 count (by simp [numeral, Numeral.digits])
  · constructor <;> simp [numeral, hhead, hlength]

theorem exists_inner_point {places : ℕ} (hpos : 0 < places) (hplaces : places ≤ 16)
    (hlt : places < digits.length) : ∃ numeral : Numeral,
    numeral.chars = digits.take places ++ '.' :: digits.drop places ∧
      numeral.significant = digits ∧ numeral.IsPlain ∧ numeral.fraction ≠ none := by
  have hne : digits.take places ≠ [] := by
    apply List.ne_nil_of_length_pos
    rw [List.length_take]
    omega
  let numeral : Numeral :=
    { whole := digits.take places
      fraction := some (digits.drop places)
      isDigit_whole := fun c hc => h.isDigit c (List.mem_of_mem_take hc)
      isDigit_fraction := fun c hc => h.isDigit c (List.mem_of_mem_drop hc)
      ne_nil := .inl hne }
  have hhead : BeginsNonzero (digits.take places) := by
    rw [BeginsNonzero, List.head?_take, if_neg (Nat.ne_of_gt hpos)]
    exact h.head
  have hlast : EndsNonzero (digits.drop places) := by
    rw [EndsNonzero, List.getLast?_drop, if_neg (Nat.not_le.2 hlt)]
    exact h.last
  refine ⟨numeral, by simp [numeral, Numeral.chars, Numeral.scaling], ?_, ?_, by simp [numeral]⟩
  · exact h.significant_eq 0 0 (by simp [numeral, Numeral.digits])
  · have hzero : digits.take places ≠ ['0'] := by
      intro hzero
      simp [hzero, BeginsNonzero] at hhead
    constructor <;> simp [numeral, hhead, hlast, hplaces, hzero]

end Forms

theorem beginsNonzero_toDigits {n : ℕ} (hn : n ≠ 0) : BeginsNonzero (Nat.toDigits 10 n) := by
  induction n using Nat.strongRecOn with
  | ind n ih =>
    rcases Nat.lt_or_ge n 10 with hlt | hge
    · rw [Nat.toDigits_of_lt_base hlt]
      exact ⟨_, rfl, mt Nat.digitChar_eq_zero.1 hn⟩
    · obtain ⟨first, hfirst, hne⟩ := ih (n / 10) (by omega) (by omega)
      refine ⟨first, ?_, hne⟩
      rw [Option.mem_def] at hfirst ⊢
      rw [Nat.toDigits_of_base_le (by decide) hge, List.head?_append, hfirst, Option.some_or]

theorem bare_toDigits {n : ℕ} (hten : n % 10 ≠ 0) : Bare (Nat.toDigits 10 n) := by
  have hlast : (Nat.toDigits 10 n).getLast? = some (n % 10).digitChar := by
    rcases Nat.lt_or_ge n 10 with hlt | hge
    · rw [Nat.toDigits_of_lt_base hlt, Nat.mod_eq_of_lt hlt]
      rfl
    · rw [Nat.toDigits_of_base_le (by decide) hge, List.getLast?_concat]
  constructor
  case isDigit => exact Decimal.isDigit_toDigits n
  case head => exact beginsNonzero_toDigits (by omega)
  case last => exact ⟨_, hlast, mt Nat.digitChar_eq_zero.1 hten⟩

def Exponent.ofInt (e : ℤ) : Exponent where
  mark := 'e'
  sign := .ofNegative (e < 0)
  digits := Nat.toDigits 10 e.natAbs
  isMark := .inl rfl
  isDigit := Decimal.isDigit_toDigits _
  ne_nil := Nat.toDigits_ne_nil

theorem Exponent.chars_ofInt (e : ℤ) : (ofInt e).chars = 'e' :: (toString e).toList := by
  rw [chars, ofInt, Sign.chars_ofNegative_append, Int.toString_eq_repr, Int.repr_eq_if]
  by_cases hneg : e < 0
  · have hnot : ¬0 ≤ e := not_le.2 hneg
    have habs : (-e).toNat = e.natAbs := by omega
    rw [if_neg hnot, String.toList_append, Nat.toList_repr, habs, decide_eq_true hneg]
    rfl
  · have hnonneg : 0 ≤ e := not_lt.1 hneg
    have habs : e.toNat = e.natAbs := by omega
    rw [if_pos hnonneg, Nat.toList_repr, habs, decide_eq_false hneg]
    rfl

theorem Exponent.value_ofInt (e : ℤ) : (ofInt e).value = e := by
  simp only [value, ofInt, Sign.isMinus_ofNegative, Nat.ofDigitChars_ten_toDigits,
    decide_eq_true_eq]
  split <;> omega

theorem exists_scientific {digits : List Char} (h : Bare digits) {lead : ℤ}
    (hbeyond : 16 ≤ lead ∨ lead ≤ -7) : ∃ numeral : Numeral,
    numeral.chars = Layout.scientific digits lead ∧ numeral.significant = digits ∧
      numeral.IsScientific ∧ numeral.exponentValue = lead := by
  have hexponent := Exponent.chars_ofInt lead
  have hvalue := Exponent.value_ofInt lead
  have hform : (Exponent.ofInt lead).mark = 'e' ∧ (Exponent.ofInt lead).sign ≠ .plus ∧
      BeginsNonzero (Exponent.ofInt lead).digits :=
    ⟨rfl, Sign.ofNegative_ne_plus _, beginsNonzero_toDigits (by omega)⟩
  match digits with
  | [] => exact absurd rfl h.ne_nil
  | [first] =>
    let numeral : Numeral :=
      { whole := [first]
        exponent := some (.ofInt lead)
        isDigit_whole := h.isDigit
        isDigit_fraction := by simp
        ne_nil := .inl (by simp) }
    refine ⟨numeral, ?_, h.significant_eq 0 0 rfl, ?_, hvalue⟩
    · simp [numeral, Numeral.chars, Numeral.scaling, Layout.scientific, hexponent]
    · constructor <;> simp [numeral, Numeral.exponentValue, h.head, hform, hvalue, hbeyond]
  | first :: second :: others =>
    obtain ⟨hdigit, hothers⟩ := List.forall_mem_cons.1 h.isDigit
    let numeral : Numeral :=
      { whole := [first]
        fraction := some (second :: others)
        exponent := some (.ofInt lead)
        isDigit_whole := by simpa using hdigit
        isDigit_fraction := hothers
        ne_nil := .inl (by simp) }
    have hfirst : BeginsNonzero [first] := h.head
    have hfraction : EndsNonzero (second :: others) := by
      rw [EndsNonzero, ← List.getLast?_cons_cons]
      exact h.last
    refine ⟨numeral, ?_, ?_, ?_, hvalue⟩
    · simp [numeral, Numeral.chars, Numeral.scaling, Layout.scientific, hexponent]
    · exact h.significant_eq 0 0 (by simp [numeral, Numeral.digits])
    · constructor <;>
        simp [numeral, Numeral.exponentValue, hfirst, hfraction, hform, hvalue, hbeyond]

end Literal

namespace Decimal

open Binary64 Literal

/-- The power of ten of the first digit. -/
def lead (d : Decimal) : ℤ := d.exponent + d.digitCount - 1

theorem trim_coefficient_mod (d : Decimal) :
    d.trim.coefficient % 10 ≠ 0 ∨ d.trim = ⟨0, 0⟩ := by
  fun_induction trim d with
  | case1 => exact .inr rfl
  | case2 d hzero hten ih => exact ih
  | case3 d hzero hten => exact .inl hten

/-- A numeral that a decimal is written as. -/
structure WrittenAs (d : Decimal) (numeral : Numeral) : Prop where
  chars : Layout.result.magnitude d = numeral.chars
  value : numeral.value = d.value
  significant : d.coefficient ≠ 0 → numeral.significant = Nat.toDigits 10 d.coefficient
  plain : -6 ≤ d.lead → d.lead < 16 →
    numeral.IsPlain ∧ (numeral.fraction = none ↔ 0 ≤ d.exponent)
  scientific : ¬(-6 ≤ d.lead ∧ d.lead < 16) → numeral.IsScientific

variable {d : Decimal} {numeral : Numeral}

theorem magnitude_result (d : Decimal) : Layout.result.magnitude d =
    if -6 ≤ d.lead ∧ d.lead < 16 then
      Layout.result.positional (Nat.toDigits 10 d.coefficient) d.lead
    else Layout.scientific (Nat.toDigits 10 d.coefficient) d.lead := rfl

/-- A numeral with the text of a decimal denotes it. -/
theorem value_of_chars {low high : ℤ} (hspans : d.Spans low high) (hlow : -65536 < low)
    (hhigh : high ≤ 65536) (hchars : Layout.result.magnitude d = numeral.chars)
    (hexponent : numeral.exponentValue.natAbs < 65536) : numeral.value = d.value := by
  obtain ⟨d', htext, hvalue⟩ := ofText?_magnitude Layout.endsWhole_result hspans hlow hhigh
  rw [hchars, numeral.ofText?_chars (Numeral.exponent?_scaling hexponent)] at htext
  rw [← hvalue, ← Option.some.inj htext, Numeral.value]

theorem exists_positional (h : Bare (Nat.toDigits 10 d.coefficient)) (hfrom : -6 ≤ d.lead)
    (hto : d.lead < 16) : ∃ numeral : Numeral,
    Layout.result.positional (Nat.toDigits 10 d.coefficient) d.lead = numeral.chars ∧
      numeral.significant = Nat.toDigits 10 d.coefficient ∧ numeral.IsPlain ∧
      (numeral.fraction = none ↔ 0 ≤ d.exponent) := by
  have hcount := d.digitCount_pos
  have hlead : d.lead = d.exponent + d.digitCount - 1 := rfl
  rw [Layout.positional]
  split
  · obtain ⟨numeral, hchars, hsignificant, hplain, hfraction⟩ :=
      exists_leading_zeros h (show (-d.lead - 1).toNat ≤ 5 by omega)
    refine ⟨numeral, hchars.symm, hsignificant, hplain, iff_of_false hfraction ?_⟩
    omega
  · dsimp only
    split
    · next hplaces =>
      have hplaces' : d.digitCount ≤ d.lead.toNat + 1 := hplaces
      have hlength : d.digitCount + (d.lead.toNat + 1 - d.digitCount) ≤ 16 := by omega
      obtain ⟨numeral, hchars, hsignificant, hplain, hfraction⟩ := exists_trailing_zeros h hlength
      refine ⟨numeral, ?_, hsignificant, hplain, iff_of_true hfraction (by omega)⟩
      rw [hchars]
      exact List.append_nil _
    · next hplaces =>
      have hplaces' : ¬d.digitCount ≤ d.lead.toNat + 1 := hplaces
      obtain ⟨numeral, hchars, hsignificant, hplain, hfraction⟩ :=
        exists_inner_point h (Nat.succ_pos d.lead.toNat) (by omega) (Nat.not_le.1 hplaces)
      exact ⟨numeral, hchars.symm, hsignificant, hplain, iff_of_false hfraction (by omega)⟩

theorem exists_writtenAs (hten : d.coefficient % 10 ≠ 0) {low high : ℤ}
    (hspans : d.Spans low high) (hlow : -65536 < low) (hhigh : high ≤ 65536) :
    ∃ numeral, d.WrittenAs numeral := by
  have hbare := bare_toDigits hten
  have hmagnitude := d.magnitude_result
  by_cases hrange : -6 ≤ d.lead ∧ d.lead < 16
  · obtain ⟨numeral, hchars, hsignificant, hplain, hfraction⟩ :=
      exists_positional hbare hrange.1 hrange.2
    rw [if_pos hrange, hchars] at hmagnitude
    refine ⟨numeral, hmagnitude, value_of_chars hspans hlow hhigh hmagnitude ?_,
      fun _ => hsignificant, fun _ _ => ⟨hplain, hfraction⟩, fun hnot => absurd hrange hnot⟩
    rw [Numeral.exponentValue, hplain.exponent]
    decide
  · obtain ⟨numeral, hchars, hsignificant, hscientific, hexponent⟩ :=
      exists_scientific hbare (show 16 ≤ d.lead ∨ d.lead ≤ -7 by omega)
    rw [if_neg hrange, ← hchars] at hmagnitude
    refine ⟨numeral, hmagnitude, value_of_chars hspans hlow hhigh hmagnitude ?_,
      fun _ => hsignificant, fun hfrom hto => absurd ⟨hfrom, hto⟩ hrange, fun _ => hscientific⟩
    have hlength : (0 : ℤ) < d.digitCount := Nat.cast_pos.2 d.digitCount_pos
    obtain ⟨hfrom, hto⟩ := hspans
    rw [hexponent, lead]
    unfold digitCount at *
    omega

theorem exists_writtenAs_zero : ∃ numeral, WrittenAs ⟨0, 0⟩ numeral := by
  let numeral : Numeral :=
    { whole := ['0']
      isDigit_whole := by simp
      isDigit_fraction := by simp
      ne_nil := .inl (by simp) }
  have hspans : Spans ⟨0, 0⟩ 0 1 := ⟨le_refl 0, by decide⟩
  refine ⟨numeral, ?_⟩
  constructor
  case chars => rfl
  case value => exact value_of_chars hspans (by decide) (by decide) rfl (by decide)
  case significant => exact fun hne => absurd rfl hne
  case plain =>
    refine fun _ _ => ⟨?_, by simp [numeral]⟩
    constructor <;> simp [numeral]
  case scientific => exact fun hnot => absurd (by decide) hnot

/-- The shortest decimal of a finite magnitude is written as a numeral. -/
theorem exists_writtenAs_shortest {rank : ℕ} (h : rank < rankCount) :
    ∃ numeral, (shortest rank).WrittenAs numeral := by
  have hspans := spans_shortest h
  rcases trim_coefficient_mod
    (shortestFrom rank (ofRank rank) ((Nat.toDigits 10 (ofRank rank).coefficient).length - 1))
    with hten | hzero
  · exact exists_writtenAs hten hspans (by decide) (by decide)
  · rw [shortest, hzero]
    exact exists_writtenAs_zero

end Decimal

end ReversePolish
