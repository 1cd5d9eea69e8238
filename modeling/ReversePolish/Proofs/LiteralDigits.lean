import ReversePolish.Decimal.Literal

/-!
# Literals in digits

What a literal in digits denotes once it has been taken apart: the digits before the point, those
after it, and what follows them.
-/

namespace ReversePolish.Decimal

theorem le_ofDigitChars (digits : List Char) (value : Nat) :
    value ≤ Nat.ofDigitChars 10 digits value := by
  induction digits generalizing value with
  | nil => exact Nat.le_refl _
  | cons c digits ih =>
    rw [Nat.ofDigitChars_cons]
    have hmore := ih (10 * value + (c.toNat - '0'.toNat))
    omega

/-- An exponent is cut short only if it is large. -/
theorem exponentOfDigits_eq {digits : List Char} (h : Nat.ofDigitChars 10 digits 0 < 65536) :
    exponentOfDigits digits = Nat.ofDigitChars 10 digits 0 := by
  have hfrom : ∀ value, Nat.ofDigitChars 10 digits value < 65536 →
      digits.foldl (fun e c => if e < 65536 then 10 * e + (c.toNat - '0'.toNat) else e) value =
        Nat.ofDigitChars 10 digits value := by
    clear h
    induction digits with
    | nil => exact fun value _ => Nat.ofDigitChars_nil.symm
    | cons c digits ih =>
      intro value h
      have hvalue := Nat.lt_of_le_of_lt (le_ofDigitChars (c :: digits) value) h
      rw [Nat.ofDigitChars_cons] at h ⊢
      rw [List.foldl_cons, if_pos hvalue]
      exact ih _ h
  exact hfrom 0 h

@[simp] theorem exponent?_nil : exponent? [] = some 0 := rfl

/-- What follows the digits of a literal begins with no digit and no point. -/
theorem ending_of_exponent? {ending : List Char} {e : Int} (h : exponent? ending = some e) :
    ending = [] ∨ ∃ mark text, ending = mark :: text ∧ (mark = 'e' ∨ mark = 'E') := by
  match ending with
  | [] => exact .inl rfl
  | mark :: text =>
    refine .inr ⟨mark, text, rfl, ?_⟩
    simp only [exponent?] at h
    split at h
    · next hmark => exact hmark.1
    · simp at h

section Parts

variable {ending : List Char} {e : Int}

theorem takeWhile_ending (h : exponent? ending = some e) : ending.takeWhile Char.isDigit = [] := by
  rcases ending_of_exponent? h with rfl | ⟨mark, text, rfl, rfl | rfl⟩ <;> rfl

theorem dropWhile_ending (h : exponent? ending = some e) :
    ending.dropWhile Char.isDigit = ending := by
  rcases ending_of_exponent? h with rfl | ⟨mark, text, rfl, rfl | rfl⟩ <;> rfl

theorem splitFraction_ending (h : exponent? ending = some e) :
    splitFraction ending = ([], ending) := by
  rcases ending_of_exponent? h with rfl | ⟨mark, text, rfl, rfl | rfl⟩ <;> rfl

theorem ofText?_whole {whole : List Char} (hne : whole ≠ []) (hwhole : ∀ c ∈ whole, c.isDigit)
    (hending : exponent? ending = some e) :
    ofText? (whole ++ ending) = some ⟨Nat.ofDigitChars 10 whole 0, e⟩ := by
  have htake : (whole ++ ending).takeWhile Char.isDigit = whole := by
    rw [List.takeWhile_append_of_pos hwhole, takeWhile_ending hending, List.append_nil]
  have hdrop : (whole ++ ending).dropWhile Char.isDigit = ending := by
    rw [List.dropWhile_append_of_pos hwhole, dropWhile_ending hending]
  simp [ofText?, htake, hdrop, splitFraction_ending hending, hne, hending]

theorem ofText?_point (whole fraction : List Char) (hne : whole ≠ [] ∨ fraction ≠ [])
    (hwhole : ∀ c ∈ whole, c.isDigit) (hfraction : ∀ c ∈ fraction, c.isDigit)
    (hending : exponent? ending = some e) :
    ofText? (whole ++ '.' :: (fraction ++ ending)) =
      some ⟨Nat.ofDigitChars 10 (whole ++ fraction) 0, e - fraction.length⟩ := by
  have htake : (whole ++ '.' :: (fraction ++ ending)).takeWhile Char.isDigit = whole := by
    rw [List.takeWhile_append_of_pos hwhole, List.takeWhile_cons_of_neg (by decide),
      List.append_nil]
  have hdrop : (whole ++ '.' :: (fraction ++ ending)).dropWhile Char.isDigit =
      '.' :: (fraction ++ ending) := by
    rw [List.dropWhile_append_of_pos hwhole, List.dropWhile_cons_of_neg (by decide)]
  have hsplit : splitFraction ('.' :: (fraction ++ ending)) = (fraction, ending) := by
    rw [splitFraction, List.takeWhile_append_of_pos hfraction, takeWhile_ending hending,
      List.append_nil, List.dropWhile_append_of_pos hfraction, dropWhile_ending hending]
  have hsome : ¬(whole = [] ∧ fraction = []) := fun h => hne.elim (· h.1) (· h.2)
  simp [ofText?, htake, hdrop, hsplit, hsome, hending]

end Parts

theorem isDigit_toDigits (n : Nat) : ∀ c ∈ Nat.toDigits 10 n, c.isDigit :=
  fun _ hc => Nat.isDigit_of_mem_toDigits (by decide) (by decide) hc

theorem splitSign_of_ne {first : Char} (hminus : first ≠ '-') (hplus : first ≠ '+')
    (text : List Char) : splitSign (first :: text) = (false, first :: text) := by
  unfold splitSign
  split
  · next h => exact absurd (List.cons.inj h).1 hminus
  · next h => exact absurd (List.cons.inj h).1 hplus
  · rfl

theorem splitSign_of_isDigit {first : Char} (hfirst : first.isDigit) (text : List Char) :
    splitSign (first :: text) = (false, first :: text) := by
  apply splitSign_of_ne
  · rintro rfl
    exact absurd hfirst (by decide)
  · rintro rfl
    exact absurd hfirst (by decide)

theorem splitSign_toDigits (n : Nat) :
    splitSign (Nat.toDigits 10 n) = (false, Nat.toDigits 10 n) := by
  obtain ⟨first, digits, h⟩ := List.exists_cons_of_ne_nil (Nat.toDigits_ne_nil (n := n) (b := 10))
  have hfirst : first.isDigit := by
    apply isDigit_toDigits n
    rw [h]
    exact List.mem_cons_self
  rw [h]
  exact splitSign_of_isDigit hfirst digits

theorem exponent?_toString {e : Int} (h : e.natAbs < 65536) :
    exponent? ('e' :: (toString e).toList) = some e := by
  have hread : exponentOfDigits (Nat.toDigits 10 e.natAbs) = e.natAbs := by
    rw [exponentOfDigits_eq] <;> rw [Nat.ofDigitChars_ten_toDigits]
    exact h
  have hall : (Nat.toDigits 10 e.natAbs).all Char.isDigit = true :=
    List.all_eq_true.2 (isDigit_toDigits _)
  have hne : Nat.toDigits 10 e.natAbs ≠ [] := Nat.toDigits_ne_nil
  have hmark : ∀ text negative, splitSign text = (negative, Nat.toDigits 10 e.natAbs) →
      exponent? ('e' :: text) = some (if negative then -(e.natAbs : Int) else e.natAbs) := by
    intro text negative hsplit
    simp [exponent?, hsplit, hne, hall, hread]
  rw [Int.toString_eq_repr, Int.repr_eq_if]
  split
  · next hpos =>
    have habs : e.toNat = e.natAbs := by omega
    rw [Nat.toList_repr, habs, hmark _ false (splitSign_toDigits _)]
    exact congrArg some (show (e.natAbs : Int) = e by omega)
  · next hneg =>
    have habs : (-e).toNat = e.natAbs := by omega
    rw [String.toList_append, Nat.toList_repr, habs]
    exact (hmark _ true rfl).trans (congrArg some (show -(e.natAbs : Int) = e by omega))

end ReversePolish.Decimal
