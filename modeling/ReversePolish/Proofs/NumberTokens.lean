import ReversePolish.Proofs.FirstToken
import ReversePolish.Proofs.LiteralGrammar
import ReversePolish.Proofs.TokensAhead

/-!
# Number tokens

A number token is made of digits and at most one point after the first of them. Every such text is a
literal, so a number that a reader delivers always has a value.
-/

namespace ReversePolish

/-- Digits, with or without a point after them, are a numeral with digits before the point and
without an exponent. -/
theorem isNumeral_iff {front : List Char} : IsNumeral front ↔
    ∃ numeral : Literal.Numeral,
      numeral.whole ≠ [] ∧ numeral.exponent = none ∧ numeral.chars = front := by
  constructor
  · rintro ⟨whole, hne, hwhole, rfl | ⟨fraction, hfraction, rfl⟩⟩
    · exact ⟨⟨front, none, none, hwhole, by simp, .inl hne⟩, hne, rfl, List.append_nil _⟩
    · refine ⟨⟨whole, some fraction, none, hwhole, hfraction, .inl hne⟩, hne, rfl, ?_⟩
      simp [Literal.Numeral.chars, Literal.Numeral.scaling]
  · rintro ⟨numeral, hne, hexponent, rfl⟩
    refine ⟨numeral.whole, hne, numeral.isDigit_whole, ?_⟩
    have hfraction := numeral.isDigit_fraction
    rw [Literal.Numeral.chars, Literal.Numeral.scaling, hexponent]
    cases hpoint : numeral.fraction with
    | none => exact .inl (List.append_nil _)
    | some fraction =>
      rw [hpoint] at hfraction
      exact .inr ⟨fraction, hfraction, by simp⟩

theorem IsNumeral.exists_value {front : List Char} (h : IsNumeral front) :
    ∃ value, Binary64.read? (String.ofList front) = some value := by
  obtain ⟨numeral, -, -, rfl⟩ := isNumeral_iff.1 h
  exact Binary64.exists_read?_of_isLiteral (.numeral .absent numeral)

/-- A number token has a value; the text of any other token need not be a literal. -/
def Token.Readable (token : Token) : Prop :=
  token.kind = .number → ∃ value, Binary64.read? token.text = some value

theorem Token.Kind.ofSymbol_ne_number (c : Char) : ofSymbol c ≠ .number := by
  unfold ofSymbol
  split <;> simp

theorem BeginsWith.readable {text : List Char} {token : Token} (h : BeginsWith text token) :
    token.Readable := by
  intro hkind
  cases h with
  | number digit munch => exact munch.form.exists_value
  | name noDigit letter munch => simp at hkind
  | symbol => exact absurd hkind (Token.Kind.ofSymbol_ne_number _)

theorem Line.readable_of_next? {line line' : Line} {token : Token}
    (h : line.next? = some (token, line')) : token.Readable := by
  obtain ⟨text, hbegins⟩ := beginsWith_of_next? h
  exact hbegins.readable

theorem Reader.readable_of_next {σ : Type} [Sink σ] {reader reader' : Reader σ} {token : Token}
    (h : reader.next = (.ok token, reader')) : token.Readable := by
  obtain ⟨line, line', hline⟩ := line_of_next h
  exact Line.readable_of_next? hline

end ReversePolish
