import ReversePolish.Line
import Mathlib.Data.List.TakeWhile

/-!
# The first token of a text

What the first token of a text is, without a word on how it is found. A number or a name is the
longest of the fronts of the text that have its form, and every other character that is not blank
is a token by itself. A text has at most one first token, and it has none only if it is blank. The
scanner of a line finds it, and a newline at the end of the line keeps the token within the line
whatever text comes after.
-/

namespace ReversePolish

/-- Digits, or digits and a point and any further digits. -/
def IsNumeral (front : List Char) : Prop :=
  ∃ whole, whole ≠ [] ∧ (∀ c ∈ whole, c.isDigit) ∧
    (front = whole ∨ ∃ fraction, (∀ c ∈ fraction, c.isDigit) ∧ front = whole ++ '.' :: fraction)

/-- A letter, and any letters, digits and underscores after it. -/
def IsName (front : List Char) : Prop :=
  ∃ first others, front = first :: others ∧ isLetter first ∧
    ∀ c ∈ others, isLetter c ∨ c.isDigit ∨ c = '_'

theorem isName_cons_iff {first : Char} {others : List Char} :
    IsName (first :: others) ↔ isLetter first ∧ others.all Token.isNameChar := by
  constructor
  · rintro ⟨first', others', heq, hfirst, hothers⟩
    obtain ⟨rfl, rfl⟩ := List.cons.inj heq
    exact ⟨hfirst, by simpa [Token.isNameChar, or_assoc] using hothers⟩
  · rintro ⟨hfirst, hothers⟩
    exact ⟨first, others, rfl, hfirst, by simpa [Token.isNameChar, or_assoc] using hothers⟩

instance : DecidablePred IsName
  | [] => .isFalse (by simp [IsName])
  | _ :: _ => decidable_of_iff _ isName_cons_iff.symm

/-- The longest of the fronts of a text that have a given form. -/
structure LongestFront (Form : List Char → Prop) (text front : List Char) : Prop where
  begins : front <+: text
  form : Form front
  longest : ∀ other, other <+: text → Form other → other.length ≤ front.length

/-- The token that a text begins with if it does not begin with a blank. -/
inductive BeginsWith : List Char → Token → Prop
  | number {first others front} (digit : first.isDigit)
      (munch : LongestFront IsNumeral (first :: others) front) :
      BeginsWith (first :: others) ⟨.number, String.ofList front⟩
  | name {first others front} (noDigit : ¬first.isDigit) (letter : isLetter first)
      (munch : LongestFront IsName (first :: others) front) :
      BeginsWith (first :: others) ⟨.identifier, String.ofList front⟩
  | symbol {first others} (noDigit : ¬first.isDigit) (noLetter : ¬isLetter first) :
      BeginsWith (first :: others) ⟨.ofSymbol first, String.ofList [first]⟩

/-- A text cut into blanks, its first token and the rest. -/
structure FirstToken (text blanks : List Char) (token : Token) (rest : List Char) : Prop where
  split : text = blanks ++ (token.text.toList ++ rest)
  blank : ∀ c ∈ blanks, isBlank c
  visible : ∃ first others, token.text.toList ++ rest = first :: others ∧ ¬isBlank first
  begins : BeginsWith (token.text.toList ++ rest) token

namespace LongestFront

theorem unique {Form : List Char → Prop} {text front front' : List Char}
    (h : LongestFront Form text front) (h' : LongestFront Form text front') : front = front' := by
  have hle := h.longest front' h'.begins h'.form
  have hge := h'.longest front h.begins h.form
  exact (List.prefix_of_prefix_length_le h.begins h'.begins hge).eq_of_length_le hle

end LongestFront

theorem length_le_takeWhile {α : Type} {p : α → Bool} {text front : List α}
    (hfront : front <+: text) (hp : ∀ c ∈ front, p c) :
    front.length ≤ (text.takeWhile p).length := by
  obtain ⟨rest, rfl⟩ := hfront
  rw [List.takeWhile_append_of_pos hp, List.length_append]
  exact Nat.le_add_right _ _

namespace Token

private theorem digits_before_point {text whole fraction : List Char}
    (hfront : whole ++ '.' :: fraction <+: text) (hwhole : ∀ c ∈ whole, c.isDigit) :
    text.takeWhile Char.isDigit = whole ∧ ∃ rest, text.dropWhile Char.isDigit = '.' :: rest ∧
      fraction <+: rest := by
  obtain ⟨rest, rfl⟩ := hfront
  rw [List.append_assoc, List.takeWhile_append_of_pos hwhole, List.dropWhile_append_of_pos hwhole]
  exact ⟨by simp, fraction ++ rest, by simp, List.prefix_append fraction rest⟩

/-- The number that scanning splits off is the longest one. -/
theorem longestFront_splitNumber {first : Char} (hfirst : first.isDigit) (others : List Char) :
    LongestFront IsNumeral (first :: others) (splitNumber (first :: others)).1 := by
  have hwhole : ∀ c ∈ (first :: others).takeWhile Char.isDigit, c.isDigit := fun c hc =>
    List.mem_takeWhile_imp hc
  have hne : (first :: others).takeWhile Char.isDigit ≠ [] := by simp [hfirst]
  refine ⟨⟨_, splitNumber_append _⟩, ?_, ?_⟩
  · refine ⟨_, hne, hwhole, ?_⟩
    unfold splitNumber
    split
    · exact .inr ⟨_, fun c hc => List.mem_takeWhile_imp hc, rfl⟩
    · exact .inl rfl
  · rintro other hother ⟨whole, -, hdigits, rfl | ⟨fraction, hfraction, rfl⟩⟩
    · have hle := length_le_takeWhile hother hdigits
      unfold splitNumber
      split
      · rw [List.length_append]
        omega
      · exact hle
    · obtain ⟨hwhole', rest, hrest, hfront⟩ := digits_before_point hother hdigits
      have hle := length_le_takeWhile hfront hfraction
      simp only [splitNumber, hrest, hwhole', List.length_append, List.length_cons]
      omega

/-- The name that scanning splits off is the longest one. -/
theorem longestFront_name {first : Char} (hfirst : isLetter first) (others : List Char) :
    LongestFront IsName (first :: others) (first :: others.takeWhile isNameChar) := by
  refine ⟨?_, isName_cons_iff.2 ⟨hfirst, List.all_takeWhile⟩, ?_⟩
  · exact List.prefix_cons_inj first |>.2 (List.takeWhile_prefix _)
  · intro other hother hname
    obtain ⟨first', others', rfl, -⟩ := id hname
    obtain ⟨-, hfront⟩ := List.cons_prefix_cons.1 hother
    simpa using length_le_takeWhile hfront (List.all_eq_true.1 (isName_cons_iff.1 hname).2)

theorem lexeme_of_digit {first : Char} (h : first.isDigit) (others : List Char) :
    lexeme first others =
      ⟨.number, (splitNumber (first :: others)).1, (splitNumber (first :: others)).2⟩ :=
  if_pos h

theorem lexeme_of_letter {first : Char} (hdigit : ¬first.isDigit) (h : isLetter first)
    (others : List Char) :
    lexeme first others =
      ⟨.identifier, first :: others.takeWhile isNameChar, others.dropWhile isNameChar⟩ := by
  rw [lexeme, if_neg hdigit, if_pos h]

theorem lexeme_of_symbol {first : Char} (hdigit : ¬first.isDigit) (hletter : ¬isLetter first)
    (others : List Char) : lexeme first others = ⟨.ofSymbol first, [first], others⟩ := by
  rw [lexeme, if_neg hdigit, if_neg hletter]

/-- What a lexeme stands for is the token that the text begins with. -/
theorem beginsWith_lexeme (first : Char) (others : List Char) :
    BeginsWith (first :: others) (lexeme first others).token := by
  rw [lexeme]
  split
  · next hdigit => exact .number hdigit (longestFront_splitNumber hdigit others)
  · next hdigit =>
    split
    · next hletter => exact .name hdigit hletter (longestFront_name hletter others)
    · next hletter => exact .symbol hdigit hletter

end Token

theorem Token.Kind.ofSymbol_ne_identifier (c : Char) : ofSymbol c ≠ .identifier := by
  unfold ofSymbol
  split <;> simp

theorem BeginsWith.isName {text : List Char} {token : Token} (h : BeginsWith text token)
    (hkind : token.kind = .identifier) : IsName token.text.toList := by
  cases h with
  | number => simp at hkind
  | name noDigit letter munch => simpa using munch.form
  | symbol => exact absurd hkind (Token.Kind.ofSymbol_ne_identifier _)

theorem BeginsWith.unique {text : List Char} {token token' : Token} (h : BeginsWith text token)
    (h' : BeginsWith text token') : token = token' := by
  cases h with
  | number digit munch =>
    cases h' with
    | number _ munch' => rw [munch.unique munch']
    | name noDigit => exact absurd digit noDigit
    | symbol noDigit => exact absurd digit noDigit
  | name noDigit letter munch =>
    cases h' with
    | number digit => exact absurd digit noDigit
    | name _ _ munch' => rw [munch.unique munch']
    | symbol _ noLetter => exact absurd letter noLetter
  | symbol noDigit noLetter =>
    cases h' with
    | number digit => exact absurd digit noDigit
    | name _ letter => exact absurd letter noLetter
    | symbol => rfl

private theorem letterRanges_apart : ∀ letters ∈ letterRanges, ∀ blanks ∈ blankRanges,
    letters.2 < blanks.1 ∨ blanks.2 < letters.1 := by decide +kernel

theorem not_isBlank_of_isLetter {c : Char} (h : isLetter c) : ¬isBlank c := by
  intro hblank
  simp only [isLetter, isBlank, List.any_eq_true, Bool.and_eq_true, decide_eq_true_eq] at h hblank
  obtain ⟨letters, hletters, hlow, hhigh⟩ := h
  obtain ⟨blanks, hblanks, hlow', hhigh'⟩ := hblank
  have hapart := letterRanges_apart letters hletters blanks hblanks
  omega

theorem not_isBlank_of_isDigit {c : Char} (h : c.isDigit) : ¬isBlank c := by
  have hrange : 48 ≤ c.toNat ∧ c.toNat ≤ 57 := by
    simpa [Char.isDigit, UInt32.le_iff_toNat_le] using h
  intro hblank
  simp only [isBlank, blankRanges, List.any_cons, List.any_nil, Bool.or_eq_true, Bool.and_eq_true,
    decide_eq_true_eq, Bool.false_eq_true, or_false] at hblank
  omega

private theorem letterRanges_no_digit :
    ∀ letters ∈ letterRanges, letters.2 < 48 ∨ 57 < letters.1 := by
  decide +kernel

theorem not_isDigit_of_isLetter {c : Char} (h : isLetter c) : ¬c.isDigit := by
  intro hdigit
  have hrange : 48 ≤ c.toNat ∧ c.toNat ≤ 57 := by
    simpa [Char.isDigit, UInt32.le_iff_toNat_le] using hdigit
  simp only [isLetter, List.any_eq_true, Bool.and_eq_true, decide_eq_true_eq] at h
  obtain ⟨letters, hletters, hlow, hhigh⟩ := h
  have hapart := letterRanges_no_digit letters hletters
  omega

theorem IsNumeral.visible {front : List Char} (h : IsNumeral front) : ∀ c ∈ front, ¬isBlank c := by
  obtain ⟨whole, -, hwhole, rfl | ⟨fraction, hfraction, rfl⟩⟩ := h
  · exact fun c hc => not_isBlank_of_isDigit (hwhole c hc)
  · intro c hc
    rcases List.mem_append.1 hc with hc | hc
    · exact not_isBlank_of_isDigit (hwhole c hc)
    · rcases List.mem_cons.1 hc with rfl | hc
      · decide
      · exact not_isBlank_of_isDigit (hfraction c hc)

theorem IsName.visible {front : List Char} (h : IsName front) : ∀ c ∈ front, ¬isBlank c := by
  obtain ⟨first, others, rfl, hfirst, hothers⟩ := h
  intro c hc
  rcases List.mem_cons.1 hc with rfl | hc
  · exact not_isBlank_of_isLetter hfirst
  · rcases hothers c hc with hletter | hdigit | rfl
    · exact not_isBlank_of_isLetter hletter
    · exact not_isBlank_of_isDigit hdigit
    · decide

namespace FirstToken

variable {text blanks blanks' rest rest' : List Char} {token token' : Token}

private theorem dropWhile_text (h : FirstToken text blanks token rest) :
    text.dropWhile isBlank = token.text.toList ++ rest := by
  obtain ⟨first, others, hfirst, hvisible⟩ := h.visible
  rw [h.split, List.dropWhile_append_of_pos h.blank, hfirst, List.dropWhile_cons_of_neg hvisible]

/-- A text has at most one first token. -/
theorem unique (h : FirstToken text blanks token rest) (h' : FirstToken text blanks' token' rest') :
    blanks = blanks' ∧ token = token' ∧ rest = rest' := by
  have htail := h.dropWhile_text.symm.trans h'.dropWhile_text
  have htoken : token = token' := h.begins.unique (htail ▸ h'.begins)
  subst htoken
  refine ⟨?_, rfl, List.append_cancel_left htail⟩
  have hsplit := h.split.symm.trans h'.split
  rw [htail] at hsplit
  exact List.append_cancel_right hsplit

theorem not_blank (h : FirstToken text blanks token rest) : ¬∀ c ∈ text, isBlank c := by
  intro hblank
  obtain ⟨first, others, hfirst, hvisible⟩ := h.visible
  apply hvisible
  apply hblank
  rw [h.split, hfirst]
  simp

theorem token_visible (h : FirstToken text blanks token rest) :
    ∀ c ∈ token.text.toList, ¬isBlank c := by
  obtain ⟨first, others, hfirst, hvisible⟩ := h.visible
  have hbegins := h.begins
  rw [hfirst] at hbegins
  cases hbegins with
  | number _ munch => simpa using munch.form.visible
  | name _ _ munch => simpa using munch.form.visible
  | symbol => simpa using hvisible

theorem append_blanks {front : List Char} (hfront : ∀ c ∈ front, isBlank c)
    (h : FirstToken text blanks token rest) :
    FirstToken (front ++ text) (front ++ blanks) token rest where
  split := by rw [h.split, List.append_assoc]
  blank c hc := (List.mem_append.1 hc).elim (hfront c) (h.blank c)
  visible := h.visible
  begins := h.begins

end FirstToken

private theorem takeWhile_append_stop {α : Type} {p : α → Bool} {stop : α} (hstop : ¬p stop)
    (text more : List α) : (text ++ stop :: more).takeWhile p = text.takeWhile p := by
  induction text with
  | nil => simp [hstop]
  | cons c text ih => by_cases hc : p c <;> simp [hc, ih]

private theorem dropWhile_append_stop {α : Type} {p : α → Bool} {stop : α} (hstop : ¬p stop)
    (text more : List α) :
    (text ++ stop :: more).dropWhile p = text.dropWhile p ++ stop :: more := by
  induction text with
  | nil => simp [hstop]
  | cons c text ih => by_cases hc : p c <;> simp [hc, ih]

namespace Token

theorem not_isNameChar_of_isBlank {c : Char} (h : isBlank c) : ¬isNameChar c := by
  simp only [isNameChar, Bool.or_eq_true, beq_iff_eq]
  rintro ((hletter | hdigit) | rfl)
  · exact not_isBlank_of_isLetter hletter h
  · exact not_isBlank_of_isDigit hdigit h
  · exact absurd h (by decide)

private theorem splitNumber_blank {blank : Char} (h : isBlank blank) (text more : List Char) :
    splitNumber (text ++ blank :: more) =
      ((splitNumber text).1, (splitNumber text).2 ++ blank :: more) := by
  have hstop : ¬blank.isDigit := fun hdigit => not_isBlank_of_isDigit hdigit h
  have hpoint : blank ≠ '.' := by
    rintro rfl
    exact absurd h (by decide)
  unfold splitNumber
  rw [takeWhile_append_stop hstop, dropWhile_append_stop hstop]
  cases text.dropWhile Char.isDigit with
  | nil => simp [hpoint]
  | cons c rest =>
    by_cases hc : c = '.'
    · subst hc
      simp [takeWhile_append_stop hstop, dropWhile_append_stop hstop]
    · simp [hc]

/-- A lexeme ends before the next blank, whatever comes after that. -/
theorem lexeme_blank {blank : Char} (h : isBlank blank) (first : Char) (others more : List Char) :
    lexeme first (others ++ blank :: more) =
      ⟨(lexeme first others).kind, (lexeme first others).chars,
        (lexeme first others).rest ++ blank :: more⟩ := by
  have hstop := not_isNameChar_of_isBlank h
  rw [lexeme, lexeme]
  split
  · rw [← List.cons_append, splitNumber_blank h]
  · split
    · rw [takeWhile_append_stop hstop, dropWhile_append_stop hstop]
    · rfl

end Token

namespace Line

theorem next?_eq_none_iff {line : Line} : line.next? = none ↔ ∀ c ∈ line.rest, isBlank c := by
  rw [← List.dropWhile_eq_nil_iff]
  unfold next?
  split
  · next hrest => simp [hrest]
  · next hrest => simp [hrest]

theorem beginsWith_of_next? {line line' : Line} {token : Token}
    (h : line.next? = some (token, line')) : ∃ text, BeginsWith text token := by
  unfold next? at h
  split at h
  · simp at h
  · next first others hrest =>
    obtain ⟨rfl, -⟩ := Prod.mk.inj (Option.some.inj h)
    exact ⟨_, Token.beginsWith_lexeme first others⟩

theorem isName_of_next? {line line' : Line} {token : Token}
    (h : line.next? = some (token, line')) (hkind : token.kind = .identifier) :
    IsName token.text.toList := by
  obtain ⟨text, hbegins⟩ := beginsWith_of_next? h
  exact hbegins.isName hkind

/-- The next token of a line that ends with a newline is the first token of the line and of every
text that begins with it, and the newline is left. -/
theorem firstToken_of_next? {line line' : Line} {token : Token}
    (hend : line.rest.getLast? = some '\n') (h : line.next? = some (token, line'))
    (more : List Char) :
    line'.rest.getLast? = some '\n' ∧
      ∃ blanks, FirstToken (line.rest ++ more) blanks token (line'.rest ++ more) := by
  unfold next? at h
  split at h
  · simp at h
  next first others hrest =>
  obtain ⟨rfl, rfl⟩ := Prod.mk.inj (Option.some.inj h)
  have hsplit := List.takeWhile_append_dropWhile (p := isBlank) (l := line.rest)
  rw [hrest] at hsplit
  have hvisible : ¬isBlank first := by
    have hnot := List.head?_dropWhile_not isBlank line.rest
    rw [hrest] at hnot
    simpa using hnot
  obtain ⟨front, rfl⟩ : ∃ front, others = front ++ ['\n'] := by
    rw [← hsplit, List.getLast?_append] at hend
    cases others with
    | nil =>
      obtain rfl : first = '\n' := by simpa using hend
      exact absurd (by decide) hvisible
    | cons second others => exact List.getLast?_eq_some_iff.1 (by simpa using hend)
  have htext : line.rest ++ more =
      line.rest.takeWhile isBlank ++ first :: (front ++ '\n' :: more) := by
    simpa using congrArg (· ++ more) hsplit.symm
  have happend := Token.lexeme_append first (front ++ '\n' :: more)
  have hbegins := Token.beginsWith_lexeme first (front ++ '\n' :: more)
  rw [Token.lexeme_blank (by decide)] at happend hbegins
  rw [Token.lexeme_blank (by decide), htext]
  refine ⟨by simp, line.rest.takeWhile isBlank, ?_, fun c hc => List.mem_takeWhile_imp hc, ?_, ?_⟩
  · simpa [Token.Lexeme.token] using happend.symm
  · exact ⟨first, front ++ '\n' :: more, by simpa [Token.Lexeme.token] using happend, hvisible⟩
  · simpa [Token.Lexeme.token, happend] using hbegins

end Line

end ReversePolish
