import ReversePolish.Proofs.LineTails
import ReversePolish.Proofs.SpacedText
import Mathlib.Logic.Equiv.Basic

/-!
# Renamed text

A renaming puts a name in the place of every name of a text and leaves everything else as it is. The
tokens keep their boundaries, since a name ends where no name can go on, and no number goes on with
a letter: so the tokens of the renamed text are those of the text, with the names among them
renamed.
-/

namespace ReversePolish

/-- Names for names: different ones for different ones, and exit words for exit words only. -/
structure Renaming where
  name : String → String
  isName : ∀ {n : String}, IsName n.toList → IsName (name n).toList
  injective : ∀ {n m : String}, IsName n.toList → IsName m.toList → name n = name m → n = m
  isExitWord : ∀ {n : String}, IsName n.toList → isExitWord (name n) = isExitWord n

private theorem span_append {α : Type} {p : α → Bool} (front rest : List α)
    (hfront : ∀ c ∈ front, p c) (hrest : ∀ c ∈ rest.head?, ¬p c) :
    (front ++ rest).takeWhile p = front ∧ (front ++ rest).dropWhile p = rest := by
  rw [List.takeWhile_append_of_pos hfront, List.dropWhile_append_of_pos hfront]
  cases rest with
  | nil => simp
  | cons c rest => simp [hrest c rfl]

private theorem head_dropWhile {α : Type} (p : α → Bool) (text : List α) :
    ∀ c ∈ (text.dropWhile p).head?, ¬p c := by
  intro c hc
  have hnot := List.head?_dropWhile_not p text
  rw [hc] at hnot
  simpa using hnot

theorem Token.head_splitNumber (text : List Char) :
    ∀ c ∈ (splitNumber text).2.head?, ¬c.isDigit := by
  unfold splitNumber
  split
  · exact head_dropWhile _ _
  · exact head_dropWhile _ text

theorem Token.splitNumber_append_rest (text rest : List Char)
    (hdigit : ∀ c ∈ rest.head?, ¬c.isDigit)
    (hpoint : '.' ∈ rest.head? → '.' ∈ (splitNumber text).2.head?) :
    splitNumber ((splitNumber text).1 ++ rest) = ((splitNumber text).1, rest) := by
  have hwhole : ∀ c ∈ text.takeWhile Char.isDigit, c.isDigit := fun c hc =>
    List.mem_takeWhile_imp hc
  by_cases hdrop : ∃ more, text.dropWhile Char.isDigit = '.' :: more
  · obtain ⟨more, hmore⟩ := hdrop
    have hfraction : ∀ c ∈ more.takeWhile Char.isDigit, c.isDigit := fun c hc =>
      List.mem_takeWhile_imp hc
    have hnumber : splitNumber text = (text.takeWhile Char.isDigit ++
        '.' :: more.takeWhile Char.isDigit, more.dropWhile Char.isDigit) := by
      simp [splitNumber, hmore]
    have hspan := span_append _ ('.' :: (more.takeWhile Char.isDigit ++ rest)) hwhole
      (by simp [Char.isDigit])
    have hspan' := span_append _ _ hfraction hdigit
    rw [hnumber, List.append_assoc, List.cons_append]
    simp only [splitNumber, hspan.1, hspan.2, hspan'.1, hspan'.2]
  · have hnumber : splitNumber text =
        (text.takeWhile Char.isDigit, text.dropWhile Char.isDigit) := by
      unfold splitNumber
      split
      · next more hmore => exact absurd ⟨more, hmore⟩ hdrop
      · rfl
    have hspan := span_append _ _ hwhole hdigit
    rw [hnumber] at hpoint ⊢
    simp only [splitNumber, hspan.1, hspan.2]
    cases rest with
    | nil => rfl
    | cons c rest =>
      have hc : c ≠ '.' := by
        rintro rfl
        obtain ⟨more, hmore⟩ := List.head?_eq_some_iff.1 (hpoint rfl)
        exact hdrop ⟨more, hmore⟩
      split
      · next heq => exact absurd (List.cons.inj heq).1 hc
      · rfl

theorem Token.exists_lexeme_chars (first : Char) (others : List Char) :
    ∃ chars, (lexeme first others).chars = first :: chars := by
  have happend := lexeme_append first others
  obtain ⟨c, chars, hchars⟩ := List.exists_cons_of_ne_nil (lexeme_chars_ne_nil first others)
  rw [hchars] at happend
  obtain ⟨rfl, -⟩ := List.cons.inj happend
  exact ⟨chars, hchars⟩

namespace Renaming

def swap (a b : String) (ha : IsName a.toList) (hb : IsName b.toList)
    (hword : ReversePolish.isExitWord a = ReversePolish.isExitWord b) : Renaming where
  name := Equiv.swap a b
  isName {n} hn := by
    rw [Equiv.swap_apply_def]
    split_ifs
    · exact hb
    · exact ha
    · exact hn
  injective _ _ heq := (Equiv.swap a b).injective heq
  isExitWord {n} _ := by
    rw [Equiv.swap_apply_def]
    split_ifs with hna hnb
    · rw [hna, hword]
    · rw [hnb, hword]
    · rfl

variable (r : Renaming)

def token (token : Token) : Token :=
  if token.kind = .identifier then ⟨.identifier, r.name token.text⟩ else token

/-- The characters of a text with every name in it renamed. -/
def chars (text : List Char) : List Char :=
  match _h : text.dropWhile isBlank with
  | [] => text
  | first :: others =>
    text.takeWhile isBlank ++ (r.token (Token.lexeme first others).token).text.toList ++
      chars (Token.lexeme first others).rest
termination_by text.length
decreasing_by
  have hdrop := (List.dropWhile_suffix (l := text) isBlank).length_le
  have hrest := Token.lexeme_rest_length_le first others
  rw [_h, List.length_cons] at hdrop
  omega

def text (text : String) : String := String.ofList (r.chars text.toList)

theorem toList_text (text : String) : (r.text text).toList = r.chars text.toList :=
  String.toList_ofList

@[simp] theorem token_kind (token : Token) : (r.token token).kind = token.kind := by
  unfold Renaming.token
  split
  · next h => exact h.symm
  · rfl

theorem token_of_ne {token : Token} (h : token.kind ≠ .identifier) : r.token token = token :=
  if_neg h

theorem token_name (name : String) : r.token ⟨.identifier, name⟩ = ⟨.identifier, r.name name⟩ := rfl

theorem chars_of_blank {text : List Char} (h : ∀ c ∈ text, isBlank c) : r.chars text = text := by
  rw [chars]
  split
  · rfl
  · next hdrop => simp [List.dropWhile_eq_nil_iff.2 h] at hdrop

@[simp] theorem chars_nil : r.chars [] = [] := r.chars_of_blank (by simp)

theorem chars_of_visible {first : Char} (h : ¬isBlank first) (others : List Char) :
    r.chars (first :: others) = (r.token (Token.lexeme first others).token).text.toList ++
      r.chars (Token.lexeme first others).rest := by
  rw [chars]
  split
  · next hdrop => simp [h] at hdrop
  · next hdrop =>
    rw [List.dropWhile_cons_of_neg h] at hdrop
    obtain ⟨rfl, rfl⟩ := List.cons.inj hdrop
    rw [List.takeWhile_cons_of_neg h, List.nil_append]

theorem chars_blanks_append {blanks : List Char} (h : ∀ c ∈ blanks, isBlank c) (text : List Char) :
    r.chars (blanks ++ text) = blanks ++ r.chars text := by
  have hdrop : (blanks ++ text).dropWhile isBlank = text.dropWhile isBlank :=
    List.dropWhile_append_of_pos h
  have htake : (blanks ++ text).takeWhile isBlank = blanks ++ text.takeWhile isBlank :=
    List.takeWhile_append_of_pos h
  rw [chars, chars.eq_def r text]
  split <;> split <;> simp_all

/-- A text is cut before its first token, and what comes before it stays. -/
theorem chars_eq (text : List Char) :
    r.chars text = text.takeWhile isBlank ++ r.chars (text.dropWhile isBlank) := by
  have hblanks : ∀ c ∈ text.takeWhile isBlank, isBlank c := fun c hc => List.mem_takeWhile_imp hc
  rw [← r.chars_blanks_append hblanks, List.takeWhile_append_dropWhile]

/-- A blank parts what is renamed before it from what is renamed after it. -/
theorem chars_append_blank {blank : Char} (h : isBlank blank) (text more : List Char) :
    r.chars (text ++ blank :: more) = r.chars text ++ blank :: r.chars more := by
  have hblank : ∀ c ∈ [blank], isBlank c := List.forall_mem_singleton.2 h
  have hmore : r.chars (blank :: more) = blank :: r.chars more :=
    r.chars_blanks_append hblank more
  fun_induction r.chars text with
  | case1 text hdrop => rw [r.chars_blanks_append (List.dropWhile_eq_nil_iff.1 hdrop), hmore]
  | case2 text first others hdrop ih =>
    have hvisible := List.head?_dropWhile_not isBlank text
    have hblanks : ∀ c ∈ text.takeWhile isBlank, isBlank c := fun c hc => List.mem_takeWhile_imp hc
    rw [hdrop] at hvisible
    have hsplit : text ++ blank :: more =
        text.takeWhile isBlank ++ first :: (others ++ blank :: more) := by
      rw [← List.cons_append, ← hdrop, ← List.append_assoc, List.takeWhile_append_dropWhile]
    rw [hsplit, r.chars_blanks_append hblanks, r.chars_of_visible (by simpa using hvisible),
      Token.lexeme_blank h]
    dsimp only
    rw [ih]
    simp only [List.append_assoc]
    rfl

/-- What stands at the beginning of a text stays there unless it is a letter, and of a letter a
letter stays. -/
theorem head_chars {text : List Char} {c : Char} (h : c ∈ (r.chars text).head?) :
    c ∈ text.head? ∨ isLetter c ∧ ∃ c' ∈ text.head?, isLetter c' := by
  cases text with
  | nil => simp at h
  | cons first others =>
    by_cases hblank : isBlank first
    · rw [show first :: others = [first] ++ others from rfl,
        r.chars_blanks_append (List.forall_mem_singleton.2 hblank)] at h
      exact .inl h
    · obtain ⟨chars, hchars⟩ := Token.exists_lexeme_chars first others
      have hbegins := Token.beginsWith_lexeme first others
      have htext : (Token.lexeme first others).token.text.toList = first :: chars := by
        rw [Token.Lexeme.token, String.toList_ofList, hchars]
      rw [r.chars_of_visible hblank] at h
      by_cases hkind : (Token.lexeme first others).token.kind = .identifier
      · have hname := hbegins.isName hkind
        obtain ⟨first', others', hrenamed, hletter, -⟩ := r.isName hname
        rw [htext] at hname
        obtain ⟨_, _, heq, hfirst, -⟩ := hname
        obtain ⟨rfl, -⟩ := List.cons.inj heq
        rw [Renaming.token, if_pos hkind, hrenamed] at h
        obtain rfl := Option.some.inj h
        exact .inr ⟨hletter, _, rfl, hfirst⟩
      · rw [r.token_of_ne hkind, htext] at h
        exact .inl h

/-- The first token of a renamed text is the first token of the text, renamed, and the renamed rest
comes after it. -/
theorem lexeme_chars {first : Char} (h : ¬isBlank first) (others : List Char) :
    ∃ first' others', r.chars (first :: others) = first' :: others' ∧ ¬isBlank first' ∧
      (Token.lexeme first' others').token = r.token (Token.lexeme first others).token ∧
      (Token.lexeme first' others').rest = r.chars (Token.lexeme first others).rest := by
  rw [r.chars_of_visible h]
  by_cases hdigit : first.isDigit
  · -- A number is followed by no digit, and not by a point unless it was before.
    obtain ⟨chars, hchars⟩ := Token.exists_lexeme_chars first others
    rw [Token.lexeme_of_digit hdigit] at hchars ⊢
    dsimp only at hchars
    have hnumber := Token.splitNumber_append_rest (first :: others)
      (r.chars (Token.splitNumber (first :: others)).2)
      (fun c hc => (r.head_chars hc).elim (Token.head_splitNumber _ c) fun hletter =>
        not_isDigit_of_isLetter hletter.1)
      fun hpoint => (r.head_chars hpoint).resolve_right fun hletter =>
        absurd hletter.1 (by decide +kernel)
    rw [r.token_of_ne (by simp [Token.Lexeme.token])]
    refine ⟨first, chars ++ r.chars (Token.splitNumber (first :: others)).2, ?_, h, ?_⟩
    · simp [Token.Lexeme.token, hchars]
    · rw [Token.lexeme_of_digit hdigit, ← List.cons_append, ← hchars, hnumber]
      exact ⟨rfl, rfl⟩
  · by_cases hletter : isLetter first
    · -- A name is followed by nothing that a name goes on with, no letter in particular.
      have hname := (Token.beginsWith_lexeme first others).isName
      rw [Token.lexeme_of_letter hdigit hletter] at hname ⊢
      obtain ⟨first', others', hrenamed, hletter', hothers'⟩ := r.isName (hname rfl)
      have hrest : ∀ c ∈ (r.chars (others.dropWhile Token.isNameChar)).head?,
          ¬Token.isNameChar c := by
        intro c hc
        rcases r.head_chars hc with hsame | ⟨-, c', hc', hold⟩
        · exact head_dropWhile _ _ c hsame
        · exact absurd (by simp [Token.isNameChar, hold]) (head_dropWhile _ _ c' hc')
      have hspan := span_append others' _
        (fun c hc => by simpa [Token.isNameChar, or_assoc] using hothers' c hc) hrest
      refine ⟨first', others' ++ r.chars (others.dropWhile Token.isNameChar), ?_,
        not_isBlank_of_isLetter hletter', ?_⟩
      · exact congrArg (· ++ r.chars (others.dropWhile Token.isNameChar)) hrenamed
      · rw [Token.lexeme_of_letter (not_isDigit_of_isLetter hletter') hletter', hspan.1, hspan.2,
          ← hrenamed]
        exact ⟨by simp [Token.Lexeme.token, token_name], rfl⟩
    · rw [Token.lexeme_of_symbol hdigit hletter,
        r.token_of_ne (Token.Kind.ofSymbol_ne_identifier first)]
      refine ⟨first, r.chars others, by simp [Token.Lexeme.token], h, ?_⟩
      rw [Token.lexeme_of_symbol hdigit hletter]
      exact ⟨rfl, rfl⟩

/-- The tokens of a renamed text are those of the text, renamed. -/
theorem scan_chars (text : List Char) :
    Token.scan (r.chars text) = (Token.scan text).map r.token := by
  fun_induction Token.scan text with
  | case1 text hdrop =>
    have hblank := List.dropWhile_eq_nil_iff.1 hdrop
    rw [r.chars_of_blank hblank, Token.scan_eq_nil hblank, List.map_nil]
  | case2 text first others hdrop ih =>
    have hvisible := List.head?_dropWhile_not isBlank text
    rw [hdrop] at hvisible
    obtain ⟨first', others', hrenamed, hvisible', htoken, hrest⟩ :=
      r.lexeme_chars (by simpa using hvisible) others
    rw [r.chars_eq, hdrop, Token.scan_blanks_append fun c hc => List.mem_takeWhile_imp hc, hrenamed,
      Token.scan_of_dropWhile (List.dropWhile_cons_of_neg hvisible'), htoken, hrest, ih,
      List.map_cons]

/-- Where a place on a line has moved to: what is left of the renamed line there is what was left,
renamed. -/
def position (source : String) (position : Nat) : Nat :=
  (r.chars (source.toList ++ ['\n'])).length -
    (r.chars ((source.toList ++ ['\n']).drop position)).length

/-- A line of text and the line of the renamed text, with the same tokens left on both. -/
structure Follows (source : String) (line line' : Line) : Prop where
  chars : line.chars = source.toList ++ ['\n']
  chars' : line'.chars = r.chars (source.toList ++ ['\n'])
  rest : line'.rest = r.chars line.rest

theorem chars_newline (source : String) :
    r.chars (source.toList ++ ['\n']) = (r.text source).toList ++ ['\n'] := by
  rw [r.chars_append_blank (by decide), chars_nil, toList_text]

theorem chars_joined (lines : List String) :
    r.chars (joined lines) = joined (lines.map r.text) := by
  induction lines with
  | nil => exact r.chars_nil
  | cons line lines ih =>
    cases lines with
    | nil => simp [joined, Renaming.text]
    | cons next lines =>
      rw [joined_cons_cons, r.chars_append_blank (by decide), ih, ← toList_text]
      exact (joined_cons_cons _ _ _).symm

theorem follows_load (source : String) :
    r.Follows source (Line.load source) (Line.load (r.text source)) :=
  ⟨rfl, (r.chars_newline source).symm, (r.chars_newline source).symm⟩

namespace Follows

variable {r} {source : String} {line line' later : Line}

theorem text (h : r.Follows source line line') :
    line.text = source ∧ line'.text = r.text source := by
  rw [Line.text, Line.text, h.chars, h.chars', r.chars_newline]
  simp

theorem position (h : r.Follows source line line') :
    line'.position = r.position source line.position := by
  have hrest : (source.toList ++ ['\n']).drop line.position = line.rest := by
    rw [← h.chars, Line.chars, Line.position, ← List.length_reverse, List.drop_left]
  rw [Renaming.position, hrest, ← h.rest, ← h.chars', Line.chars, List.length_append,
    List.length_reverse, Nat.add_sub_cancel]
  rfl

theorem next?_eq_none (h : r.Follows source line line') (hnext : line.next? = none) :
    line'.next? = none := by
  rw [Line.next?_eq_none_iff] at hnext ⊢
  rw [h.rest, r.chars_of_blank hnext]
  exact hnext

theorem next? {token : Token} (h : r.Follows source line line')
    (hnext : line.next? = some (token, later)) :
    ∃ later', line'.next? = some (r.token token, later') ∧ r.Follows source later later' := by
  cases hdrop : line.rest.dropWhile isBlank with
  | nil => simp [Line.next?_eq_none_iff.2 (List.dropWhile_eq_nil_iff.1 hdrop)] at hnext
  | cons first others =>
    have hchars := Line.chars_of_next? hnext
    rw [Line.next?_of_dropWhile hdrop] at hnext
    obtain ⟨rfl, rfl⟩ := Prod.mk.inj (Option.some.inj hnext)
    have hvisible := List.head?_dropWhile_not isBlank line.rest
    rw [hdrop] at hvisible
    obtain ⟨first', others', hrenamed, hvisible', htoken, hlater⟩ :=
      r.lexeme_chars (by simpa using hvisible) others
    have hdrop' : line'.rest.dropWhile isBlank = first' :: others' := by
      rw [h.rest, r.chars_eq, hdrop, hrenamed,
        List.dropWhile_append_of_pos fun c hc => List.mem_takeWhile_imp hc]
      exact List.dropWhile_cons_of_neg hvisible'
    have hnext' := Line.next?_of_dropWhile hdrop'
    rw [htoken] at hnext'
    exact ⟨_, hnext', hchars.trans h.chars, (Line.chars_of_next? hnext').trans h.chars', hlater⟩

end Follows

end Renaming

end ReversePolish
