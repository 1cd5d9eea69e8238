import ReversePolish.Expression
import ReversePolish.Proofs.NumberTokens

/-!
# The rest of a line

How a text begins decides its first token: the character after a number or a name ends it, and any
other token is a single character. So a line whose rest is exchanged gives the same tokens up to
there, and an expression that is refused on it is refused at the same place.
-/

namespace ReversePolish

namespace Token

theorem splitNumber_tail {text chars more : List Char} {c : Char}
    (h : splitNumber text = (chars, c :: more)) (more' : List Char) :
    splitNumber (chars ++ c :: more') = (chars, c :: more') := by
  have hwhole : ∀ d ∈ text.takeWhile Char.isDigit, d.isDigit := fun d hd =>
    List.mem_takeWhile_imp hd
  have hstop : ∀ {rest : List Char}, rest.dropWhile Char.isDigit = c :: more → ¬c.isDigit := by
    intro rest hrest
    have hnot := List.head?_dropWhile_not Char.isDigit rest
    rw [hrest] at hnot
    simpa using hnot
  unfold splitNumber at h
  split at h
  · next rest hpoint =>
    obtain ⟨rfl, hrest⟩ := Prod.mk.inj h
    have hfraction : ∀ d ∈ rest.takeWhile Char.isDigit, d.isDigit := fun d hd =>
      List.mem_takeWhile_imp hd
    rw [List.append_assoc, List.cons_append]
    unfold splitNumber
    rw [List.takeWhile_append_of_pos hwhole, List.dropWhile_append_of_pos hwhole]
    simp [List.takeWhile_append_of_pos hfraction, List.dropWhile_append_of_pos hfraction,
      hstop hrest]
  · next hpoint =>
    obtain ⟨rfl, hrest⟩ := Prod.mk.inj h
    have hne : c ≠ '.' := by
      rintro rfl
      exact hpoint more hrest
    unfold splitNumber
    rw [List.takeWhile_append_of_pos hwhole, List.dropWhile_append_of_pos hwhole]
    simp [hstop hrest, hne]

/-- What follows a lexeme is free to change after the character that ends it, and altogether if the
lexeme is neither a number nor a name. -/
theorem lexeme_tail {first : Char} {others chars tail front : List Char}
    (hchars : (lexeme first others).chars = first :: chars)
    (hrest : (lexeme first others).rest = front ++ tail)
    (h : front ≠ [] ∨
      (lexeme first others).kind ≠ .number ∧ (lexeme first others).kind ≠ .identifier)
    (tail' : List Char) :
    lexeme first (chars ++ (front ++ tail')) =
      ⟨(lexeme first others).kind, (lexeme first others).chars, front ++ tail'⟩ := by
  by_cases hdigit : first.isDigit
  · simp only [lexeme_of_digit hdigit] at hchars hrest h ⊢
    obtain ⟨c, front, rfl⟩ := List.exists_cons_of_ne_nil (h.resolve_right fun hkind => hkind.1 rfl)
    have hsplit : splitNumber (first :: others) = (first :: chars, c :: (front ++ tail)) :=
      Prod.ext hchars hrest
    have hsame := splitNumber_tail hsplit (front ++ tail')
    rw [List.cons_append] at hsame
    rw [List.cons_append, hsame, hchars]
  · by_cases hletter : isLetter first
    · simp only [lexeme_of_letter hdigit hletter] at hchars hrest h ⊢
      obtain ⟨c, front, rfl⟩ :=
        List.exists_cons_of_ne_nil (h.resolve_right fun hkind => hkind.2 rfl)
      obtain ⟨-, rfl⟩ := List.cons.inj hchars
      have hname : ∀ d ∈ others.takeWhile isNameChar, isNameChar d := fun d hd =>
        List.mem_takeWhile_imp hd
      have hstop := List.head?_dropWhile_not isNameChar others
      rw [hrest, List.cons_append] at hstop
      have hnot : ¬isNameChar c := by simpa using hstop
      rw [List.takeWhile_append_of_pos hname, List.dropWhile_append_of_pos hname]
      simp [hnot]
    · simp only [lexeme_of_symbol hdigit hletter] at hchars ⊢
      obtain ⟨-, rfl⟩ := List.cons.inj hchars
      rfl

end Token

theorem Progress.kind_of_reject {valueOf : String → Binary64} {progress : Progress}
    {operands : Operands} {token : Token} {rejection : Rejection} (hreadable : token.Readable)
    (h : progress.step valueOf operands token = .reject rejection) :
    token.kind ≠ .number ∧ token.kind ≠ .identifier := by
  have hoperate : ∀ operands, operate valueOf operands token = .reject rejection →
      token.kind ≠ .number ∧ token.kind ≠ .identifier := by
    intro operands hreject
    refine ⟨fun hkind => ?_, fun hkind => ?_⟩
    · obtain ⟨value, hvalue⟩ := hreadable hkind
      simp [operate, hkind, numberValue, hvalue, Except.map, Verdict.ofOperands] at hreject
    · simp [operate, hkind, Verdict.ofOperands] at hreject
  rcases step_cases valueOf progress operands token with
    ⟨given, hstep⟩ | ⟨-, hstep | hstep⟩ | ⟨hkind, -⟩ | ⟨hkind | ⟨operator, hkind⟩, -⟩
  · exact hoperate given (hstep.symm.trans h)
  · simp [hstep] at h
  · simp [hstep] at h
  all_goals simp [hkind]

namespace Line

def withRest (line : Line) (rest : List Char) : Line := { line with rest }

theorem next?_of_dropWhile {line : Line} {first : Char} {others : List Char}
    (h : line.rest.dropWhile isBlank = first :: others) :
    line.next? = some ((Token.lexeme first others).token,
      ⟨(line.rest.takeWhile isBlank ++ (Token.lexeme first others).chars).reverse ++ line.taken,
        (Token.lexeme first others).rest⟩) := by
  unfold next?
  rw [h]

/-- A token is taken from a line as long as its characters and the one that ends it are there; of a
token that is neither a number nor a name its own character is enough. -/
theorem next?_withRest {line line' : Line} {token : Token} {front tail : List Char}
    (hnext : line.next? = some (token, line')) (hrest : line'.rest = front ++ tail)
    (h : front ≠ [] ∨ token.kind ≠ .number ∧ token.kind ≠ .identifier) :
    ∃ passed, token.text.toList <:+ passed ∧ line.rest = passed ++ line'.rest ∧
      line'.taken = passed.reverse ++ line.taken ∧
      ∀ tail', (line.withRest (passed ++ (front ++ tail'))).next? =
        some (token, line'.withRest (front ++ tail')) := by
  cases hdrop : line.rest.dropWhile isBlank with
  | nil => simp [next?_eq_none_iff.2 (List.dropWhile_eq_nil_iff.1 hdrop)] at hnext
  | cons first others =>
    rw [next?_of_dropWhile hdrop] at hnext
    obtain ⟨rfl, rfl⟩ := Prod.mk.inj (Option.some.inj hnext)
    have happend := Token.lexeme_append first others
    obtain ⟨d, chars, hchars⟩ := List.exists_cons_of_ne_nil (Token.lexeme_chars_ne_nil first others)
    obtain rfl : d = first := by
      rw [hchars] at happend
      exact (List.cons.inj happend).1
    have hsplit := List.takeWhile_append_dropWhile (p := isBlank) (l := line.rest)
    refine ⟨line.rest.takeWhile isBlank ++ (Token.lexeme d others).chars, ?_, ?_, rfl,
      fun tail' => ?_⟩
    · rw [Token.Lexeme.token, String.toList_ofList]
      exact List.suffix_append _ _
    · rw [List.append_assoc, happend, ← hdrop, hsplit]
    · have hvisible := List.head?_dropWhile_not isBlank line.rest
      rw [hdrop] at hvisible
      have hblanks : ∀ c ∈ line.rest.takeWhile isBlank, isBlank c := fun c hc =>
        List.mem_takeWhile_imp hc
      have htail : (line.rest.takeWhile isBlank ++ (Token.lexeme d others).chars ++
          (front ++ tail')).dropWhile isBlank = d :: (chars ++ (front ++ tail')) := by
        rw [List.append_assoc, List.dropWhile_append_of_pos hblanks, hchars]
        exact List.dropWhile_cons_of_neg (by simpa using hvisible)
      have hfront : (line.rest.takeWhile isBlank ++ (Token.lexeme d others).chars ++
          (front ++ tail')).takeWhile isBlank = line.rest.takeWhile isBlank := by
        rw [List.append_assoc, List.takeWhile_append_of_pos hblanks, hchars, List.cons_append,
          List.takeWhile_cons_of_neg (by simpa using hvisible), List.append_nil]
      have hlexeme := Token.lexeme_tail hchars hrest h tail'
      rw [next?_of_dropWhile htail, hlexeme, withRest, hfront]
      rfl

end Line

end ReversePolish
