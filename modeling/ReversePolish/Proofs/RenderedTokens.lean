import ReversePolish.Proofs.LineTokens
import ReversePolish.Proofs.StreamLines
import ReversePolish.Proofs.TextBytes
import ReversePolish.Proofs.TokenStream

/-!
# Tokens that are written and read again

The texts of some tokens are written one after the other with blanks between them, spaces or line
ends or both. Reading delivers the same tokens again, as long as each is a number, a name or a
single character of the kind that it claims to be. All tokens that are ever read are of this form.
-/

namespace ReversePolish

/-- What a token can be. -/
inductive Token.Shaped : Token → Prop
  | number {text} (numeral : IsNumeral text.toList) : Shaped ⟨.number, text⟩
  | name {text} (name : IsName text.toList) : Shaped ⟨.identifier, text⟩
  | symbol {c} (visible : ¬isBlank c) (noDigit : ¬c.isDigit) (noLetter : ¬isLetter c) :
      Shaped ⟨.ofSymbol c, String.ofList [c]⟩

namespace Token.Shaped

variable {token : Token}

theorem scan_eq (h : token.Shaped) : scan token.text.toList = [token] := by
  cases h with
  | number numeral => rw [numeral.scan_eq, String.ofList_toList]
  | name name => rw [name.scan_eq, String.ofList_toList]
  | symbol visible noDigit noLetter =>
    rw [String.toList_ofList, scan_of_dropWhile (List.dropWhile_cons_of_neg visible),
      lexeme_of_symbol noDigit noLetter, scan_nil]
    rfl

theorem visible (h : token.Shaped) : ∀ c ∈ token.text.toList, ¬isBlank c := by
  cases h with
  | number numeral => exact numeral.visible
  | name name => exact name.visible
  | symbol visible => simpa using visible

theorem text_ne_nil (h : token.Shaped) : token.text.toList ≠ [] := by
  intro hnil
  have hscan := h.scan_eq
  simp [hnil] at hscan

end Token.Shaped

theorem BeginsWith.shaped {first : Char} {others : List Char} {token : Token}
    (hvisible : ¬isBlank first) (h : BeginsWith (first :: others) token) : token.Shaped := by
  cases h with
  | number digit munch => exact .number (by simpa using munch.form)
  | name noDigit letter munch => exact .name (by simpa using munch.form)
  | symbol noDigit noLetter => exact .symbol hvisible noDigit noLetter

theorem Line.shaped_of_next? {line line' : Line} {token : Token}
    (h : line.next? = some (token, line')) : token.Shaped := by
  have hvisible := List.head?_dropWhile_not isBlank line.rest
  unfold next? at h
  split at h
  · simp at h
  · next first others hrest =>
    obtain ⟨rfl, -⟩ := Prod.mk.inj (Option.some.inj h)
    rw [hrest] at hvisible
    exact (Token.beginsWith_lexeme first others).shaped (by simpa using hvisible)

theorem Token.shaped_iff {token : Token} : token.Shaped ↔ scan token.text.toList = [token] := by
  refine ⟨Shaped.scan_eq, fun hscan => ?_⟩
  have hrest : scan (⟨[], token.text.toList⟩ : Line).rest = [token] := hscan
  obtain ⟨line', hline, -⟩ := Line.exists_next? hrest
  exact Line.shaped_of_next? hline

instance : DecidablePred Token.Shaped := fun _ => decidable_of_iff _ Token.shaped_iff.symm

/-- The texts of some tokens in order, with something in front of them and something after each. -/
def Token.render (front : List Char) : List (Token × List Char) → List Char
  | [] => front
  | (token, gap) :: items => front ++ token.text.toList ++ render gap items

/-- What is written around some tokens is blank, and between two of them there is something. -/
structure Token.Separated (front : List Char) (items : List (Token × List Char)) : Prop where
  front : ∀ c ∈ front, isBlank c
  gaps : ∀ item ∈ items, ∀ c ∈ item.2, isBlank c
  apart : ∀ item ∈ items.dropLast, item.2 ≠ []

namespace Token

theorem separated_iff (front : List Char) (items : List (Token × List Char)) :
    Separated front items ↔ front.all isBlank ∧ (items.all fun item => item.2.all isBlank) ∧
      items.dropLast.all fun item => !item.2.isEmpty := by
  simp only [List.all_eq_true, Bool.not_eq_true', List.isEmpty_eq_false_iff]
  constructor
  · rintro ⟨hfront, hgaps, hapart⟩
    exact ⟨hfront, hgaps, hapart⟩
  · rintro ⟨hfront, hgaps, hapart⟩
    exact ⟨hfront, hgaps, hapart⟩

instance (front : List Char) (items : List (Token × List Char)) :
    Decidable (Separated front items) :=
  decidable_of_iff' _ (separated_iff front items)

variable {front gap : List Char} {token : Token} {items : List (Token × List Char)}

theorem Separated.tail (h : Separated front ((token, gap) :: items)) : Separated gap items := by
  obtain ⟨-, hgaps, hapart⟩ := h
  obtain ⟨hgap, hgaps⟩ := List.forall_mem_cons.1 hgaps
  refine ⟨hgap, hgaps, fun item hitem => hapart item ?_⟩
  cases items with
  | nil => simp at hitem
  | cons next items => exact List.mem_cons_of_mem _ hitem

theorem Separated.head?_render (h : Separated front ((token, gap) :: items)) :
    ∀ c ∈ (render gap items).head?, isBlank c := by
  cases items with
  | nil => exact fun c hc => h.tail.front c (List.mem_of_head? hc)
  | cons next items =>
    obtain ⟨blank, others, rfl⟩ := List.exists_cons_of_ne_nil (h.apart (token, gap) (by simp))
    intro c hc
    obtain rfl : blank = c := by simpa [render] using hc
    exact h.tail.front blank List.mem_cons_self

theorem Separated.spaced (h : Separated front items) (hshaped : ∀ item ∈ items, item.1.Shaped) :
    Spaced (items.map fun item => item.1.text.toList) (render front items) := by
  induction items generalizing front with
  | nil => exact .blank h.front
  | cons item items ih =>
    obtain ⟨hitem, hitems⟩ := List.forall_mem_cons.1 hshaped
    exact .word h.front hitem.visible hitem.text_ne_nil h.head?_render (ih h.tail hitems)

/-- What is written has no other tokens. -/
theorem Separated.scan_render (h : Separated front items)
    (hshaped : ∀ item ∈ items, item.1.Shaped) :
    scan (render front items) = items.map Prod.fst := by
  rw [scan_of_spaced (h.spaced hshaped), List.flatMap_map, List.map_eq_flatMap]
  exact List.flatMap_congr fun item hitem => (hshaped item hitem).scan_eq

theorem scan_bareLine (line : List Char) : scan (bareLine (line ++ ['\n'])) = scan line := by
  have hreturn : isBlank '\r' := by decide
  rw [bareLine, if_pos (by simp), List.dropLast_concat]
  dsimp only
  split
  · next hlast =>
    obtain ⟨front, rfl⟩ := List.getLast?_eq_some_iff.1 hlast
    rw [List.dropLast_concat, scan_concat_blank hreturn]
  · rfl

/-- Cutting a text at its newlines cuts no token. -/
theorem scan_linesOfText (text : List Char) :
    ((linesOfText text).flatMap fun line => scan line.toList) = scan text := by
  have hnewline : isBlank '\n' := by decide
  induction hlength : text.length using Nat.strong_induction_on generalizing text with
  | _ length ih =>
  by_cases hmem : '\n' ∈ text
  · obtain ⟨line, rest, rfl, hline⟩ := List.eq_append_cons_of_mem hmem
    have hshorter : rest.length < length := by
      simp only [← hlength, List.length_append, List.length_cons]
      omega
    rw [linesOfText, pieces_line hline, List.map_cons, List.flatMap_cons, String.toList_ofList,
      scan_bareLine, scan_append_blank hnewline, ← ih rest.length hshorter rest rfl]
    rfl
  · by_cases hne : text = []
    · simp [hne, linesOfText, pieces]
    · have hkept : bareLine text = text :=
        if_neg fun hlast => hmem (List.mem_of_getLast? hlast)
      rw [linesOfText, pieces_tail hmem hne]
      simp [hkept]

end Token

/-- The replies deliver a text: as the lines of its bytes, or as lines that are the text once they
are joined, whatever line ends they have in them. -/
inductive Delivers : List Reply → List Char → Prop
  | bytes (text : List Char) : Delivers (repliesOfBytes (String.ofList text).toUTF8.toList) text
  | lines (lines : List String) : Delivers (lines.map .line) (joined lines)

theorem Delivers.exists_lines {replies : List Reply} {text : List Char}
    (h : Delivers replies text) :
    ∃ lines : List String, replies = lines.map .line ∧
      (lines.flatMap fun line => Token.scan line.toList) = Token.scan text := by
  cases h with
  | bytes =>
    refine ⟨linesOfText text, ?_, Token.scan_linesOfText text⟩
    rw [repliesOfBytes, linesOfBytes_eq, decodeUtf8_toUTF8, String.toList_ofList]
  | lines lines => exact ⟨lines, rfl, (Token.scan_joined lines).symm⟩

namespace Reader

variable {σ : Type} [Sink σ]

def DeliversAll (reader : Reader σ) (tokens : List Token) : Prop :=
  reader.ahead = tokens ∧ reader.drain.2.1 = .ended .endOfInput

theorem deliversAll_of_delivers [Sink.Reliable σ] {channel : Channel σ} {text : List Char}
    (h : Delivers channel.replies text) (prompt : String) :
    DeliversAll { channel, prompt } (Token.scan text) := by
  obtain ⟨lines, hreplies, hscan⟩ := h.exists_lines
  have hstands : Stands { channel, prompt } ⟨[], lines⟩ := ⟨rfl, hreplies, .inl rfl⟩
  refine ⟨?_, hstands.drain.2⟩
  rw [ahead_of_lines hreplies, hscan, Token.scan_nil, List.nil_append]

/-- Numbers, names and single characters of their kinds are written with blanks between them, and
with any blanks before and after them. Whatever the blanks are, a reader that the text is delivered
to delivers exactly these tokens. Every reader whatsoever, on any sink, has only such tokens ahead;
so writing them and reading once more gives them back. -/
theorem delivers_what_is_rendered [Sink.Reliable σ] (channel : Channel σ) (prompt : String) :
    (∀ front items, Token.Separated front items → (∀ item ∈ items, item.1.Shaped) →
      Delivers channel.replies (Token.render front items) →
      DeliversAll { channel, prompt } (items.map Prod.fst)) ∧
    ∀ (τ : Type) [Sink τ] (reader : Reader τ), (∀ token ∈ reader.ahead, token.Shaped) ∧
      ∀ front items, items.map Prod.fst = reader.ahead → Token.Separated front items →
        Delivers channel.replies (Token.render front items) →
        DeliversAll { channel, prompt } reader.ahead := by
  have hrendered : ∀ front items, Token.Separated front items → (∀ item ∈ items, item.1.Shaped) →
      Delivers channel.replies (Token.render front items) →
      DeliversAll { channel, prompt } (items.map Prod.fst) := by
    intro front items hseparated hshaped hdelivers
    rw [← hseparated.scan_render hshaped]
    exact deliversAll_of_delivers hdelivers prompt
  refine ⟨hrendered, fun τ _ reader => ?_⟩
  have hshaped := reader.forall_mem_ahead Line.shaped_of_next?
  refine ⟨hshaped, fun front items hitems hseparated hdelivers => ?_⟩
  rw [← hitems] at hshaped ⊢
  exact hrendered front items hseparated (List.forall_mem_map.1 hshaped) hdelivers

/-- Numbers that end with a point or before a second one, a name with a letter that is not ASCII,
and line ends of both kinds among the blanks. What has been read once is written with a line for
each token and read again. -/
theorem delivers_five_tokens :
    let items : List (Token × List Char) :=
      [(⟨.number, "1.2"⟩, ['\r', '\n']), (⟨.invalid, "."⟩, ['\u3000']), (⟨.number, "3."⟩, [' ']),
        (⟨.identifier, "é_9"⟩, ['\n', '\t', '\n']), (⟨.endMark, "@"⟩, [])]
    let again : List (Token × List Char) := items.map fun item => (item.1, ['\n'])
    let channel (text : List Char) : Channel Paper :=
      { replies := repliesOfBytes (String.ofList text).toUTF8.toList, sink := {} }
    let first : Reader Paper :=
      { channel := channel (Token.render [' ', '\u2028'] items), prompt := ">> " }
    let second : Reader Paper := { channel := channel (Token.render [] again), prompt := "" }
    first.DeliversAll (items.map Prod.fst) ∧ second.DeliversAll first.ahead := by
  intro items again channel first second
  have hshaped : ∀ item ∈ items, item.1.Shaped := by decide +kernel
  have hfirst : first.DeliversAll (items.map Prod.fst) :=
    (delivers_what_is_rendered first.channel first.prompt).1 [' ', '\u2028'] items
      (by decide) hshaped (.bytes _)
  refine ⟨hfirst, ((delivers_what_is_rendered second.channel second.prompt).2 Paper first).2 []
    again ?_ (by decide) (.bytes _)⟩
  rw [hfirst.1]
  rfl

end Reader

end ReversePolish
