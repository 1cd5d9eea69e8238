import ReversePolish.Proofs.RefusedPlaces
import ReversePolish.Proofs.RenderedTokens
import ReversePolish.Proofs.SessionAccounts
import ReversePolish.Proofs.UnreadableTokens

/-!
# The place that a report points at

The line that a calculator holds is the one that was delivered last, whatever has been done since.
So a report repeats the line that the refused token stands on, however many lines the expression has
taken, and since nothing after the token has been taken, its caret stands under the single character
of that token. The newline at the end of a line is no token, and the caret is never under it.
-/

namespace ReversePolish

def Call.line? : Call → Option String
  | .readLine reply => reply.line?
  | .write .. | .flush _ => none

def Channel.latestLine? {σ : Type} (channel : Channel σ) : Option String :=
  channel.calls.findSome? Call.line?

/-- A reader holds the line that was delivered last, and nothing before the first one. The tokens
left on the line are the last ones of the whole line. -/
structure Reader.HoldsLatest {σ : Type} (reader : Reader σ) : Prop where
  chars : reader.line.chars = reader.channel.latestLine?.elim [] fun text => text.toList ++ ['\n']
  ends : Token.scan reader.line.rest <:+ Token.scan reader.line.chars

variable {σ : Type} [Sink σ]

namespace Channel

theorem latestLine?_writeLines (channel : Channel σ) (texts : List String) :
    (channel.writeLines texts).2.latestLine? = channel.latestLine? := by
  induction texts generalizing channel with
  | nil => rfl
  | cons text texts ih =>
    rw [writeLines_eq]
    exact andThen_holds (fun later : Channel σ => later.latestLine? = channel.latestLine?) rfl
      fun later h => (ih later).trans h

end Channel

namespace Reader

variable {reader reader' : Reader σ}

theorem latestLine?_ask (reader : Reader σ) :
    reader.ask.2.latestLine? = reader.channel.latestLine? := by
  rw [ask_eq]
  split
  · rfl
  · exact andThen_holds
      (fun later : Channel σ => later.latestLine? = reader.channel.latestLine?) rfl fun _ h => h

namespace HoldsLatest

omit [Sink σ] in
theorem skipLine (h : reader.HoldsLatest) : reader.skipLine.HoldsLatest where
  chars := (Line.chars_exhaust reader.line).trans h.chars
  ends := by
    rw [Reader.skipLine, Line.rest_exhaust, Token.scan_nil]
    exact List.nil_suffix

omit [Sink σ] in
theorem load (h : reader.HoldsLatest) : reader.load.2.HoldsLatest := by
  obtain ⟨⟨replies, sink, calls, journal⟩, prompt, line⟩ := reader
  match replies with
  | .line text :: _ => exact ⟨rfl, List.suffix_rfl⟩
  | [] | .ended :: _ | .failed _ :: _ => exact ⟨h.chars, h.ends⟩

theorem fetch (h : reader.HoldsLatest) : reader.fetch.2.HoldsLatest := by
  have hasked : reader.asked.HoldsLatest := by
    refine ⟨h.skipLine.chars.trans ?_, h.skipLine.ends⟩
    rw [asked, latestLine?_ask]
  cases hask : reader.skipLine.ask.1 with
  | ok =>
    rw [fetch_of_ask_ok hask]
    exact hasked.load
  | error message =>
    rw [fetch_of_ask_error hask]
    exact hasked

theorem of_fetch {answer : Except Stop Unit} (h : reader.HoldsLatest)
    (hfetch : reader.fetch = (answer, reader')) : reader'.HoldsLatest := by
  have hfetched := h.fetch
  rwa [hfetch] at hfetched

theorem next (h : reader.HoldsLatest) : reader.next.2.HoldsLatest := by
  fun_induction Reader.next reader with
  | case1 reader token line hline =>
    have hchars := Line.chars_of_next? hline
    refine ⟨hchars.trans h.chars, List.IsSuffix.trans ?_ (hchars ▸ h.ends)⟩
    rw [Line.scan_of_next? hline]
    exact List.suffix_cons _ _
  | case2 reader hline fetched hfetch ih => exact ih (h.of_fetch hfetch)
  | case3 reader hline stop fetched hfetch => exact h.of_fetch hfetch

theorem after (h : reader.HoldsLatest) (count : Nat) : (reader.after count).HoldsLatest := by
  induction count generalizing reader with
  | zero => exact h
  | succ count ih => exact ih h.next

theorem exists_line {token : Token} (h : reader.HoldsLatest)
    (hnext : reader.next = (.ok token, reader')) :
    ∃ line : Line, line.next? = some (token, reader'.line) ∧
      token :: Token.scan reader'.line.rest <:+ Token.scan reader'.line.chars := by
  fun_induction Reader.next reader with
  | case1 reader found line hline =>
    obtain ⟨hfound, rfl⟩ := Prod.mk.inj hnext
    obtain rfl := Except.ok.inj hfound
    have hends := h.ends
    rw [Line.scan_of_next? hline, ← Line.chars_of_next? hline] at hends
    exact ⟨_, hline, hends⟩
  | case2 reader hline fetched hfetch ih => exact ih (h.of_fetch hfetch) hnext
  | case3 => simp at hnext

end HoldsLatest

end Reader

namespace Calculator

theorem holdsLatest_reject {calculator : Calculator σ} (h : calculator.reader.HoldsLatest)
    (rejection : Rejection) : (calculator.reject rejection).2.reader.HoldsLatest := by
  have hlatest : (calculator.reject rejection).2.reader.channel.latestLine? =
      calculator.reader.channel.latestLine? := by
    rw [channel_reject, Channel.latestLine?_writeLines]
    rfl
  have hline : (calculator.reject rejection).2.reader.line = calculator.reader.line ∨
      (calculator.reject rejection).2.reader.line = calculator.reader.line.exhaust := by
    dsimp only [reject]
    split
    · exact .inr rfl
    · exact .inl rfl
  rcases hline with hline | hline
  · exact ⟨by rw [hline, hlatest]; exact h.chars, by rw [hline]; exact h.ends⟩
  · exact ⟨by rw [hline, hlatest]; exact h.skipLine.chars, by rw [hline]; exact h.skipLine.ends⟩

/-- Everything that a calculator does has it hold the line that was delivered last. -/
theorem stepwise_holdsLatest : Stepwise fun earlier later : Calculator σ =>
    earlier.reader.HoldsLatest → later.reader.HoldsLatest where
  refl _ h := h
  trans h h' := h' ∘ h
  start _ h := ⟨h.chars, h.ends⟩
  next _ h := h.next
  operands _ _ h := h
  retarget _ _ h := ⟨h.chars, h.ends⟩
  ignore _ h := ⟨h.chars, h.ends⟩
  store _ _ h := ⟨h.chars, h.ends⟩
  reject _ rejection h := holdsLatest_reject h rejection
  say _ _ h := ⟨h.chars, h.ends⟩
  close _ _ h := close_holds (fun later => later.reader.HoldsLatest) ⟨h.chars, h.ends⟩
    fun _ hsaid => ⟨hsaid.chars, hsaid.ends⟩

theorem holdsLatest_operations {calculator : Calculator σ} (h : calculator.reader.HoldsLatest)
    (operations : List Operation) :
    (operations.foldl perform calculator).reader.HoldsLatest :=
  stepwise_holdsLatest.operations (fun _ h => h.skipLine) calculator operations h

theorem mem_rounds {calculator round : Calculator σ} (h : round ∈ calculator.rounds) :
    round = calculator ∨ ∃ outcome evaluated said, calculator.evaluate = (.ok outcome, evaluated) ∧
      evaluated.say outcome.line = (.ok (), said) ∧ round ∈ said.rounds := by
  rw [rounds] at h
  rcases List.mem_cons.1 h with rfl | hlater
  · exact .inl rfl
  right
  split at hlater
  · simp at hlater
  · next outcome evaluated hevaluate =>
    split at hlater
    · simp at hlater
    · next said hsay => exact ⟨outcome, evaluated, said, hevaluate, hsay, hlater⟩

theorem Stepwise.of_mem_rounds {Related : Calculator σ → Calculator σ → Prop}
    (stepwise : Stepwise Related) {calculator round : Calculator σ}
    (h : round ∈ calculator.rounds) : Related calculator round := by
  rcases mem_rounds h with rfl | ⟨outcome, evaluated, said, hevaluate, hsay, hlater⟩
  · exact stepwise.refl _
  · have hsaid := stepwise.trans (stepwise.of_evaluate hevaluate) (stepwise.of_say hsay)
    exact stepwise.trans hsaid (stepwise.of_mem_rounds hlater)
termination_by calculator.unread
decreasing_by
  have hunread := unread_say evaluated outcome.line
  rw [hsay] at hunread
  exact hunread ▸ unread_of_evaluate hevaluate

end Calculator

/-- The character that an expression is refused for: the operator that finds too few operands, the
end mark that finds no value or several, or the character that has no place there or no meaning. -/
inductive Rejection.Blames : Rejection → Char → Prop
  | underflow {c} (operator : c ∈ ['+', '-', '*', '/', '~']) : Blames .tooFewOperands c
  | empty : Blames .tooFewOperands '@'
  | overfull {count} : Blames (.tooManyOperands count) '@'
  | unexpected {c} (unexpected : c ∈ ['+', '-', '*', '/'] ∨ Meaningless c) :
      Blames (.unexpected (String.ofList [c])) c
  | unreadable {c} (meaningless : Meaningless c) : Blames (.unreadable (String.ofList [c])) c

namespace Token.Kind

theorem mem_of_ofSymbol_operator {c : Char} {op : Operator} (h : ofSymbol c = .operator op) :
    c ∈ ['+', '-', '*', '/'] := by
  unfold ofSymbol at h
  split at h <;> simp at h ⊢

theorem eq_of_ofSymbol_negate {c : Char} (h : ofSymbol c = .negate) : c = '~' := by
  unfold ofSymbol at h
  split at h <;> simp at h ⊢

theorem eq_of_ofSymbol_endMark {c : Char} (h : ofSymbol c = .endMark) : c = '@' := by
  unfold ofSymbol at h
  split at h <;> simp at h ⊢

end Token.Kind

theorem Token.mem_of_isOperator {c : Char} {text : String}
    (h : (⟨.ofSymbol c, text⟩ : Token).isOperator) : c ∈ ['+', '-', '*', '/'] := by
  unfold isOperator at h
  split at h
  · next hkind => exact Kind.mem_of_ofSymbol_operator hkind
  · simp at h

/-- Only a token of a single character is ever refused. -/
theorem Fault.exists_blames {before : List Token} {token : Token} {rejection : Rejection}
    (hshaped : token.Shaped) (h : Fault before token rejection) :
    ∃ c, token.text = String.ofList [c] ∧ ¬isBlank c ∧ rejection.Blames c := by
  have hkind := h.kind
  cases hshaped with
  | number => simp [Token.isOperator] at hkind
  | name => simp [Token.isOperator] at hkind
  | @symbol c visible noDigit noLetter =>
    have hmeaningless (kind : Token.Kind.ofSymbol c = .invalid) : Meaningless c :=
      ⟨visible, noDigit, noLetter, Token.not_mem_symbols_of_invalid kind⟩
    refine ⟨c, rfl, visible, ?_⟩
    cases h with
    | unexpected leading kind => exact .unexpected (kind.imp Token.mem_of_isOperator hmeaningless)
    | unreadable noLeading kind => exact .unreadable (hmeaningless kind)
    | negate kind empty =>
      obtain rfl := Token.Kind.eq_of_ofSymbol_negate kind
      exact .underflow (by decide)
    | operator noLeading kind shallow =>
      exact .underflow (List.mem_append_left ['~'] (Token.mem_of_isOperator kind))
    | nothing kind noAssignment empty =>
      obtain rfl := Token.Kind.eq_of_ofSymbol_endMark kind
      exact .empty
    | several kind left many =>
      obtain rfl := Token.Kind.eq_of_ofSymbol_endMark kind
      exact .overfull

theorem Line.taken_of_next? {line line' : Line} {token : Token} {c : Char}
    (h : line.next? = some (token, line')) (htext : token.text = String.ofList [c]) :
    ∃ passed, line'.taken = c :: passed := by
  unfold next? at h
  split at h
  · simp at h
  · next first others hrest =>
    obtain ⟨rfl, rfl⟩ := Prod.mk.inj (Option.some.inj h)
    have hchars : (Token.lexeme first others).chars = [c] := String.ofList_injective htext
    simp [hchars]

theorem exists_rest_of_concat {front rest text : List Char} {c last : Char}
    (h : front ++ c :: rest = text ++ [last]) (hne : c ≠ last) :
    ∃ rest', rest = rest' ++ [last] ∧ text = front ++ c :: rest' := by
  rcases List.eq_nil_or_concat rest with rfl | ⟨rest', final, rfl⟩
  · obtain ⟨-, hlast⟩ := List.append_inj' h rfl
    exact absurd (List.singleton_inj.1 hlast) hne
  · rw [List.concat_eq_append, ← List.cons_append, ← List.append_assoc] at h
    obtain ⟨htext, hlast⟩ := List.append_inj' h rfl
    obtain rfl := List.singleton_inj.1 hlast
    exact ⟨rest', List.concat_eq_append, htext.symm⟩

/-- A single character that has just been taken stands on the line that was delivered last, behind
what has been taken of it before. It is not the newline that ends the line. -/
theorem Reader.HoldsLatest.exists_column {reader reader' : Reader σ} {token : Token} {c : Char}
    (h : reader.HoldsLatest) (hnext : reader.next = (.ok token, reader'))
    (htoken : token.text = String.ofList [c]) (hvisible : ¬isBlank c) :
    ∃ text passed rest earlier, reader'.channel.latestLine? = some text ∧
      text.toList = passed.reverse ++ c :: rest ∧ reader'.line.taken = c :: passed ∧
      reader'.line.chars = text.toList ++ ['\n'] ∧
      Token.scan reader'.line.rest = Token.scan rest ∧
      Token.scan text.toList = earlier ++ token :: Token.scan rest := by
  obtain ⟨line, hline, hends⟩ := h.exists_line hnext
  have hheld := h.next
  rw [hnext] at hheld
  have hchars := hheld.chars
  obtain ⟨passed, htaken⟩ := Line.taken_of_next? hline htoken
  have hsplit : reader'.line.chars = passed.reverse ++ c :: reader'.line.rest := by
    simp [Line.chars, htaken]
  cases hlatest : reader'.channel.latestLine? with
  | none => simp [hlatest, hsplit] at hchars
  | some text =>
    rw [hlatest, Option.elim_some] at hchars
    have hnewline : c ≠ '\n' := by
      rintro rfl
      exact hvisible (by decide)
    obtain ⟨rest, hrest, htext⟩ := exists_rest_of_concat (hsplit.symm.trans hchars) hnewline
    have hblank := Token.scan_concat_blank (show isBlank '\n' by decide)
    have hscan : Token.scan reader'.line.rest = Token.scan rest := by rw [hrest, hblank]
    rw [hscan, hchars, hblank] at hends
    obtain ⟨earlier, hearlier⟩ := hends
    exact ⟨text, passed, rest, earlier, rfl, htext, htaken, hchars, hscan, hearlier.symm⟩

/-- A caret is as far from the front as the character that it stands under. -/
theorem Rejection.report_of_taken {rejection : Rejection} {line : Line} {text : String}
    {c : Char} {passed : List Char} (htaken : line.taken = c :: passed)
    (hchars : line.chars = text.toList ++ ['\n']) :
    rejection.report line.text line.position = [rejection.message, text,
      String.ofList (List.replicate passed.reverse.length ' ' ++ ['^'])] := by
  rw [report, Line.text, hchars, List.dropLast_concat, String.ofList_toList, caret, Line.position,
    htaken, List.length_cons, Nat.add_sub_cancel, List.length_reverse]

namespace Calculator

/-- Whatever has been asked of a calculator on any sink, take the expression that it evaluates next,
or any expression of the session that it then runs. If it is refused, then for the first token with
which anything is wrong, and the report is written as soon as this token has been taken. The token
is a single character, and the one that is to blame. It is a token of the line that was delivered
last, which has some characters in front of it and a rest that nothing has been taken of. The report
repeats this line, and its last line has as many spaces as there are characters in front, and then
the caret. -/
theorem report_points_at_token (settings : Settings) (replies : List Reply) (sink : σ)
    (operations : List Operation) {calculator : Calculator σ} {rejection : Rejection}
    (hreached : let reached := operations.foldl perform (start settings { replies, sink })
      calculator = reached ∨ calculator ∈ (reached.note .started).rounds)
    (hrefuses : calculator.Refuses rejection) :
    ∃ before token c text front rest earlier journal,
      let place := calculator.reader.after (before.length + 1)
      FirstFault calculator.reader.ahead before token rejection ∧
      token.text = String.ofList [c] ∧ rejection.Blames c ∧
      place.channel.latestLine? = some text ∧ text.toList = front ++ c :: rest ∧
      Token.scan text.toList = earlier ++ token :: Token.scan rest ∧
      calculator.reader.ahead =
        before ++ token :: (Token.scan rest ++ place.skipLine.ahead) ∧
      calculator.evaluate.2.reader.channel =
        (Channel.writeLines { place.channel with journal } [rejection.message, text,
          String.ofList (List.replicate front.length ' ' ++ ['^'])]).2 := by
  have hstart : (start settings { replies, sink }).reader.HoldsLatest := ⟨rfl, List.suffix_rfl⟩
  have hoperations := holdsLatest_operations hstart operations
  have hholds : calculator.reader.HoldsLatest := by
    rcases hreached with rfl | hround
    · exact hoperations
    · exact stepwise_holdsLatest.of_mem_rounds hround ⟨hoperations.chars, hoperations.ends⟩
  obtain ⟨before, token, found, hrefused⟩ := hrefuses.exists_refusesAt
  have hnext := Reader.next_after hrefused.first.begins
  obtain ⟨line, line', hline⟩ := Reader.line_of_next hnext
  obtain ⟨c, htoken, hvisible, hblames⟩ :=
    hrefused.first.fault.exists_blames (Line.shaped_of_next? hline)
  obtain ⟨text, passed, rest, earlier, hlatest, htext, htaken, hchars, hrest, hscan⟩ :=
    (hholds.after before.length).exists_column hnext htoken hvisible
  have hahead := hrefused.ahead_eq
  rw [← hrefused.place.line] at htaken hchars hrest
  rw [hrest] at hahead
  refine ⟨before, token, c, text, passed.reverse, rest, earlier,
    .rejected rejection found.reader.line.position :: found.reader.channel.journal,
    hrefused.first, htoken, hblames, hlatest, htext, hscan, hahead, ?_⟩
  rw [hrefused.report, channel_reject, Rejection.report_of_taken htaken hchars,
    hrefused.place.channel_note]

/-- The second expression begins in the middle of a line, skips an empty one and is refused for the
last character of the third, which its own newline follows. -/
theorem report_points_at_last_character :
    let calculator : Calculator Paper := [Operation.evaluate].foldl perform (start {} {
      replies := [.line "y = 7 @ 1 2", .line "", .line " é *+~/"], sink := {} })
    calculator.Refuses .tooFewOperands ∧
      calculator.evaluate.2.reader.channel.sink.written =
        ">> >> >> Not enough operands\n é *+~/\n      ^\n" ∧
      ∃ c text front rest channel, Rejection.tooFewOperands.Blames c ∧
        channel.latestLine? = some text ∧ text.toList = front ++ c :: rest ∧
        calculator.evaluate.2.reader.channel = (Channel.writeLines channel ["Not enough operands",
          text, String.ofList (List.replicate front.length ' ' ++ ['^'])]).2 := by
  intro calculator
  have hrefuses : calculator.Refuses .tooFewOperands :=
    ⟨[.scanned ⟨.number, "1"⟩, .scanned ⟨.number, "2"⟩, .scanned ⟨.identifier, "é"⟩,
      .scanned ⟨.operator .multiply, "*"⟩, .scanned ⟨.operator .add, "+"⟩,
      .scanned ⟨.negate, "~"⟩, .scanned ⟨.operator .divide, "/"⟩, .rejected .tooFewOperands 7], 7,
      ⟨by decide +kernel, by decide +kernel⟩, by decide⟩
  obtain ⟨before, token, c, text, front, rest, earlier, journal, -, -, hblames, hlatest, htext, -,
    -, hreport⟩ := report_points_at_token {} [.line "y = 7 @ 1 2", .line "", .line " é *+~/"]
      ({} : Paper) [.evaluate] (.inl rfl) hrefuses
  exact ⟨hrefuses, by decide +kernel, c, text, front, rest,
    { (calculator.reader.after (before.length + 1)).channel with journal }, hblames, hlatest, htext,
    hreport⟩

end Calculator

end ReversePolish
