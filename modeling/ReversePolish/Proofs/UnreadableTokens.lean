import ReversePolish.Proofs.LiteralRounding
import ReversePolish.Proofs.NumberTokens
import ReversePolish.Proofs.PromptedReads
import ReversePolish.Proofs.SessionJournal
import ReversePolish.Proofs.TakenWrites

/-!
# Unreadable tokens

Every number token has a value that is no NaN and has no sign. So the only tokens that are ever
reported as unreadable are single characters without any meaning, and each of them is reported as
soon as it has been scanned. A session falls into passages, each with what is noted in it and the
calls that are made meanwhile, and reports are written only in those in which a token is refused.
-/

namespace ReversePolish

open Binary64 Literal

/-- A character that separates nothing, belongs to no number or name and is no symbol. -/
structure Meaningless (c : Char) : Prop where
  visible : ¬isBlank c
  noDigit : ¬c.isDigit
  noLetter : ¬isLetter c
  noSymbol : c ∉ ['+', '-', '*', '/', '=', '@', '~']

theorem Binary64.RoundsTo.unsigned {q : ℚ} {value : Binary64} (h : RoundsTo q false value) :
    value ≠ .nan ∧ value.isNegative = false ∧
      (value = .infinite false ↔ 2 ^ 1024 - 2 ^ 970 ≤ |q|) := by
  cases h with
  | finite rank below => exact ⟨by simp, rfl, iff_of_false (by simp) (not_le.2 below)⟩
  | infinite beyond => exact ⟨by simp, rfl, iff_of_true rfl beyond⟩

namespace Token

/-- The text is a numeral without a sign and without an exponent, which begins with a digit. Its
value is no NaN, has no sign, and is infinite only for what is too large. -/
def Numeric (text : String) : Prop :=
  ∃ numeral : Numeral, numeral.whole ≠ [] ∧ numeral.exponent = none ∧
    text.toList = numeral.chars ∧ ∃ value, numberValue text = .ok value ∧ value ≠ .nan ∧
      value.isNegative = false ∧ (value = .infinite false ↔ 2 ^ 1024 - 2 ^ 970 ≤ numeral.value)

structure Sound (token : Token) : Prop where
  number : token.kind = .number → Numeric token.text
  invalid : token.kind = .invalid → ∃ c, token.text = String.ofList [c] ∧ Meaningless c

theorem numeric_of_isNumeral {front : List Char} (h : IsNumeral front) :
    Numeric (String.ofList front) := by
  obtain ⟨numeral, hne, hexponent, rfl⟩ := isNumeral_iff.1 h
  have hzero : numeral.exponentValue = 0 := by rw [Numeral.exponentValue, hexponent]; rfl
  have hread := read?_numeral .absent numeral (Numeral.exponent?_scaling (by rw [hzero]; decide))
  have hrounds := (numeral.scaled numeral.exponentValue).toBinary64_rounds false
  obtain ⟨hnan, hsign, hinfinite⟩ := hrounds.unsigned
  refine ⟨numeral, hne, hexponent, String.toList_ofList, _, ?_, hnan, hsign, ?_⟩
  · rw [numberValue, show numeral.chars = Sign.absent.chars ++ numeral.chars from rfl, hread]
    rfl
  · rw [hinfinite, abs_withSign, abs_of_nonneg (Decimal.value_nonneg _), Numeral.value]

theorem not_mem_symbols_of_invalid {c : Char} (h : Kind.ofSymbol c = .invalid) :
    c ∉ ['+', '-', '*', '/', '=', '@', '~'] := by
  intro hmem
  simp only [List.mem_cons, List.not_mem_nil, or_false] at hmem
  rcases hmem with rfl | rfl | rfl | rfl | rfl | rfl | rfl <;> simp [Kind.ofSymbol] at h

end Token

theorem BeginsWith.sound {first : Char} {others : List Char} {token : Token}
    (hvisible : ¬isBlank first) (h : BeginsWith (first :: others) token) : token.Sound := by
  cases h with
  | number digit munch => exact ⟨fun _ => Token.numeric_of_isNumeral munch.form, by simp⟩
  | name => exact ⟨by simp, by simp⟩
  | symbol noDigit noLetter =>
    refine ⟨fun hkind => absurd hkind (Token.Kind.ofSymbol_ne_number first), fun hkind => ?_⟩
    exact ⟨first, rfl, hvisible, noDigit, noLetter, Token.not_mem_symbols_of_invalid hkind⟩

theorem Line.sound_of_next? {line line' : Line} {token : Token}
    (h : line.next? = some (token, line')) : token.Sound := by
  have hvisible := List.head?_dropWhile_not isBlank line.rest
  unfold next? at h
  split at h
  · simp at h
  · next first others hrest =>
    obtain ⟨rfl, -⟩ := Prod.mk.inj (Option.some.inj h)
    rw [hrest] at hvisible
    exact (Token.beginsWith_lexeme first others).sound (by simpa using hvisible)

theorem Reader.sound_of_next {σ : Type} [Sink σ] {reader reader' : Reader σ} {token : Token}
    (h : reader.next = (.ok token, reader')) : token.Sound := by
  obtain ⟨line, line', hline⟩ := line_of_next h
  exact Line.sound_of_next? hline

namespace Progress

variable {valueOf : String → Binary64} {operands : Operands} {progress : Progress} {token : Token}
  {text : String}

/-- Operands are refused for their number only. -/
theorem kind_of_operate_unreadable (hsound : token.Sound)
    (h : operate valueOf operands token = .reject (.unreadable text)) :
    token.kind = .invalid ∧ token.text = text := by
  obtain ⟨values⟩ := operands
  unfold operate at h
  split at h
  · next hkind =>
    obtain ⟨numeral, -, -, -, value, hvalue, -⟩ := hsound.number hkind
    rw [hvalue] at h
    cases h
  · cases h
  · rcases values with _ | ⟨value, below⟩ <;> cases h
  · rcases values with _ | ⟨first, _ | ⟨second, below⟩⟩ <;> cases h
  · rcases values with _ | ⟨value, _ | ⟨second, below⟩⟩ <;> cases h
  · next hkind => exact ⟨hkind, Rejection.unreadable.inj (Verdict.reject.inj h)⟩
  · cases h

/-- Of what a reader delivers only an invalid token is refused as unreadable. -/
theorem kind_of_step_unreadable (hsound : token.Sound)
    (h : progress.step valueOf operands token = .reject (.unreadable text)) :
    token.kind = .invalid ∧ token.text = text := by
  rcases step_cases valueOf progress operands token with
    ⟨given, hstep⟩ | ⟨-, hstep | hstep⟩ | ⟨-, ⟨name, later, hstep⟩ | hstep⟩ | ⟨-, hstep⟩
  · exact kind_of_operate_unreadable hsound (hstep.symm.trans h)
  all_goals simp [hstep] at h

end Progress

/-- In some events, in order, whatever is reported as unreadable is a single meaningless character
that has just been scanned as an invalid token. -/
def ReportsInvalid (events : List Event) : Prop :=
  ∀ before text position after, events = before ++ .rejected (.unreadable text) position :: after →
    ∃ earlier c, before = earlier ++ [.scanned ⟨.invalid, text⟩] ∧ text = String.ofList [c] ∧
      Meaningless c

namespace ReportsInvalid

variable {events events' : List Event}

theorem of_no_report (h : ∀ rejection position, .rejected rejection position ∉ events) :
    ReportsInvalid events := by
  rintro before text position after rfl
  exact absurd (by simp) (h (.unreadable text) position)

theorem append (h : ReportsInvalid events) (h' : ReportsInvalid events') :
    ReportsInvalid (events ++ events') := by
  intro before text position after heq
  rcases List.append_eq_append_iff.1 heq with ⟨middle, rfl, heq'⟩ | ⟨middle, heq', htail⟩
  · obtain ⟨earlier, c, rfl, hc⟩ := h' middle text position after heq'
    exact ⟨events ++ earlier, c, (List.append_assoc ..).symm, hc⟩
  · cases middle with
    | nil =>
      obtain ⟨earlier, c, hnil, -⟩ := h' [] text position after htail.symm
      simp at hnil
    | cons event middle =>
      obtain ⟨rfl, -⟩ := List.cons.inj htail
      exact h before text position middle heq'

theorem report {token : Token} {rejection : Rejection} (position : Nat)
    (hreason : ∀ text, rejection = .unreadable text →
      token = ⟨.invalid, text⟩ ∧ ∃ c, text = String.ofList [c] ∧ Meaningless c) :
    ReportsInvalid [.scanned token, .rejected rejection position] := by
  intro before text position' after heq
  rcases before with _ | ⟨event, _ | ⟨event', before⟩⟩
  · simp at heq
  · simp only [List.singleton_append, List.cons.injEq, Event.rejected.injEq] at heq
    obtain ⟨rfl, ⟨hrejection, -⟩, -⟩ := heq
    obtain ⟨rfl, c, htext, hmeaningless⟩ := hreason text hrejection
    exact ⟨[], c, rfl, htext, hmeaningless⟩
  · simp at heq

end ReportsInvalid

/-- A call that is no part of a report: it writes the prompt, the line of an outcome or the
farewell, or nothing. -/
def Call.Unreported (prompt farewell : String) : Call → Prop
  | .write text _ =>
    text = prompt ∨ (∃ outcome : Outcome, text = outcome.line ++ "\n") ∨
      text = "\n" ++ farewell ++ "\n"
  | .flush _ | .readLine _ => True

/-- What a session notes for a while, and the calls that it makes meanwhile. -/
structure Passage where
  events : List Event
  calls : List Call

/-- In a passage either nothing is refused and no report is written, or a token is asked for and
refused, and the lines of the report are offered to the sink. What is refused as unreadable is a
single meaningless character. -/
inductive Passage.Explained (σ : Type) [Sink σ] (prompt farewell : String) : Passage → Prop
  | unreported {events : List Event} {calls : List Call}
      (unrefused : ∀ rejection position, .rejected rejection position ∉ events)
      (plain : ∀ call ∈ calls, call.Unreported prompt farewell) :
      Explained σ prompt farewell ⟨events, calls⟩
  | reported {reader place : Reader σ} {token rejection} {asked : List Call}
      (next : reader.next = (.ok token, place))
      (asks : place.channel.calls = asked.reverse ++ reader.channel.calls)
      (plain : ∀ call ∈ asked, call.Unreported prompt farewell)
      (reason : ∀ text, rejection = .unreadable text →
        token = ⟨.invalid, text⟩ ∧ ∃ c, text = String.ofList [c] ∧ Meaningless c) :
      Explained σ prompt farewell
        ⟨[.scanned token, .rejected rejection place.line.position],
          asked ++ Sink.tries place.channel.sink (rejection.linesAt place)⟩

section Passages

variable {σ : Type} [Sink σ] {prompt farewell : String}

theorem Passage.Explained.reportsInvalid {passage : Passage}
    (h : passage.Explained σ prompt farewell) : ReportsInvalid passage.events := by
  cases h with
  | unreported unrefused plain => exact .of_no_report unrefused
  | reported next asks plain reason => exact .report _ reason

theorem ReportsInvalid.of_passages {passages : List Passage}
    (h : ∀ passage ∈ passages, passage.Explained σ prompt farewell) :
    ReportsInvalid (passages.flatMap Passage.events) := by
  induction passages with
  | nil => exact .of_no_report (by simp)
  | cons passage passages ih =>
    obtain ⟨hpassage, hpassages⟩ := List.forall_mem_cons.1 h
    exact hpassage.reportsInvalid.append (ih hpassages)

omit [Sink σ] in
theorem Attempt.unreported {calls : List Call} (h : Attempt prompt calls) :
    ∀ call ∈ calls, call.Unreported prompt farewell := by
  have hprompt : ∀ call ∈ promptCalls prompt, call.Unreported prompt farewell := by
    unfold promptCalls
    split <;> simp [Call.Unreported]
  cases h with
  | unprompted => simp [Call.Unreported]
  | unflushed => exact List.forall_mem_cons.2 ⟨trivial, hprompt⟩
  | answered reply =>
    exact List.forall_mem_cons.2 ⟨trivial, List.forall_mem_cons.2 ⟨trivial, hprompt⟩⟩

/-- A request for a token writes the prompt and nothing else. -/
theorem Reader.exists_asked (reader : Reader σ) (farewell : String) :
    ∃ asked : List Call, reader.next.2.channel.calls = asked.reverse ++ reader.channel.calls ∧
      ∀ call ∈ asked, call.Unreported reader.prompt farewell := by
  obtain ⟨calls, ⟨attempts, hattempts, rfl⟩, hcalls⟩ := reader.attempts_next
  refine ⟨attempts.flatten.reverse, by rw [List.reverse_reverse, hcalls], fun call hcall => ?_⟩
  obtain ⟨attempt, hattempt, hcall⟩ := List.mem_flatten.1 (List.mem_reverse.1 hcall)
  exact (hattempts attempt hattempt).unreported call hcall

end Passages

namespace Calculator

variable {σ : Type} [Sink σ]

structure Spans (earlier later : Calculator σ) (passages : List Passage) : Prop where
  proceeds : Proceeds earlier later
  records : Records earlier later (passages.flatMap Passage.events)
  calls : later.reader.channel.calls =
    (passages.flatMap Passage.calls).reverse ++ earlier.reader.channel.calls
  explained : ∀ passage ∈ passages,
    passage.Explained σ earlier.reader.prompt earlier.farewell

def Reports (earlier later : Calculator σ) : Prop := ∃ passages, Spans earlier later passages

theorem Reports.trans {earlier calculator later : Calculator σ} (h : Reports earlier calculator)
    (h' : Reports calculator later) : Reports earlier later := by
  obtain ⟨passages, hspans⟩ := h
  obtain ⟨passages', hspans'⟩ := h'
  refine ⟨passages ++ passages', hspans.proceeds.trans hspans'.proceeds, ?_, ?_, ?_⟩
  · rw [List.flatMap_append]
    exact hspans.records.trans hspans'.records
  · rw [hspans'.calls, hspans.calls, List.flatMap_append, List.reverse_append, List.append_assoc]
  · intro passage hpassage
    rcases List.mem_append.1 hpassage with hpassage | hpassage
    · exact hspans.explained passage hpassage
    · rw [← hspans.proceeds.prompt, ← hspans.proceeds.farewell]
      exact hspans'.explained passage hpassage

theorem Reports.of_passage {earlier later : Calculator σ} (passage : Passage)
    (hproceeds : Proceeds earlier later) (hrecords : Records earlier later passage.events)
    (hcalls : later.reader.channel.calls = passage.calls.reverse ++ earlier.reader.channel.calls)
    (hexplained : passage.Explained σ earlier.reader.prompt earlier.farewell) :
    Reports earlier later := by
  refine ⟨[passage], hproceeds, ?_, ?_, by simpa using hexplained⟩
  · rwa [List.flatMap_singleton]
  · rwa [List.flatMap_singleton]

theorem Records.reports {earlier later : Calculator σ} {events : List Event}
    (h : Records earlier later events) (hproceeds : Proceeds earlier later)
    (hcalls : later.reader.channel.calls = earlier.reader.channel.calls)
    (hno : ∀ rejection position, .rejected rejection position ∉ events) : Reports earlier later :=
  .of_passage ⟨events, []⟩ hproceeds h hcalls (.unreported hno (by simp))

theorem reports_operands (calculator : Calculator σ) (operands : Operands) :
    Reports calculator { calculator with operands } :=
  (calculator.records_operands operands).reports (stepwise_proceeds.operands _ _) rfl (by simp)

theorem reports_retarget (calculator : Calculator σ) (name : String) :
    Reports calculator (calculator.retarget name) :=
  .of_passage ⟨[.retargeted name], []⟩ (stepwise_proceeds.retarget _ _) ⟨rfl, rfl⟩ rfl
    (.unreported (by simp) (by simp))

theorem reports_ignore (calculator : Calculator σ) :
    Reports calculator (calculator.note .assignIgnored) :=
  (calculator.records_note rfl).reports (stepwise_proceeds.ignore _) rfl (by simp)

theorem reports_store (calculator : Calculator σ) (value : Binary64) :
    Reports calculator (calculator.store value) :=
  .of_passage ⟨[.evaluated calculator.memory.target value], []⟩ (stepwise_proceeds.store _ _)
    ⟨rfl, rfl⟩ rfl (.unreported (by simp) (by simp))

theorem exists_asked_of_next {calculator : Calculator σ} {answer : Except Stop Token}
    {reader : Reader σ} (h : calculator.reader.next = (answer, reader)) :
    ∃ asked : List Call, reader.channel.calls = asked.reverse ++ calculator.reader.channel.calls ∧
      ∀ call ∈ asked, call.Unreported calculator.reader.prompt calculator.farewell := by
  have hasked := calculator.reader.exists_asked calculator.farewell
  rwa [h] at hasked

theorem reports_of_token {calculator : Calculator σ} {token : Token} {reader : Reader σ}
    {operands : Operands} (h : calculator.reader.next = (.ok token, reader)) :
    Reports calculator { calculator with reader, operands } := by
  obtain ⟨asked, hcalls, hplain⟩ := exists_asked_of_next h
  exact .of_passage ⟨[.scanned token], asked⟩ (stepwise_proceeds.of_token h operands)
    (records_of_token h) hcalls (.unreported (by simp) hplain)

theorem reports_of_stop {calculator : Calculator σ} {stop : Stop} {reader : Reader σ}
    (h : calculator.reader.next = (.error stop, reader)) :
    Reports calculator { calculator with reader } := by
  obtain ⟨asked, hcalls, hplain⟩ := exists_asked_of_next h
  exact .of_passage ⟨[], asked⟩ (stepwise_proceeds.of_next h) (records_of_stop h)
    hcalls (.unreported (by simp) hplain)

theorem reports_reject {calculator : Calculator σ} {progress : Progress} {token : Token}
    {reader : Reader σ} {rejection : Rejection} (h : calculator.reader.next = (.ok token, reader))
    (hstep : progress.step calculator.memory.get calculator.operands token = .reject rejection) :
    Reports calculator ({ calculator with reader }.reject rejection).2 := by
  obtain ⟨asked, hcalls, hplain⟩ := exists_asked_of_next h
  have hreason : ∀ text, rejection = .unreadable text →
      token = ⟨.invalid, text⟩ ∧ ∃ c, text = String.ofList [c] ∧ Meaningless c := by
    rintro text rfl
    have hsound := Reader.sound_of_next h
    obtain ⟨kind, text'⟩ := token
    obtain ⟨rfl, rfl⟩ := Progress.kind_of_step_unreadable hsound hstep
    exact ⟨rfl, hsound.invalid rfl⟩
  refine .of_passage _ ((stepwise_proceeds.of_next h).trans (stepwise_proceeds.reject _ _))
    ((records_of_token h).trans (records_reject _ rejection)) ?_
    (.reported h hcalls hplain hreason)
  rw [calls_reject, hcalls, List.reverse_append, List.append_assoc]

/-- The induction is on the tokens that are taken. A report is the last that becomes of them. -/
theorem reports_advance (calculator : Calculator σ) (progress : Progress) :
    Reports calculator (calculator.advance progress).2 := by
  fun_induction advance calculator progress with
  | case1 calculator progress stop reader hnext => exact reports_of_stop hnext
  | case2 calculator progress token reader hnext progress' operands hstep ih =>
    exact (reports_of_token hnext).trans ih
  | case3 calculator progress token reader hnext name operands hstep ih =>
    exact (reports_of_token hnext).trans ((reports_retarget _ name).trans ih)
  | case4 calculator progress token reader hnext operands hstep ih =>
    exact (reports_of_token hnext).trans ((reports_ignore _).trans ih)
  | case5 calculator progress token reader hnext value operands hstep =>
    exact (reports_of_token hnext).trans (reports_store _ value)
  | case6 calculator progress token reader hnext rejection hstep => exact reports_reject hnext hstep
  | case7 calculator progress token reader hnext hstep => exact reports_of_token hnext

theorem reports_of_evaluate {calculator evaluated : Calculator σ} {result : Except Stop Outcome}
    (h : calculator.evaluate = (result, evaluated)) : Reports calculator evaluated := by
  have hevaluate := calculator.clear.reports_advance .fresh
  rw [evaluate] at h
  rw [h] at hevaluate
  exact (calculator.reports_operands _).trans hevaluate

theorem reports_of_say {calculator said : Calculator σ} {outcome : Outcome}
    {answer : Except String Unit} (h : calculator.say outcome.line = (answer, said)) :
    Reports calculator said := by
  have hcalls := calculator.calls_say outcome.line
  rw [h] at hcalls
  have hrecords := calculator.records_say outcome.line
  rw [h] at hrecords
  refine .of_passage ⟨[], [.write (outcome.line ++ "\n") answer.isOk]⟩
    (stepwise_proceeds.of_say h) hrecords hcalls (.unreported (by simp) ?_)
  simp only [List.mem_singleton, forall_eq]
  exact .inr (.inl ⟨outcome, rfl⟩)

theorem reports_close (calculator : Calculator σ) (how : Ending) :
    Reports calculator (calculator.close how).2 := by
  obtain ⟨calls, hcalls, hcases⟩ := calculator.calls_close how
  refine .of_passage ⟨[.ended how], calls.reverse⟩ (stepwise_proceeds.close _ _)
    (calculator.records_close how) (by rw [hcalls, List.reverse_reverse])
    (.unreported (by simp) ?_)
  rcases hcases with ⟨-, rfl⟩ | ⟨-, rfl⟩ | ⟨-, rfl⟩ <;> simp [Call.Unreported]

theorem reports_converse (calculator : Calculator σ) :
    Reports calculator calculator.converse.2 := by
  fun_induction converse calculator with
  | case1 calculator how evaluated hevaluate =>
    exact (reports_of_evaluate hevaluate).trans (evaluated.reports_close how)
  | case2 calculator message evaluated hevaluate => exact reports_of_evaluate hevaluate
  | case3 calculator outcome evaluated hevaluate message said hsay =>
    exact (reports_of_evaluate hevaluate).trans (reports_of_say hsay)
  | case4 calculator outcome evaluated hevaluate said hsay ih =>
    exact (reports_of_evaluate hevaluate).trans ((reports_of_say hsay).trans ih)

/-- Every number token that a reader delivers has a value without a sign. What a session reports as
unreadable, whatever its input and its sink, is a single meaningless character that has just been
scanned as an invalid token: so its journal says, and all that it writes are such reports, reports
of other rejections, and what belongs to no report. -/
theorem only_invalid_unreadable (calculator : Calculator σ) :
    (∀ (reader reader' : Reader σ) (token : Token), reader.next = (.ok token, reader') →
      token.kind = .number → Token.Numeric token.text) ∧
    ∃ passages : List Passage,
      let events := passages.flatMap Passage.events
      Records calculator calculator.run.2 events ∧ ReportsInvalid events ∧
      calculator.run.2.reader.channel.calls =
        (passages.flatMap Passage.calls).reverse ++ calculator.reader.channel.calls ∧
      ∀ passage ∈ passages, passage.Explained σ calculator.reader.prompt calculator.farewell := by
  refine ⟨fun reader reader' token hnext => (Reader.sound_of_next hnext).number, ?_⟩
  have hstart : Reports calculator (calculator.note .started) :=
    (calculator.records_note rfl).reports (stepwise_proceeds.start _) rfl (by simp)
  obtain ⟨passages, hspans⟩ := hstart.trans (reports_converse _)
  exact ⟨passages, hspans.records, .of_passages hspans.explained, hspans.calls, hspans.explained⟩

/-- A number that ends in its point, and a character without a meaning. -/
example :
    let calculator : Calculator Paper := .start {} { replies := [.line "7.#"], sink := {} }
    calculator.run.2.reader.channel.journal =
      [.ended .endOfInput, .rejected (.unreadable "#") 3, .scanned ⟨.invalid, "#"⟩,
        .scanned ⟨.number, "7."⟩, .started] := by
  decide +kernel

end Calculator

end ReversePolish
