import ReversePolish.Proofs.SessionDeeds
import ReversePolish.Proofs.TokenByToken

/-!
# The two accounts of a session

What a session makes of an expression it writes and notes, each in its own way. On a sink that never
fails the two accounts are in step: they tell the same findings in the same order, one for every
expression that comes to an outcome. Apart from them prompts are written, and the tokens are noted
that the expressions consume.
-/

namespace ReversePolish

inductive Finding where
  | value (target : String) (value : Binary64)
  | rejected (rejection : Rejection) (source : String) (position : Nat)
  deriving DecidableEq

namespace Finding

def lines : Finding → List String
  | value _ v => [Outcome.line (.value v)]
  | rejected rejection source position =>
    rejection.report source position ++ [Outcome.line (.rejected rejection)]

def text (finding : Finding) : String := Deed.text (.say finding.lines)

def event : Finding → Event
  | value target v => .evaluated target v
  | rejected rejection _ position => .rejected rejection position

end Finding

namespace Event

def isFinding : Event → Bool
  | evaluated .. | rejected .. => true
  | started | scanned _ | retargeted _ | assignIgnored | ended _ => false

def isBound : Event → Bool
  | started | ended _ => true
  | scanned _ | retargeted _ | assignIgnored | evaluated .. | rejected .. => false

end Event

/-- What is noted at the end of a session. One that breaks off notes nothing. -/
def endingEvents : Except String Ending → List Event
  | .ok how => [.ended how]
  | .error _ => []

theorem token?_endingEvents (ended : Except String Ending) :
    (endingEvents ended).filterMap Event.token? = [] := by
  cases ended <;> rfl

theorem isFinding_endingEvents (ended : Except String Ending) :
    (endingEvents ended).filter Event.isFinding = [] := by
  cases ended <;> rfl

def endingText (farewell : String) : Except String Ending → String
  | .ok _ => "\n" ++ farewell ++ "\n"
  | .error _ => ""

/-- A text is made of those on some findings, in order, with prompts before, between and after
them. -/
inductive Shows (prompt : String) : List Finding → String → Prop
  | nothing : Shows prompt [] ""
  | asked {findings text} (later : Shows prompt findings text) :
      Shows prompt findings (prompt ++ text)
  | told {findings text} (finding : Finding) (later : Shows prompt findings text) :
      Shows prompt (finding :: findings) (finding.text ++ text)

namespace Shows

variable {prompt text text' : String} {findings findings' : List Finding}

theorem append (h : Shows prompt findings text) (h' : Shows prompt findings' text') :
    Shows prompt (findings ++ findings') (text ++ text') := by
  induction h with
  | nothing => rwa [String.empty_append]
  | asked later ih =>
    rw [String.append_assoc]
    exact .asked ih
  | told finding later ih =>
    rw [String.append_assoc]
    exact .told finding ih

theorem single (finding : Finding) : Shows prompt [finding] finding.text := by
  rw [← String.append_empty (s := finding.text)]
  exact .told finding .nothing

end Shows

theorem Line.position_of_next? {line line' : Line} {token : Token}
    (h : line.next? = some (token, line')) : line.position < line'.position := by
  have hchars := congrArg List.length (chars_of_next? h)
  have hrest := rest_length_of_next? h
  simp only [chars, List.length_append, List.length_reverse] at hchars
  rw [position, position]
  omega

theorem Rejection.length_caret {position : Nat} (h : 0 < position) :
    (caret position).length = position := by
  rw [caret, String.length_ofList, List.length_append, List.length_replicate]
  exact Nat.sub_add_cancel h

variable {σ : Type}

namespace Calculator

/-- A finding tells what the rest of an expression comes to: the variable that the value has been
stored in, or the line that was being read, with a caret at the position that is noted. -/
inductive Finds (memory : Memory) : Except Stop Outcome × Calculator σ → Finding → Prop
  | value {evaluated : Calculator σ} {target v}
      (stored : evaluated.memory = (memory.retarget target).store v) :
      Finds memory (.ok (.value v), evaluated) (.value target v)
  | rejected {evaluated : Calculator σ} {rejection position}
      (caret : (Rejection.caret position).length = position) :
      Finds memory (.ok (.rejected rejection), evaluated)
        (.rejected rejection evaluated.reader.line.text position)

/-- The account of what happens from an earlier calculator to a later one: some events have been
noted and some findings written, in step. -/
structure Account (written : σ → String) (earlier later : Calculator σ) (events : List Event)
    (findings : List Finding) : Prop where
  journal : later.reader.channel.journal = events.reverse ++ earlier.reader.channel.journal
  prompt : later.reader.prompt = earlier.reader.prompt
  farewell : later.farewell = earlier.farewell
  shows : ∃ text, Shows earlier.reader.prompt findings text ∧
    written later.reader.channel.sink = written earlier.reader.channel.sink ++ text
  tells : events.filter Event.isFinding = findings.map Finding.event
  inside : ∀ event ∈ events, ¬event.isBound

namespace Account

variable {written : σ → String} {earlier calculator later : Calculator σ}
  {events events' : List Event} {findings findings' : List Finding}

theorem of_silent
    (journal : later.reader.channel.journal = events.reverse ++ earlier.reader.channel.journal)
    (prompt : later.reader.prompt = earlier.reader.prompt)
    (farewell : later.farewell = earlier.farewell)
    (sink : later.reader.channel.sink = earlier.reader.channel.sink)
    (other : ∀ event ∈ events, ¬event.isFinding ∧ ¬event.isBound) :
    Account written earlier later events [] where
  journal := journal
  prompt := prompt
  farewell := farewell
  shows := ⟨"", .nothing, by rw [sink, String.append_empty]⟩
  tells := List.filter_eq_nil_iff.2 fun event h => (other event h).1
  inside event h := (other event h).2

theorem trans (h : Account written earlier calculator events findings)
    (h' : Account written calculator later events' findings') :
    Account written earlier later (events ++ events') (findings ++ findings') where
  journal := by rw [h'.journal, h.journal, List.reverse_append, List.append_assoc]
  prompt := h'.prompt.trans h.prompt
  farewell := h'.farewell.trans h.farewell
  shows := by
    obtain ⟨text, hshows, htext⟩ := h.shows
    obtain ⟨text', hshows', htext'⟩ := h'.shows
    rw [h.prompt] at hshows'
    exact ⟨text ++ text', hshows.append hshows', by rw [htext', htext, String.append_assoc]⟩
  tells := by rw [List.filter_append, h.tells, h'.tells, List.map_append]
  inside := List.forall_mem_append.2 ⟨h.inside, h'.inside⟩

theorem tokens (h : Account written earlier later events findings) :
    later.tokens = earlier.tokens ++ events.filterMap Event.token? := by
  rw [Calculator.tokens, h.journal, List.reverse_append, List.reverse_reverse,
    List.filterMap_append, Calculator.tokens]

end Account

end Calculator

variable [Sink σ] {written : σ → String}

theorem Reader.position_of_next {reader reader' : Reader σ} {token : Token}
    (h : reader.next = (.ok token, reader')) : 0 < reader'.line.position := by
  fun_induction next reader with
  | case1 reader token line hline =>
    obtain ⟨-, rfl⟩ := Prod.mk.inj h
    exact Nat.zero_lt_of_lt (Line.position_of_next? hline)
  | case2 reader hline reader₁ hfetch ih => exact ih h
  | case3 => cases h

namespace Calculator

/-- The tokens that are requested for the rest of an expression, until one settles it or there are
no more. -/
def consumed (calculator : Calculator σ) (progress : Progress) : List Token :=
  match _h : calculator.reader.next with
  | (.error _, _) => []
  | (.ok token, reader) =>
    match _hheed : heed { calculator with reader } progress token with
    | .inl _ => [token]
    | .inr (calculator', progress') => token :: consumed calculator' progress'
termination_by calculator.unread
decreasing_by
  obtain ⟨hline, -, hreplies, -⟩ := alike_of_more _hheed
  have hless := Reader.unread_of_next _h
  rw [unread, Reader.unread, hline, hreplies]
  exact hless

/-- The journal names the tokens that are consumed, each once and in order. -/
theorem takenBy_eq_consumed (calculator : Calculator σ) (progress : Progress) :
    calculator.takenBy progress = calculator.consumed progress := by
  fun_induction consumed calculator progress with
  | case1 calculator progress cause reader hnext => exact takenBy_of_stop hnext
  | case2 calculator progress token reader hnext result hheed => exact takenBy_of_done hnext hheed
  | case3 calculator progress token reader hnext calculator' progress' hheed ih =>
    rw [takenBy_of_more hnext hheed, ih]

/-- The calculators that a session starts its expressions with, the last one included that does not
come to an outcome. -/
def rounds (calculator : Calculator σ) : List (Calculator σ) :=
  calculator :: match _h : calculator.evaluate with
    | (.error _, _) => []
    | (.ok outcome, evaluated) =>
      match _hsay : evaluated.say outcome.line with
      | (.error _, _) => []
      | (.ok (), said) => rounds said
termination_by calculator.unread
decreasing_by
  have hsay := unread_say evaluated outcome.line
  rw [_hsay] at hsay
  exact hsay ▸ unread_of_evaluate _h

def consumedInAll (calculator : Calculator σ) : List Token :=
  calculator.rounds.flatMap (·.clear.consumed .fresh)

/-- The calculators that a session starts those expressions with that come to an outcome. -/
def answered (calculator : Calculator σ) : List (Calculator σ) :=
  calculator.rounds.filter (·.evaluate.1.isOk)

variable [Sink.Reliable σ]

section

variable (hkeeps : Sink.Keeps written)

include hkeeps

theorem written_fetch (reader : Reader σ) :
    written reader.fetch.2.channel.sink = written reader.channel.sink ++ reader.prompt := by
  have hload : ∀ reader : Reader σ, reader.load.2.channel.sink = reader.channel.sink := by
    intro reader
    unfold Reader.load Channel.readLine
    split <;> next h => split at h <;> cases h <;> rfl
  rw [Reader.fetch_eq_load, hload]
  exact hkeeps.prompted reader.channel reader.prompt

theorem shows_next (reader : Reader σ) :
    ∃ text, Shows reader.prompt [] text ∧
      written reader.next.2.channel.sink = written reader.channel.sink ++ text := by
  fun_induction Reader.next reader with
  | case1 reader token line hline => exact ⟨"", .nothing, String.append_empty.symm⟩
  | case2 reader hline fetched hfetch ih =>
    have hwritten := written_fetch hkeeps reader
    obtain ⟨text, hshows, htext⟩ := ih
    rw [hfetch] at hwritten
    rw [Reader.prompt_of_fetch hfetch] at hshows
    exact ⟨reader.prompt ++ text, .asked hshows, by rw [htext, hwritten, String.append_assoc]⟩
  | case3 reader hline cause fetched hfetch =>
    have hwritten := written_fetch hkeeps reader
    rw [hfetch] at hwritten
    exact ⟨reader.prompt ++ "", .asked .nothing, by rw [String.append_empty]; exact hwritten⟩

theorem account_next (calculator : Calculator σ) :
    Account written calculator { calculator with reader := calculator.reader.next.2 }
      (calculator.reader.next.1.toOption.toList.map .scanned) [] where
  journal := by
    refine calculator.reader.journal_next.trans (congrArg (· ++ _) ?_)
    cases calculator.reader.next.1 <;> rfl
  prompt := calculator.reader.prompt_next
  farewell := rfl
  shows := shows_next hkeeps calculator.reader
  tells := by cases calculator.reader.next.1 <;> rfl
  inside := by cases calculator.reader.next.1 <;> simp [Except.toOption, Event.isBound]

theorem account_of_next {calculator : Calculator σ} {answer : Except Stop Token} {reader : Reader σ}
    (hnext : calculator.reader.next = (answer, reader)) :
    Account written calculator { calculator with reader }
      (answer.toOption.toList.map .scanned) [] := by
  have haccount := account_next hkeeps calculator
  rw [hnext] at haccount
  exact haccount

theorem written_say (calculator : Calculator σ) (text : String) :
    written (calculator.say text).2.reader.channel.sink =
      written calculator.reader.channel.sink ++ Deed.text (.say [text]) := by
  have hline := hkeeps.writeLines calculator.reader.channel [text]
  rw [Channel.writeLines_cons] at hline
  exact hline

/-- A value is noted as it is stored, and written as it is said. -/
theorem account_of_value (calculator : Calculator σ) (v : Binary64) :
    Account written calculator ((calculator.store v).say (Outcome.line (.value v))).2
      [.evaluated calculator.memory.target v] [.value calculator.memory.target v] where
  journal := rfl
  prompt := rfl
  farewell := rfl
  shows := ⟨_, .single _, written_say hkeeps (calculator.store v) _⟩
  tells := rfl
  inside := by simp [Event.isBound]

/-- A rejection is noted before its report is written, and the last line comes as it is said. -/
theorem account_of_rejection (calculator : Calculator σ) (rejection : Rejection) :
    let source := calculator.reader.line.text
    let position := calculator.reader.line.position
    Account written calculator
      ((calculator.rejected rejection).say (Outcome.line (.rejected rejection))).2
      [.rejected rejection position] [.rejected rejection source position] where
  journal := (calculator.reader.channel.note _).journal_writeLines _
  prompt := rfl
  farewell := rfl
  shows := by
    have hreport := hkeeps.writeLines (calculator.reader.channel.note
      (.rejected rejection calculator.reader.line.position))
      (rejection.report calculator.reader.line.text calculator.reader.line.position)
    have hlast := written_say hkeeps (calculator.rejected rejection)
      (Outcome.line (.rejected rejection))
    refine ⟨_, .single _, ?_⟩
    rw [Finding.text, Finding.lines, Deed.text_say_append, ← String.append_assoc]
    exact hlast.trans (congrArg (· ++ _) hreport)
  tells := rfl
  inside := by simp [Event.isBound]

end

/-- The account of an expression up to what is said of it, if it comes to an outcome, and up to its
stop if it does not. -/
inductive Accounted (written : σ → String) (calculator : Calculator σ) :
    Except Stop Outcome × Calculator σ → Prop
  | found {outcome evaluated events finding}
      (account : Account written calculator (evaluated.say outcome.line).2 events [finding])
      (finds : Finds calculator.memory (.ok outcome, evaluated) finding) :
      Accounted written calculator (.ok outcome, evaluated)
  | stopped {cause evaluated events} (account : Account written calculator evaluated events []) :
      Accounted written calculator (.error cause, evaluated)

variable {calculator calculator' : Calculator σ} {progress progress' : Progress} {token : Token}
  {reader : Reader σ} {result : Except Stop Outcome × Calculator σ} {events : List Event}

omit [Sink σ] [Sink.Reliable σ] in
/-- Which variable is the target does not matter for a value that is stored in another one. -/
theorem Finds.of_retarget {memory memory' : Memory} {finding : Finding}
    (h : Finds memory result finding)
    (hmemory : ∀ name, memory.retarget name = memory'.retarget name) :
    Finds memory' result finding := by
  cases h with
  | value stored => exact .value (by rw [stored, hmemory])
  | rejected caret => exact .rejected caret

omit [Sink.Reliable σ] in
theorem Accounted.after (h : Accounted written calculator' result)
    (haccount : Account written calculator calculator' events [])
    (hmemory : ∀ name, calculator'.memory.retarget name = calculator.memory.retarget name) :
    Accounted written calculator result := by
  cases h with
  | found account finds => exact .found (haccount.trans account) (finds.of_retarget hmemory)
  | stopped account => exact .stopped (haccount.trans account)

omit [Sink σ] [Sink.Reliable σ] in
theorem account_operands (calculator : Calculator σ) (operands : Operands) :
    Account written calculator { calculator with operands } [] [] :=
  .of_silent rfl rfl rfl rfl (List.forall_mem_nil _)

omit [Sink.Reliable σ] in
/-- A token that does not settle its expression writes nothing and stores nothing. -/
theorem account_of_more (hheed : calculator.heed progress token = .inr (calculator', progress')) :
    (∃ events, Account written calculator calculator' events []) ∧
      ∀ name, calculator'.memory.retarget name = calculator.memory.retarget name := by
  unfold heed at hheed
  split at hheed
  case h_1 =>
    cases hheed
    exact ⟨⟨[], account_operands calculator _⟩, fun _ => rfl⟩
  case h_2 =>
    cases hheed
    exact ⟨⟨[_], .of_silent rfl rfl rfl rfl (by simp [Event.isFinding, Event.isBound])⟩,
      fun _ => rfl⟩
  case h_3 =>
    cases hheed
    exact ⟨⟨[_], .of_silent rfl rfl rfl rfl (by simp [Event.isFinding, Event.isBound])⟩,
      fun _ => rfl⟩
  all_goals cases hheed

theorem accounted_of_done (hkeeps : Sink.Keeps written)
    (hposition : 0 < calculator.reader.line.position)
    (hheed : calculator.heed progress token = .inl result) :
    Accounted written calculator result := by
  unfold heed at hheed
  split at hheed
  case h_4 v operands hstep =>
    cases hheed
    have hvalue := account_of_value hkeeps { calculator with operands } v
    exact (Accounted.found hvalue (.value rfl)).after (account_operands calculator operands)
      fun _ => rfl
  case h_5 rejection hstep =>
    rw [reject_ok] at hheed
    cases hheed
    have hsource : calculator.reader.line.text =
        (calculator.rejected rejection).reader.line.text := by
      simp [rejected, Reader.skipLine, Reader.note, Line.text]
    refine .found (account_of_rejection hkeeps calculator rejection) ?_
    rw [hsource]
    exact .rejected (Rejection.length_caret hposition)
  case h_6 hstep =>
    cases hheed
    exact .stopped (.of_silent rfl rfl rfl rfl (List.forall_mem_nil _))
  all_goals cases hheed

/-- Every expression is accounted for, token by token. -/
theorem accounted_advance (hkeeps : Sink.Keeps written) (calculator : Calculator σ)
    (progress : Progress) : Accounted written calculator (calculator.advance progress) := by
  refine advance_induction (motive := fun calculator _ result =>
    Accounted written calculator result) ?stop ?done ?more calculator progress
  case stop =>
    intro calculator progress cause reader hnext
    exact .stopped (account_of_next hkeeps hnext)
  case done =>
    intro calculator progress token reader result hnext hheed
    exact (accounted_of_done hkeeps (Reader.position_of_next hnext) hheed).after
      (account_of_next hkeeps hnext) fun _ => rfl
  case more =>
    intro calculator progress token reader calculator' progress' hnext hheed ih
    obtain ⟨⟨events, haccount⟩, hmemory⟩ :
        (∃ events, Account written _ calculator' events []) ∧ _ := account_of_more hheed
    exact (ih.after haccount hmemory).after (account_of_next hkeeps hnext) fun _ => rfl

theorem accounted_of_evaluate (hkeeps : Sink.Keeps written)
    (hevaluate : calculator.evaluate = result) : Accounted written calculator result := by
  rw [← hevaluate]
  exact (accounted_advance hkeeps calculator.clear .fresh).after
    (account_operands calculator _) fun _ => rfl

omit [Sink.Reliable σ] in
theorem rounds_of_stop {evaluated : Calculator σ} {cause : Stop}
    (hevaluate : calculator.evaluate = (.error cause, evaluated)) :
    calculator.rounds = [calculator] := by
  rw [rounds]
  split
  · rfl
  · next h =>
    rw [hevaluate] at h
    nomatch h

theorem rounds_of_ok {evaluated : Calculator σ} {outcome : Outcome}
    (hevaluate : calculator.evaluate = (.ok outcome, evaluated)) :
    calculator.rounds = calculator :: (evaluated.say outcome.line).2.rounds := by
  rw [rounds]
  split
  · next h =>
    rw [hevaluate] at h
    nomatch h
  · next h =>
    rw [hevaluate] at h
    cases h
    split
    · next hsay =>
      rw [say_ok] at hsay
      nomatch hsay
    · next hsay => rw [hsay]

omit [Sink.Reliable σ] in
theorem Account.consumed {later evaluated : Calculator σ} {answer : Except Stop Outcome}
    {findings : List Finding} (h : Account written calculator later events findings)
    (hevaluate : calculator.evaluate = (answer, evaluated))
    (htokens : later.tokens = evaluated.tokens) :
    events.filterMap Event.token? = calculator.clear.consumed .fresh := by
  have hadvance := calculator.clear.tokens_advance .fresh
  rw [show calculator.clear.advance .fresh = _ from hevaluate, ← htokens, h.tokens,
    takenBy_eq_consumed] at hadvance
  exact List.append_cancel_left hadvance

/-- The account of a session covers all that it consumes and all that it comes to. -/
structure Covers (written : σ → String) (calculator last : Calculator σ) (events : List Event)
    (findings : List Finding) : Prop extends Account written calculator last events findings where
  tokens : events.filterMap Event.token? = calculator.consumedInAll
  outcomes : List.Forall₂ (fun round finding => Finds round.memory round.evaluate finding)
    calculator.answered findings

/-- After what is accounted for a session says farewell, or it breaks off with nothing more. -/
inductive Finishes (last : Calculator σ) : Except String Ending × Calculator σ → Prop
  | ended (how : Ending) : Finishes last (.ok how, last.closed how)
  | broken (message : String) : Finishes last (.error message, last)

namespace Finishes

variable {last : Calculator σ} {finish : Except String Ending × Calculator σ}

omit [Sink.Reliable σ] in
theorem journal_eq (h : Finishes last finish) :
    finish.2.reader.channel.journal =
      (endingEvents finish.1).reverse ++ last.reader.channel.journal := by
  cases h <;> rfl

omit [Sink.Reliable σ] in
theorem written_eq (hkeeps : Sink.Keeps written) (h : Finishes last finish) :
    written finish.2.reader.channel.sink =
      written last.reader.channel.sink ++ endingText last.farewell finish.1 := by
  cases h with
  | ended how =>
    rw [hkeeps.closed, endingText]
    simp only [String.append_assoc]
  | broken message => exact String.append_empty.symm

end Finishes

omit [Sink.Reliable σ] in
theorem covers_of_stop {evaluated : Calculator σ} {cause : Stop}
    (hevaluate : calculator.evaluate = (.error cause, evaluated))
    (haccount : Account written calculator evaluated events []) :
    Covers written calculator evaluated events [] where
  toAccount := haccount
  tokens := by
    rw [consumedInAll, rounds_of_stop hevaluate, List.flatMap_singleton]
    exact haccount.consumed hevaluate rfl
  outcomes := by
    rw [answered, rounds_of_stop hevaluate, List.filter_cons_of_neg (by simp [hevaluate]; rfl)]
    exact .nil

theorem covers_of_ok {evaluated last : Calculator σ} {outcome : Outcome} {events' : List Event}
    {finding : Finding} {findings : List Finding}
    (hevaluate : calculator.evaluate = (.ok outcome, evaluated))
    (haccount : Account written calculator (evaluated.say outcome.line).2 events [finding])
    (hfinds : Finds calculator.memory calculator.evaluate finding)
    (hlater : Covers written (evaluated.say outcome.line).2 last events' findings) :
    Covers written calculator last (events ++ events') (finding :: findings) where
  toAccount := haccount.trans hlater.toAccount
  tokens := by
    rw [consumedInAll, rounds_of_ok hevaluate, List.flatMap_cons, List.filterMap_append,
      hlater.tokens, haccount.consumed hevaluate rfl, consumedInAll]
  outcomes := by
    rw [answered, rounds_of_ok hevaluate, List.filter_cons_of_pos (by rw [hevaluate]; rfl)]
    exact .cons hfinds hlater.outcomes

/-- Every session is accounted for, one expression after the other. -/
theorem covers_converse (hkeeps : Sink.Keeps written) (calculator : Calculator σ) :
    ∃ last events findings, Covers written calculator last events findings ∧
      Finishes last calculator.converse := by
  fun_induction converse calculator with
  | case1 calculator how evaluated hevaluate =>
    obtain - | haccount := accounted_of_evaluate hkeeps hevaluate
    rw [close_ok]
    exact ⟨_, _, _, covers_of_stop hevaluate haccount, .ended how⟩
  | case2 calculator message evaluated hevaluate =>
    obtain - | haccount := accounted_of_evaluate hkeeps hevaluate
    exact ⟨_, _, _, covers_of_stop hevaluate haccount, .broken message⟩
  | case3 calculator outcome evaluated hevaluate message said hsay =>
    rw [say_ok] at hsay
    cases hsay
  | case4 calculator outcome evaluated hevaluate said hsay ih =>
    obtain ⟨haccount, hfinds⟩ | - := accounted_of_evaluate hkeeps hevaluate
    rw [← hevaluate] at hfinds
    obtain ⟨last, events', findings, hlater, hfinishes⟩ := ih
    obtain rfl : (evaluated.say outcome.line).2 = said := congrArg Prod.snd hsay
    exact ⟨last, _, _, covers_of_ok hevaluate haccount hfinds hlater, hfinishes⟩

end Calculator

end ReversePolish
