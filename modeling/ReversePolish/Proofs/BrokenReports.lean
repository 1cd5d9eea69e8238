import ReversePolish.Proofs.RefusedPlaces
import ReversePolish.Proofs.TakenWrites

/-!
# Reports that break off

A report that is written to its end takes the rest of the line with it. One that breaks off leaves
the line as it is, with the tokens after the refused one still to come, and these begin a new
expression: nothing is left of the operands of the one that has been refused.
-/

namespace ReversePolish

variable {σ : Type}

namespace Calculator

variable [Sink σ] {found : Calculator σ} {place : Reader σ} {rejection : Rejection}

theorem reject_of_takes (hplace : found.reader.Coincide place)
    (h : Sink.Takes place.channel.sink (rejection.linesAt place)) :
    (found.reject rejection).1 = .ok (.rejected rejection) ∧
      (found.reject rejection).2.reader.Coincide
        { place with channel := place.channel.hasWritten (rejection.linesAt place) }.skipLine := by
  have hnoted := hplace.channel_note (.rejected rejection place.line.position)
  have hwritten := Channel.writeLines_of_takes (show Sink.Takes (found.reader.channel.note
    (.rejected rejection place.line.position)).sink (rejection.linesAt place) by rwa [hnoted])
  dsimp only [reject, Reader.note]
  rw [hplace.line, hwritten, hnoted]
  exact ⟨rfl, ⟨rfl, hplace.prompt, rfl, rfl⟩, rfl⟩

theorem reject_of_failsAfter {taken rest : List String} {text message : String}
    (hplace : found.reader.Coincide place)
    (h : Sink.FailsAfter place.channel.sink taken text message)
    (hlines : rejection.linesAt place = taken ++ text :: rest) :
    (found.reject rejection).1 = .error (.failed message) ∧
      (found.reject rejection).2.reader.Coincide
        { place with channel := ((place.channel.hasWritten taken).write text).2 } := by
  have hnoted := hplace.channel_note (.rejected rejection place.line.position)
  have hbroken := Channel.writeLines_of_failsAfter (show Sink.FailsAfter (found.reader.channel.note
    (.rejected rejection place.line.position)).sink taken text message by rwa [hnoted]) hlines
  dsimp only [reject, Reader.note]
  rw [hplace.line, hbroken, hnoted]
  exact ⟨rfl, ⟨rfl, hplace.prompt, rfl, rfl⟩, rfl⟩

theorem operands_reject (calculator : Calculator σ) (rejection : Rejection) :
    (calculator.reject rejection).2.operands = {} := by
  dsimp only [reject]
  split <;> rfl

theorem operands_advance_of_ok {calculator : Calculator σ} {progress : Progress}
    {outcome : Outcome} (h : (calculator.advance progress).1 = .ok outcome) :
    (calculator.advance progress).2.operands = {} := by
  fun_induction advance calculator progress with
  | case1 => simp at h
  | case2 calculator progress token reader hnext progress' operands hstep ih => exact ih h
  | case3 calculator progress token reader hnext name operands hstep ih => exact ih h
  | case4 calculator progress token reader hnext operands hstep ih => exact ih h
  | case5 calculator progress token reader hnext value operands hstep =>
    exact (Progress.of_step_eq_value hstep).2
  | case6 calculator progress token reader hnext rejection hstep => exact operands_reject _ _
  | case7 => simp at h

/-- Where an expression comes to a value or is refused, no operands are left. -/
theorem operands_evaluate_of_ok {calculator : Calculator σ} {outcome : Outcome}
    (h : calculator.evaluate.1 = .ok outcome) : calculator.evaluate.2.operands = {} :=
  operands_advance_of_ok h

theorem head?_taken (calculator : Calculator σ) :
    calculator.taken.head? = calculator.reader.ahead.head? := by
  change (calculator.clear.takenBy .fresh).head? = calculator.clear.reader.ahead.head?
  generalize calculator.clear = calculator
  cases hnext : calculator.reader.next with
  | mk answer reader =>
    cases answer with
    | error cause => rw [takenBy_of_stop hnext, Reader.ahead_of_stop hnext]
    | ok token =>
      rw [Reader.ahead_of_token hnext, List.head?_cons]
      cases hheed : heed { calculator with reader } .fresh token with
      | inl result => rw [takenBy_of_done hnext hheed, List.head?_cons]
      | inr later => rw [takenBy_of_more hnext hheed, List.head?_cons]

/-- The next evaluation begins a new expression. The first token ahead is its first one, the exit
word included, and what is wrong with a token is counted from there: there are no operands before
it. -/
structure BeginsAnew (calculator : Calculator σ) : Prop where
  first : calculator.taken.head? = calculator.reader.ahead.head?
  exit : BeginsWithExit calculator.reader.ahead → calculator.evaluate.1 = .error (.ended .exit)
  ends : ¬BeginsWithExit calculator.reader.ahead → Ends [] calculator calculator.evaluate

theorem beginsAnew (calculator : Calculator σ) : calculator.BeginsAnew where
  first := calculator.head?_taken
  exit := evaluate_exit (List.append_nil _).symm
  ends hexit := (calculator.clear.advance_ends ⟨rfl, rfl⟩ allPass_nil fun _ => hexit).of_clear

/-- An evaluation that refuses its expression has taken the tokens up to the refused one and writes
the three lines of the report. If the sink takes them all, the rejection is the outcome and the rest
of the line is given up. If it fails on one of them, the failure is the outcome, only the lines
before that one have been written, and the reader is where it was when the refused token had just
been taken: the tokens after it on its line come next, and a new expression begins with them. In
either case the memory is as the refused expression left it when the report began, and no operands
are left. -/
theorem report_whole_or_resumable {calculator : Calculator σ} {rejection : Rejection}
    (hrefuses : calculator.Refuses rejection) :
    let place := calculator.reader.after calculator.taken.length
    let lines := rejection.linesAt place
    let later := calculator.evaluate.2
    (∃ before token, FirstFault calculator.reader.ahead before token rejection ∧
      calculator.taken = before ++ [token] ∧
      calculator.reader.ahead =
        before ++ token :: (Token.scan place.line.rest ++ place.skipLine.ahead)) ∧
    later.memory = calculator.memory.assign (assigned? calculator.taken) ∧
    later.operands = {} ∧
    (Sink.Takes place.channel.sink lines →
      calculator.evaluate.1 = .ok (.rejected rejection) ∧
      later.reader.Coincide { place with channel := place.channel.hasWritten lines }.skipLine) ∧
    (∀ taken text rest message, lines = taken ++ text :: rest →
      Sink.FailsAfter place.channel.sink taken text message →
      calculator.evaluate.1 = .error (.failed message) ∧
      later.reader.Coincide
        { place with channel := ((place.channel.hasWritten taken).write text).2 } ∧
      later.reader.channel.calls =
        .write text false :: ((taken.map (Call.write · true)).reverse ++ place.channel.calls) ∧
      later.reader.ahead = Token.scan place.line.rest ++ later.reader.skipLine.ahead ∧
      later.BeginsAnew) ∧
    (Sink.Takes place.channel.sink lines ∨
      ∃ taken text rest message, lines = taken ++ text :: rest ∧
        Sink.FailsAfter place.channel.sink taken text message) := by
  intro place lines later
  obtain ⟨before, token, found, hrefused⟩ := hrefuses.exists_refusesAt
  have hlength : calculator.taken.length = before.length + 1 := by
    rw [hrefused.taken, List.length_append, List.length_singleton]
  have hplace : found.reader.Coincide place := by
    rw [show place = calculator.reader.after calculator.taken.length from rfl, hlength]
    exact hrefused.place
  have hlater : later = (found.reject rejection).2 := congrArg Prod.snd hrefused.report
  refine ⟨⟨before, token, hrefused.first, hrefused.taken, ?ahead⟩, ?memory, ?operands,
    ?whole, ?broken, Sink.takes_or_failsAfter _ _⟩
  case ahead =>
    have hahead := hrefused.ahead_eq
    rwa [hplace.line, ← hlength] at hahead
  case memory => rw [hlater, memory_reject, hrefused.memory, hrefused.taken]
  case operands => rw [hlater, operands_reject]
  case whole =>
    intro htakes
    rw [hlater, hrefused.report]
    exact reject_of_takes hplace htakes
  case broken =>
    intro taken text rest message hlines hfails
    obtain ⟨houtcome, hreader⟩ := reject_of_failsAfter hplace hfails hlines
    rw [← hlater] at hreader
    refine ⟨hrefused.report ▸ houtcome, hreader, ?_, ?_, later.beginsAnew⟩
    · rw [hreader.calls]
      exact Channel.calls_write_of_error hfails.fails
    · rw [later.reader.ahead_eq_append, hreader.line]

/-- The line that the report repeats cannot be written. The sum that comes next on it finds neither
of the two operands that were too many. -/
theorem report_resumable_at_sum :
    let calculator : Calculator FaultySink := .start {} {
      replies := [.line "x = 4 5 @ + 6 @"],
      sink := { failingWrites := (· = 2), failingFlushes := fun _ => false } }
    let later := calculator.evaluate.2
    calculator.Refuses (.tooManyOperands 2) ∧
      calculator.evaluate.1 = .error (.failed "write 2 failed") ∧
      later.memory.target = "x" ∧ later.operands = {} ∧
      later.reader.channel.calls = [.write "x = 4 5 @ + 6 @\n" false,
        .write "Too many operands: 2 values left on the stack\n" true,
        .readLine (.line "x = 4 5 @ + 6 @"), .flush true, .write ">> " true] ∧
      later.taken.head? = some ⟨.operator .add, "+"⟩ ∧
      later.evaluate.1 = .ok (.rejected .tooFewOperands) := by
  intro calculator later
  have hrefuses : calculator.Refuses (.tooManyOperands 2) :=
    ⟨[.scanned ⟨.identifier, "x"⟩, .scanned ⟨.assign, "="⟩, .retargeted "x",
      .scanned ⟨.number, "4"⟩, .scanned ⟨.number, "5"⟩, .scanned ⟨.endMark, "@"⟩,
      .rejected (.tooManyOperands 2) 9], 9, ⟨by decide +kernel, by decide +kernel⟩, by decide⟩
  let place := calculator.reader.after calculator.taken.length
  let message := "Too many operands: 2 values left on the stack\n"
  have hfacts : Rejection.linesAt (.tooManyOperands 2) place =
        [message] ++ "x = 4 5 @ + 6 @\n" :: ["        ^\n"] ∧
      (Sink.write place.channel.sink message).1 = .ok () ∧
      (Sink.write (Sink.offered place.channel.sink [message]) "x = 4 5 @ + 6 @\n").1 =
        .error "write 2 failed" ∧
      place.channel.calls = [.readLine (.line "x = 4 5 @ + 6 @"), .flush true, .write ">> " true] ∧
      Token.scan place.line.rest = [⟨.operator .add, "+"⟩, ⟨.number, "6"⟩, ⟨.endMark, "@"⟩] ∧
      assigned? calculator.taken = some "x" := by decide +kernel
  obtain ⟨hlines, htaken, hfails, hbefore, hrest, hassigned⟩ := hfacts
  obtain ⟨-, hmemory, hoperands, -, hbroken, -⟩ := report_whole_or_resumable hrefuses
  obtain ⟨houtcome, -, hcalls, hahead, hanew⟩ :=
    hbroken _ _ _ _ hlines ⟨⟨htaken, trivial⟩, hfails⟩
  refine ⟨hrefuses, houtcome, ?_, hoperands, ?_, ?_, by decide +kernel⟩
  · rw [hmemory, hassigned]
    rfl
  · rw [hcalls, hbefore]
    rfl
  · rw [hanew.first, hahead, hrest]
    rfl

end Calculator

end ReversePolish
