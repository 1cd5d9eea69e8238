import ReversePolish.Proofs.ReliableSink
import ReversePolish.Worksheet

/-!
# Sessions as worksheets

A calculator that converses over a channel takes its tokens one by one and asks for a line wherever
one ends. Seen from the lines it works like a worksheet: what it does between two requests are the
deeds that the worksheet names for the line, carried out on the channel in order.
-/

namespace ReversePolish

variable {σ : Type}

def Channel.carryOut [Sink σ] (channel : Channel σ) : Deed → Channel σ
  | .say lines => (channel.writeLines lines).2
  | .note event => channel.note event

def Channel.prompted [Sink σ] (channel : Channel σ) (prompt : String) : Channel σ :=
  (Reader.ask { channel, prompt }).2

namespace Calculator

variable [Sink σ]

/-- Evaluates the rest of an expression, writes the outcome and converses on. -/
def resume (calculator : Calculator σ) (progress : Progress) :
    Except String Ending × Calculator σ :=
  match calculator.advance progress with
  | (.error (.ended how), calculator) => calculator.close how
  | (.error (.failed message), calculator) => (.error message, calculator)
  | (.ok outcome, evaluated) =>
    match evaluated.say outcome.line with
    | (.error message, calculator) => (.error message, calculator)
    | (.ok (), calculator) => calculator.converse

theorem converse_eq_resume (calculator : Calculator σ) :
    calculator.converse = calculator.clear.resume .fresh := by
  rw [converse, resume]
  change _ = match calculator.evaluate with
    | (.error (.ended how), calculator) => calculator.close how
    | (.error (.failed message), calculator) => (.error message, calculator)
    | (.ok outcome, evaluated) =>
      match evaluated.say outcome.line with
      | (.error message, calculator) => (.error message, calculator)
      | (.ok (), calculator) => calculator.converse
  split <;> rename_i h <;> rw [h]
  dsimp only
  split <;> rename_i hsay <;> rw [hsay]

/-- Of its reader only the next token matters to a calculator. -/
theorem advance_of_next_eq {calculator : Calculator σ} {reader : Reader σ} {progress : Progress}
    (h : calculator.reader.next = reader.next) :
    calculator.advance progress = { calculator with reader }.advance progress := by
  cases hnext : reader.next with
  | mk outcome reader' =>
    rw [hnext] at h
    cases outcome with
    | ok token =>
      rw [advance_of_token h, advance_of_token hnext]
    | error stop =>
      rw [advance_of_stop h, advance_of_stop hnext]

theorem evaluate_of_next_eq {calculator : Calculator σ} {reader : Reader σ}
    (h : calculator.reader.next = reader.next) :
    calculator.evaluate = { calculator with reader }.evaluate := by
  have hclear : calculator.clear.reader.next = reader.next := h
  exact advance_of_next_eq hclear

variable [Sink.Reliable σ]

theorem resume_of_value {calculator calculator' : Calculator σ} {progress : Progress}
    {outcome : Outcome} (h : calculator.advance progress = (.ok outcome, calculator')) :
    calculator.resume progress = (calculator'.say outcome.line).2.clear.resume .fresh := by
  rw [resume, h]
  dsimp only
  rw [say_ok]
  exact converse_eq_resume _

omit [Sink.Reliable σ] in
theorem resume_congr {calculator calculator' : Calculator σ} {progress progress' : Progress}
    (h : calculator.advance progress = calculator'.advance progress') :
    calculator.resume progress = calculator'.resume progress' := by
  rw [resume, h]
  rfl

omit [Sink.Reliable σ] in
theorem resume_of_ended {calculator calculator' : Calculator σ} {progress : Progress}
    {how : Ending} (h : calculator.advance progress = (.error (.ended how), calculator')) :
    calculator.resume progress = calculator'.close how := by
  rw [resume, h]

omit [Sink.Reliable σ] in
theorem resume_of_failed {calculator calculator' : Calculator σ} {progress : Progress}
    {message : String}
    (h : calculator.advance progress = (.error (.failed message), calculator')) :
    calculator.resume progress = (.error message, calculator') := by
  rw [resume, h]

end Calculator

namespace Worksheet

/-- What the rest of a line brings about, by a rule for everything that a token can do. -/
inductive Takes : Worksheet → Line → List Deed → Option Worksheet → Prop
  | blank {sheet line} (hnext : line.next? = none) : Takes sheet line [] (some sheet)
  | more {sheet line line' token progress operands deeds last}
      (hnext : line.next? = some (token, line'))
      (hstep : sheet.progress.step sheet.memory.get sheet.operands token =
        .more progress operands)
      (later : Takes { sheet with progress, operands } line' deeds last) :
      Takes sheet line (.note (.scanned token) :: deeds) last
  | retarget {sheet line line' token name operands deeds last}
      (hnext : line.next? = some (token, line'))
      (hstep : sheet.progress.step sheet.memory.get sheet.operands token =
        .retarget name operands)
      (later : Takes ⟨sheet.memory.retarget name, .assigned name, operands⟩ line' deeds last) :
      Takes sheet line (.note (.scanned token) :: .note (.retargeted name) :: deeds) last
  | ignore {sheet line line' token operands deeds last} (hnext : line.next? = some (token, line'))
      (hstep : sheet.progress.step sheet.memory.get sheet.operands token = .ignore operands)
      (later : Takes { sheet with progress := .body, operands } line' deeds last) :
      Takes sheet line (.note (.scanned token) :: .note .assignIgnored :: deeds) last
  | value {sheet line line' token value operands deeds last}
      (hnext : line.next? = some (token, line'))
      (hstep : sheet.progress.step sheet.memory.get sheet.operands token = .value value operands)
      (later : Takes { memory := sheet.memory.store value } line' deeds last) :
      Takes sheet line (.note (.scanned token) :: .note (.evaluated sheet.memory.target value) ::
        .say [value.write .result] :: deeds) last
  | reject {sheet line line' token rejection} (hnext : line.next? = some (token, line'))
      (hstep : sheet.progress.step sheet.memory.get sheet.operands token = .reject rejection) :
      Takes sheet line [.note (.scanned token), .note (.rejected rejection line'.position),
        .say (rejection.report line'.text line'.position ++ ["no value"])]
        (some { memory := sheet.memory })
  | exit {sheet line line' token} (hnext : line.next? = some (token, line'))
      (hstep : sheet.progress.step sheet.memory.get sheet.operands token = .exit) :
      Takes sheet line [.note (.scanned token)] none

/-- The rules say what taking the rest of a line comes to. -/
theorem takes_takeRest (sheet : Worksheet) (line : Line) :
    Takes sheet line (sheet.takeRest line).1 (sheet.takeRest line).2 := by
  fun_induction sheet.takeRest line with
  | case1 sheet line hnext => exact .blank hnext
  | case2 sheet line token line' hnext deeds last hdeeds hmore hretarget hignore hvalue =>
    cases hstep : sheet.progress.step sheet.memory.get sheet.operands token with
    | more progress operands =>
      rw [hstep] at hdeeds
      obtain ⟨rfl, rfl⟩ := Prod.ext_iff.1 hdeeds
      exact .more hnext hstep (hmore progress operands)
    | retarget name operands =>
      rw [hstep] at hdeeds
      obtain ⟨rfl, rfl⟩ := Prod.mk.inj hdeeds
      exact .retarget hnext hstep (hretarget name operands)
    | ignore operands =>
      rw [hstep] at hdeeds
      obtain ⟨rfl, rfl⟩ := Prod.mk.inj hdeeds
      exact .ignore hnext hstep (hignore operands)
    | value value operands =>
      rw [hstep] at hdeeds
      obtain ⟨rfl, rfl⟩ := Prod.mk.inj hdeeds
      exact .value hnext hstep (hvalue value)
    | reject rejection =>
      rw [hstep] at hdeeds
      obtain ⟨rfl, rfl⟩ := Prod.mk.inj hdeeds
      exact .reject hnext hstep
    | exit =>
      rw [hstep] at hdeeds
      obtain ⟨rfl, rfl⟩ := Prod.mk.inj hdeeds
      exact .exit hnext hstep

theorem takes_take (sheet : Worksheet) (text : String) :
    Takes sheet (.load text) (sheet.take text).1 (sheet.take text).2 :=
  takes_takeRest sheet (.load text)

end Worksheet

/-- Works on through a worksheet, at a place on a line. -/
def Worksheet.goOn [Sink σ] (sheet : Worksheet) (settings : Settings) (channel : Channel σ)
    (line : Line) : Except String Ending × Calculator σ :=
  Calculator.resume
    ⟨⟨channel, settings.prompt, line⟩, sheet.memory, settings.farewell, sheet.operands⟩
    sheet.progress

namespace Worksheet

variable [Sink σ] [Sink.Reliable σ] {sheet : Worksheet} {settings : Settings} {channel : Channel σ}
  {line line' : Line} {token : Token}

theorem goOn_of_token (h : line.next? = some (token, line')) :
    sheet.goOn settings channel line =
      let scanned := channel.note (.scanned token)
      match sheet.progress.step sheet.memory.get sheet.operands token with
      | .more progress operands => goOn { sheet with progress, operands } settings scanned line'
      | .retarget name operands =>
        goOn ⟨sheet.memory.retarget name, .assigned name, operands⟩ settings
          (scanned.note (.retargeted name)) line'
      | .ignore operands =>
        goOn { sheet with progress := .body, operands } settings (scanned.note .assignIgnored) line'
      | .value value _ =>
        goOn { memory := sheet.memory.store value } settings
          ((scanned.note (.evaluated sheet.memory.target value)).carryOut
            (.say [value.write .result])) line'
      | .reject rejection =>
        goOn { memory := sheet.memory } settings
          ((scanned.note (.rejected rejection line'.position)).carryOut
            (.say (rejection.report line'.text line'.position ++ ["no value"]))) line'.exhaust
      | .exit =>
        Calculator.close
          ⟨⟨scanned, settings.prompt, line'⟩, sheet.memory, settings.farewell, sheet.operands⟩
          .exit := by
  have hadvance : Calculator.advance
      ⟨⟨channel, settings.prompt, line⟩, sheet.memory, settings.farewell, sheet.operands⟩
      sheet.progress = _ :=
    Calculator.advance_of_token (Reader.next_of_token h)
  dsimp only at hadvance
  dsimp only
  cases hstep : sheet.progress.step sheet.memory.get sheet.operands token with
  | more progress operands =>
    rw [hstep] at hadvance
    exact Calculator.resume_congr hadvance
  | retarget name operands =>
    rw [hstep] at hadvance
    exact Calculator.resume_congr hadvance
  | ignore operands =>
    rw [hstep] at hadvance
    exact Calculator.resume_congr hadvance
  | value value operands =>
    rw [hstep] at hadvance
    simp only [Channel.carryOut, Channel.writeLines_cons]
    exact Calculator.resume_of_value hadvance
  | reject rejection =>
    rw [hstep] at hadvance
    simp only [Channel.carryOut, Channel.writeLines_append, Channel.writeLines_cons]
    exact Calculator.resume_of_value (hadvance.trans (Calculator.reject_ok _ _))
  | exit =>
    rw [hstep] at hadvance
    exact Calculator.resume_of_ended hadvance

theorem goOn_of_line {text : String} {replies : List Reply} (hline : line.next? = none)
    (hreplies : channel.replies = .line text :: replies) :
    sheet.goOn settings channel line =
      sheet.goOn settings ((channel.prompted settings.prompt).answered (.line text) replies)
        (.load text) := by
  apply Calculator.resume_congr
  apply Calculator.advance_of_next_eq
  exact Reader.next_of_fetch hline (Reader.fetch_line hreplies)

theorem goOn_of_end (hline : line.next? = none) (hreplies : channel.replies = []) :
    sheet.goOn settings channel line =
      Calculator.close ⟨⟨(channel.prompted settings.prompt).answered .ended [], settings.prompt,
        line.exhaust⟩, sheet.memory, settings.farewell, sheet.operands⟩ .endOfInput := by
  apply Calculator.resume_of_ended
  apply Calculator.advance_of_stop
  exact Reader.next_of_stop hline (Reader.fetch_nil hreplies)

/-- Where no line can be read the session breaks off, and nothing but the prompt is written. -/
theorem goOn_of_failure {message : String} {replies : List Reply} (hline : line.next? = none)
    (hreplies : channel.replies = .failed message :: replies) :
    sheet.goOn settings channel line =
      (.error message, ⟨⟨(channel.prompted settings.prompt).answered (.failed message) replies,
        settings.prompt, line.exhaust⟩, sheet.memory, settings.farewell, sheet.operands⟩) := by
  apply Calculator.resume_of_failed
  apply Calculator.advance_of_stop
  exact Reader.next_of_stop hline (Reader.fetch_failed hreplies)

omit [Sink.Reliable σ] in
/-- A session has come to the end of a line with some worksheet, or to its own end without one. -/
def Arrives (settings : Settings) (channel : Channel σ)
    (result : Except String Ending × Calculator σ) : Option Worksheet → Prop
  | some sheet => ∃ line : Line, line.next? = none ∧ result = sheet.goOn settings channel line
  | none => ∃ line memory operands, result =
    Calculator.close ⟨⟨channel, settings.prompt, line⟩, memory, settings.farewell, operands⟩ .exit

/-- Over the rest of a line a session carries out the deeds of the worksheet. -/
theorem Takes.arrives {deeds : List Deed} {last : Option Worksheet}
    (h : Takes sheet line deeds last) (settings : Settings) (channel : Channel σ) :
    Arrives settings (deeds.foldl Channel.carryOut channel) (sheet.goOn settings channel line)
      last := by
  induction h generalizing channel with
  | blank hnext => exact ⟨_, hnext, rfl⟩
  | more hnext hstep later ih | retarget hnext hstep later ih | ignore hnext hstep later ih
  | value hnext hstep later ih =>
    rw [goOn_of_token hnext, hstep]
    exact ih _
  | reject hnext hstep =>
    rw [goOn_of_token hnext, hstep]
    exact ⟨_, rfl, rfl⟩
  | exit hnext hstep =>
    rw [goOn_of_token hnext, hstep]
    exact ⟨_, _, _, rfl⟩

end Worksheet

end ReversePolish
