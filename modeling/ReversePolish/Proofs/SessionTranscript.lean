import ReversePolish.CommandLine.Execution
import ReversePolish.Proofs.WorksheetRun

/-!
# The transcript of a session

What a session writes, line by line: the prompt before every line and what the line brings about
after it, once more the prompt if no line is left, and the farewell. The word that ends a session
does so wherever an expression begins with it, and the lines after it are left unread.
-/

namespace ReversePolish

variable {σ : Type}

/-- The sink appends what is written to it, `written` telling what it holds. -/
structure Sink.Keeps [Sink σ] (written : σ → String) : Prop where
  write (sink : σ) (text : String) : written (Sink.write sink text).2 = written sink ++ text
  flush (sink : σ) : written (Sink.flush sink).2 = written sink

theorem Paper.keeps_written : Sink.Keeps Paper.written := ⟨fun _ _ => rfl, fun _ => rfl⟩

def Deed.text : Deed → String
  | .say lines => lines.foldr (fun line later => line ++ "\n" ++ later) ""
  | .note _ => ""

def Deed.texts (deeds : List Deed) : String :=
  deeds.foldr (fun deed later => deed.text ++ later) ""

/-- What a session writes up to its farewell, how it ends, and the lines that it leaves unread. -/
structure Transcript where
  text : String
  ending : Ending
  unread : List String
  deriving DecidableEq

namespace Worksheet

def transcript (prompt : String) (sheet : Worksheet) : List String → Transcript
  | [] => ⟨prompt, .endOfInput, []⟩
  | line :: lines =>
    match sheet.take line with
    | (deeds, none) => ⟨prompt ++ Deed.texts deeds, .exit, lines⟩
    | (deeds, some sheet) =>
      let later := sheet.transcript prompt lines
      { later with text := prompt ++ Deed.texts deeds ++ later.text }

/-- The worksheet after a token that does not give up its line. -/
def after? (sheet : Worksheet) (token : Token) : Option Worksheet :=
  match sheet.progress.step sheet.memory.get sheet.operands token with
  | .more progress operands => some { sheet with progress, operands }
  | .retarget name operands => some ⟨sheet.memory.retarget name, .assigned name, operands⟩
  | .ignore operands => some { sheet with progress := .body, operands }
  | .value value _ => some { memory := sheet.memory.store value }
  | .reject _ | .exit => none

/-- On the rest of a line an expression begins with a token. -/
inductive Opens : Worksheet → Line → Token → Prop
  | here {sheet line line' token} (hnext : line.next? = some (token, line'))
      (hfresh : sheet.progress = .fresh) : Opens sheet line token
  | later {sheet sheet' line line' token token'} (hnext : line.next? = some (token', line'))
      (hafter : sheet.after? token' = some sheet') (opens : Opens sheet' line' token) :
      Opens sheet line token

inductive OpensOn : Worksheet → List String → Token → Prop
  | here {sheet line lines token} (opens : Opens sheet (.load line) token) :
      OpensOn sheet (line :: lines) token
  | later {sheet sheet' line lines token} (htake : (sheet.take line).2 = some sheet')
      (opens : OpensOn sheet' lines token) : OpensOn sheet (line :: lines) token

theorem after?_of_exit {sheet : Worksheet} {token : Token} (hfresh : sheet.progress = .fresh)
    (hexit : token.IsExit) : sheet.after? token = none := by
  rw [after?, (Progress.step_eq_exit_iff _).2 ⟨hfresh, hexit⟩]

/-- Where the session goes on with a token, it ends on the line if it ends on what follows. -/
theorem opens_exit_iff {sheet sheet' : Worksheet} {line line' : Line} {token : Token}
    (hnext : line.next? = some (token, line')) (hafter : sheet.after? token = some sheet') :
    (∃ t, Opens sheet line t ∧ t.IsExit) ↔ ∃ t, Opens sheet' line' t ∧ t.IsExit := by
  constructor
  · rintro ⟨t, hopens, hexit⟩
    cases hopens with
    | here hnext' hfresh =>
      obtain ⟨rfl, rfl⟩ := Prod.mk.inj (Option.some.inj (hnext.symm.trans hnext'))
      rw [after?_of_exit hfresh hexit] at hafter
      simp at hafter
    | later hnext' hafter' hopens =>
      obtain ⟨rfl, rfl⟩ := Prod.mk.inj (Option.some.inj (hnext.symm.trans hnext'))
      obtain rfl := Option.some.inj (hafter.symm.trans hafter')
      exact ⟨t, hopens, hexit⟩
  · rintro ⟨t, hopens, hexit⟩
    exact ⟨t, .later hnext hafter hopens, hexit⟩

/-- A line ends the session exactly if an expression begins with the exit word on it. -/
theorem Takes.eq_none_iff {sheet : Worksheet} {line : Line} {deeds : List Deed}
    {last : Option Worksheet} (h : Takes sheet line deeds last) :
    last = none ↔ ∃ token, Opens sheet line token ∧ token.IsExit := by
  induction h with
  | blank hnext =>
    refine ⟨nofun, ?_⟩
    rintro ⟨token, hopens, -⟩
    cases hopens with
    | here hnext' | later hnext' => simp [hnext] at hnext'
  | more hnext hstep later ih | retarget hnext hstep later ih | ignore hnext hstep later ih
  | value hnext hstep later ih =>
    rw [ih, opens_exit_iff hnext (by rw [after?, hstep])]
  | reject hnext hstep =>
    refine ⟨nofun, ?_⟩
    rintro ⟨token, hopens, hexit⟩
    cases hopens with
    | here hnext' hfresh =>
      obtain ⟨rfl, rfl⟩ := Prod.mk.inj (Option.some.inj (hnext.symm.trans hnext'))
      rw [(Progress.step_eq_exit_iff _).2 ⟨hfresh, hexit⟩] at hstep
      simp at hstep
    | later hnext' hafter hopens =>
      obtain ⟨rfl, rfl⟩ := Prod.mk.inj (Option.some.inj (hnext.symm.trans hnext'))
      simp [after?, hstep] at hafter
  | exit hnext hstep =>
    obtain ⟨hfresh, hexit⟩ := (Progress.step_eq_exit_iff _).1 hstep
    exact ⟨fun _ => ⟨_, .here hnext hfresh, hexit⟩, fun _ => rfl⟩

/-- A session ends by the exit word exactly if an expression begins with it. -/
theorem transcript_ending_eq_exit_iff (prompt : String) (sheet : Worksheet) (lines : List String) :
    (sheet.transcript prompt lines).ending = .exit ↔
      ∃ token, OpensOn sheet lines token ∧ token.IsExit := by
  induction lines generalizing sheet with
  | nil =>
    refine ⟨nofun, ?_⟩
    rintro ⟨token, hopens, -⟩
    cases hopens
  | cons line lines ih =>
    have htakes := (takes_take sheet line).eq_none_iff
    rw [transcript]
    split
    · next deeds htake =>
      rw [htake] at htakes
      obtain ⟨token, hopens, hexit⟩ := htakes.1 rfl
      exact ⟨fun _ => ⟨token, .here hopens, hexit⟩, fun _ => rfl⟩
    · next deeds sheet' htake =>
      have hlast : (sheet.take line).2 = some sheet' := by rw [htake]
      constructor
      · intro hending
        obtain ⟨token, hopens, hexit⟩ := (ih sheet').1 hending
        exact ⟨token, .later hlast hopens, hexit⟩
      · rintro ⟨token, hopens, hexit⟩
        cases hopens with
        | here hopens =>
          have hnone := htakes.2 ⟨token, hopens, hexit⟩
          simp [hlast] at hnone
        | later hlast' hopens =>
          obtain rfl := Option.some.inj (hlast.symm.trans hlast')
          exact (ih sheet').2 ⟨token, hopens, hexit⟩

end Worksheet

variable [Sink σ] {written : σ → String}

namespace Sink.Keeps

variable (hkeeps : Sink.Keeps written) (channel : Channel σ)

include hkeeps

theorem writeLine (text : String) :
    written (channel.writeLine text).2.sink = written channel.sink ++ text ++ "\n" := by
  rw [String.append_assoc]
  exact hkeeps.write channel.sink (text ++ "\n")

theorem flushed : written channel.flush.2.sink = written channel.sink :=
  hkeeps.flush channel.sink

theorem prompted [Sink.Reliable σ] (prompt : String) :
    written (channel.prompted prompt).sink = written channel.sink ++ prompt := by
  rw [Channel.prompted, Reader.ask]
  split
  · next hprompt =>
    rw [hkeeps.flushed, show prompt = "" from hprompt, String.append_empty]
  · rw [Channel.write_ok]
    exact (hkeeps.flushed _).trans (hkeeps.write channel.sink prompt)

theorem writeLines [Sink.Reliable σ] (lines : List String) :
    written (channel.writeLines lines).2.sink =
      written channel.sink ++ (Deed.say lines).text := by
  induction lines generalizing channel with
  | nil => exact String.append_empty.symm
  | cons line lines ih =>
    rw [Channel.writeLines_cons, ih, hkeeps.writeLine]
    simp only [Deed.text, List.foldr_cons, String.append_assoc]

theorem carryOut [Sink.Reliable σ] (deed : Deed) :
    written (channel.carryOut deed).sink = written channel.sink ++ deed.text := by
  cases deed with
  | say lines => exact hkeeps.writeLines channel lines
  | note event => exact String.append_empty.symm

theorem carryOut_all [Sink.Reliable σ] (deeds : List Deed) :
    written (deeds.foldl Channel.carryOut channel).sink =
      written channel.sink ++ Deed.texts deeds := by
  induction deeds generalizing channel with
  | nil => exact String.append_empty.symm
  | cons deed deeds ih =>
    rw [List.foldl_cons, ih, hkeeps.carryOut, String.append_assoc]
    rfl

theorem closed (calculator : Calculator σ) (how : Ending) :
    written (calculator.closed how).reader.channel.sink =
      written calculator.reader.channel.sink ++ "\n" ++ calculator.farewell ++ "\n" := by
  refine (hkeeps.flushed _).trans ((hkeeps.writeLine _ _).trans ?_)
  rw [← String.append_assoc]
  rfl

end Sink.Keeps

theorem Channel.replies_foldl_carryOut (channel : Channel σ) (deeds : List Deed) :
    (deeds.foldl carryOut channel).replies = channel.replies := by
  induction deeds generalizing channel with
  | nil => rfl
  | cons deed deeds ih =>
    rw [List.foldl_cons, ih]
    cases deed with
    | say lines => exact channel.replies_writeLines lines
    | note event => rfl

/-- A session has come to its end, with the farewell written after a text. -/
structure Concludes (written : σ → String) (farewell : String)
    (result : Except String Ending × Calculator σ) (transcript : Transcript) : Prop where
  ending : result.1 = .ok transcript.ending
  text : written result.2.reader.channel.sink = transcript.text ++ "\n" ++ farewell ++ "\n"
  unread : result.2.reader.channel.replies = transcript.unread.map .line

variable [Sink.Reliable σ]

theorem concludes_close (hkeeps : Sink.Keeps written) {channel : Channel σ}
    {prompt farewell : String} {line : Line} {memory : Memory} {operands : Operands}
    {unread : List String} (hunread : channel.replies = unread.map .line) (how : Ending) :
    Concludes written farewell
      (Calculator.close ⟨⟨channel, prompt, line⟩, memory, farewell, operands⟩ how)
      ⟨written channel.sink, how, unread⟩ := by
  rw [Calculator.close_ok]
  exact ⟨rfl, hkeeps.closed ⟨⟨channel, prompt, line⟩, memory, farewell, operands⟩ how, hunread⟩

/-- What a channel has come to once some lines have been taken from it: the session has ended on one
of them, or it is about to ask for a reply of those after them. -/
def Transcript.Left (transcript : Transcript) (written : σ → String) (prompt : String)
    (more : List Reply) (channel channel' : Channel σ) : Option Worksheet → Prop
  | none => transcript.ending = .exit ∧
      channel'.replies = transcript.unread.map .line ++ more ∧
      written channel'.sink = written channel.sink ++ transcript.text
  | some _ => transcript.ending = .endOfInput ∧ transcript.unread = [] ∧ channel'.replies = more ∧
      written channel'.sink ++ prompt = written channel.sink ++ transcript.text

/-- From the end of a line on a session writes the transcript of some lines to come, whatever comes
after them. -/
theorem Worksheet.goOn_lines (hkeeps : Sink.Keeps written) {settings : Settings}
    {sheet : Worksheet} {channel : Channel σ} {line : Line} {lines : List String}
    {more : List Reply} (hline : line.next? = none)
    (hreplies : channel.replies = lines.map .line ++ more) :
    ∃ channel' last, Arrives settings channel' (sheet.goOn settings channel line) last ∧
      (sheet.transcript settings.prompt lines).Left written settings.prompt more channel channel'
        last := by
  induction lines generalizing sheet channel line with
  | nil => exact ⟨channel, some sheet, ⟨line, hline, rfl⟩, rfl, rfl, hreplies, rfl⟩
  | cons text lines ih =>
    obtain ⟨answered, hanswered⟩ : ∃ answered, answered =
        (channel.prompted settings.prompt).answered (.line text) (lines.map .line ++ more) :=
      ⟨_, rfl⟩
    have hsink : written answered.sink = written channel.sink ++ settings.prompt := by
      rw [hanswered]
      exact hkeeps.prompted channel settings.prompt
    have hlater : answered.replies = lines.map .line ++ more := by
      rw [hanswered]
      rfl
    have harrives := (takes_take sheet text).arrives settings answered
    have hwritten := hkeeps.carryOut_all answered (sheet.take text).1
    have hunread := (answered.replies_foldl_carryOut (sheet.take text).1).trans hlater
    rw [hsink, String.append_assoc] at hwritten
    have hfirst : channel.replies = .line text :: (lines.map .line ++ more) := hreplies
    rw [goOn_of_line hline hfirst, ← hanswered, transcript]
    split
    · next deeds htake =>
      rw [htake] at harrives hwritten hunread
      exact ⟨_, none, harrives, rfl, hunread, hwritten⟩
    · next deeds sheet' htake =>
      rw [htake] at harrives hwritten hunread
      obtain ⟨line', hline', hresult⟩ := harrives
      obtain ⟨channel', last, hlast, hleft⟩ := ih hline' hunread
      rw [← hresult] at hlast
      refine ⟨channel', last, hlast, ?_⟩
      cases last with
      | none =>
        obtain ⟨hending, hunread', hwritten'⟩ := hleft
        rw [hwritten, String.append_assoc] at hwritten'
        exact ⟨hending, hunread', hwritten'⟩
      | some sheet'' =>
        obtain ⟨hending, hnone, hunread', hwritten'⟩ := hleft
        rw [hwritten, String.append_assoc] at hwritten'
        exact ⟨hending, hnone, hunread', hwritten'⟩

/-- From the end of a line on a session writes the transcript of the lines to come. -/
theorem Worksheet.goOn_concludes (hkeeps : Sink.Keeps written) {settings : Settings}
    {sheet : Worksheet} {channel : Channel σ} {line : Line} {lines : List String}
    (hline : line.next? = none) (hreplies : channel.replies = lines.map .line) :
    let transcript := sheet.transcript settings.prompt lines
    Concludes written settings.farewell (sheet.goOn settings channel line)
      { transcript with text := written channel.sink ++ transcript.text } := by
  intro transcript
  rw [← List.append_nil (lines.map _)] at hreplies
  obtain ⟨channel', last, harrives, hleft⟩ := goOn_lines hkeeps hline hreplies
  cases last with
  | none =>
    obtain ⟨line', memory, operands, hresult⟩ := harrives
    obtain ⟨hending, hunread, hwritten⟩ := hleft
    rw [List.append_nil] at hunread
    rw [hresult, ← hwritten, hending]
    exact concludes_close hkeeps hunread .exit
  | some sheet' =>
    obtain ⟨line', hline', hresult⟩ := harrives
    obtain ⟨hending, hnone, hunread, hwritten⟩ := hleft
    rw [hresult, goOn_of_end hline' hunread, hending, hnone, ← hwritten, ← hkeeps.prompted]
    exact concludes_close hkeeps rfl .endOfInput

namespace Calculator

omit [Sink.Reliable σ] in
theorem run_start (settings : Settings) (channel : Channel σ) :
    (Calculator.start settings channel).run =
      (Worksheet.start settings).goOn settings (channel.note .started) {} :=
  converse_eq_resume _

theorem run_concludes (hkeeps : Sink.Keeps written) (settings : Settings) (lines : List String)
    (sink : σ) :
    let transcript := (Worksheet.start settings).transcript settings.prompt lines
    Concludes written settings.farewell
      (Calculator.start settings { replies := lines.map .line, sink }).run
      { transcript with text := written sink ++ transcript.text } := by
  intro transcript
  rw [run_start]
  exact Worksheet.goOn_concludes hkeeps rfl rfl

/-- Over every byte stream and on a sink that never fails, a session writes its transcript and the
farewell. It ends by the exit word exactly if an expression begins with it, and then reads no line
after that. -/
theorem run_transcript (hkeeps : Sink.Keeps written) (settings : Settings) (bytes : List UInt8)
    (sink : σ) :
    let lines := linesOfBytes bytes
    let sheet := Worksheet.start settings
    let transcript := sheet.transcript settings.prompt lines
    let result := (Calculator.start settings { replies := repliesOfBytes bytes, sink }).run
    result.1 = .ok transcript.ending ∧
    written result.2.reader.channel.sink =
      written sink ++ transcript.text ++ "\n" ++ settings.farewell ++ "\n" ∧
    result.2.reader.channel.replies = transcript.unread.map .line ∧
    (transcript.ending = .exit ↔ ∃ token, sheet.OpensOn lines token ∧ token.IsExit) := by
  intro lines sheet transcript result
  have hresult : result = sheet.goOn settings
      (Channel.note { replies := repliesOfBytes bytes, sink } .started) {} :=
    converse_eq_resume _
  have hconcludes : Concludes written settings.farewell (sheet.goOn settings
      (Channel.note { replies := repliesOfBytes bytes, sink } .started) {})
      { transcript with text := written sink ++ transcript.text } :=
    Worksheet.goOn_concludes hkeeps rfl rfl
  rw [← hresult] at hconcludes
  exact ⟨hconcludes.ending, hconcludes.text, hconcludes.unread,
    Worksheet.transcript_ending_eq_exit_iff settings.prompt sheet lines⟩

/-- An expression over two lines that is refused on the second, and the exit word before a line. -/
theorem run_of_four_lines :
    let bytes := "1 @ 2\n+ 3 4 @ x\n5 @ Exit @\n6 @".toUTF8.toList
    let result := CommandLine.session {} (repliesOfBytes bytes)
    result.1 = .ok .exit ∧
    result.2.reader.channel.sink.written =
      ">> 1\n>> Not enough operands\n+ 3 4 @ x\n^\nno value\n>> 5\n\nBye\n" ∧
    result.2.reader.channel.replies = [.line "6 @"] := by
  intro bytes result
  have htranscript : (Worksheet.start {}).transcript ">> " (linesOfBytes bytes) =
      ⟨">> 1\n>> Not enough operands\n+ 3 4 @ x\n^\nno value\n>> 5\n", .exit, ["6 @"]⟩ := by
    decide +kernel
  obtain ⟨hending, htext, hunread, -⟩ := run_transcript Paper.keeps_written {} bytes {}
  rw [htranscript] at hending htext hunread
  exact ⟨hending, htext, hunread⟩

end Calculator

end ReversePolish
