import ReversePolish.Proofs.PairedSessions
import ReversePolish.Proofs.PromptedReads
import ReversePolish.Proofs.SessionJournal
import ReversePolish.Proofs.SessionTranscript

/-!
# Sessions without a prompt

Where nothing fails, the prompt is all that sessions with different prompts differ in. A session
makes the calls of the quiet one and writes its prompt besides, right before each attempt to read a
line; the outcomes, the variables and everything that is recorded are the same.
-/

namespace ReversePolish

/-- The calls, the latest first, with the prompt written before each flush that a line is read
after. -/
def withPrompts (prompt : String) : List Call → List Call
  | [] => []
  | .readLine reply :: .flush flushed :: calls =>
    .readLine reply :: .flush flushed :: (promptCalls prompt ++ withPrompts prompt calls)
  | call :: calls => call :: withPrompts prompt calls

/-- The calls, the latest first, without the prompts that are written there. -/
def withoutPrompts (prompt : String) : List Call → List Call
  | [] => []
  | .readLine reply :: .flush flushed :: .write text written :: calls =>
    if prompt ≠ "" ∧ text = prompt then
      .readLine reply :: .flush flushed :: withoutPrompts prompt calls
    else .readLine reply :: .flush flushed :: .write text written :: withoutPrompts prompt calls
  | call :: calls => call :: withoutPrompts prompt calls

def writtenBy : List Call → String
  | [] => ""
  | .write text true :: calls => writtenBy calls ++ text
  | _ :: calls => writtenBy calls

theorem withPrompts_empty (calls : List Call) : withPrompts "" calls = calls := by
  fun_induction withPrompts "" calls with
  | case1 => rfl
  | case2 reply flushed calls ih => rw [promptCalls, if_pos rfl, List.nil_append, ih]
  | case3 call calls _ ih => rw [ih]

theorem withoutPrompts_empty (calls : List Call) : withoutPrompts "" calls = calls := by
  fun_induction withoutPrompts "" calls with
  | case1 => rfl
  | case2 reply flushed text written calls h => exact absurd rfl h.1
  | case3 reply flushed text written calls h ih => rw [ih]
  | case4 call calls _ ih => rw [ih]

theorem withPrompts_write (prompt text : String) (succeeded : Bool) (calls : List Call) :
    withPrompts prompt (.write text succeeded :: calls) =
      .write text succeeded :: withPrompts prompt calls := rfl

theorem withPrompts_flush (prompt : String) (succeeded : Bool) (calls : List Call) :
    withPrompts prompt (.flush succeeded :: calls) = .flush succeeded :: withPrompts prompt calls :=
  rfl

theorem exists_withPrompts_cons (prompt : String) (call : Call) (calls : List Call) :
    ∃ later, withPrompts prompt (call :: calls) = call :: later := by
  unfold withPrompts
  split
  · next h => simp at h
  · next h =>
    obtain ⟨rfl, -⟩ := List.cons.inj h
    exact ⟨_, rfl⟩
  · next h =>
    obtain ⟨rfl, -⟩ := List.cons.inj h
    exact ⟨_, rfl⟩

/-- Prompts that have been put in are taken out again. -/
theorem withoutPrompts_withPrompts (prompt : String) (calls : List Call) :
    withoutPrompts prompt (withPrompts prompt calls) = calls := by
  by_cases hprompt : prompt = ""
  · rw [hprompt, withPrompts_empty, withoutPrompts_empty]
  · fun_induction withPrompts prompt calls with
    | case1 => rfl
    | case2 reply flushed calls ih =>
      rw [promptCalls, if_neg hprompt, List.singleton_append, withoutPrompts,
        if_pos ⟨hprompt, rfl⟩, ih]
    | case3 call calls hother ih =>
      rw [withoutPrompts, ih]
      intro reply flushed text written more hcall hcalls
      cases calls with
      | nil => simp [withPrompts] at hcalls
      | cons next calls =>
        obtain ⟨later, hlater⟩ := exists_withPrompts_cons prompt next calls
        rw [hlater] at hcalls
        exact hother reply flushed calls hcall (by rw [(List.cons.inj hcalls).1])

variable {σ : Type} [Sink σ] [Sink.Reliable σ]

namespace Channel

theorem calls_write_ok (channel : Channel σ) (text : String) :
    (channel.write text).2.calls = .write text true :: channel.calls := by
  rw [calls_write, write_ok]
  rfl

theorem calls_flush_ok (channel : Channel σ) :
    channel.flush.2.calls = .flush true :: channel.calls := by
  rw [calls_flush, flush_ok]
  rfl

theorem calls_prompted (channel : Channel σ) (prompt : String) :
    (channel.prompted prompt).calls = .flush true :: (promptCalls prompt ++ channel.calls) := by
  have hcalls := Reader.calls_ask { channel, prompt }
  rw [Reader.ask_ok] at hcalls
  exact hcalls

/-- What has been added to the sink is what the calls have written. -/
theorem Leads.written {written : σ → String} (hkeeps : Sink.Keeps written)
    {channel later : Channel σ} (h : channel.Leads later) {before : String}
    (hbefore : written channel.sink = before ++ writtenBy channel.calls) :
    written later.sink = before ++ writtenBy later.calls := by
  induction h with
  | refl => exact hbefore
  | @write later _ text ih =>
    rw [calls_write_ok, writtenBy, ← String.append_assoc, ← ih]
    exact hkeeps.write later.sink text
  | @flush later _ ih =>
    rw [calls_flush_ok, writtenBy, ← ih]
    · exact hkeeps.flush later.sink
    · simp
  | @readLine later _ ih =>
    rw [Channel.readLine]
    split <;> exact ih
  | note _ event ih => exact ih

end Channel

/-- A channel without prompts and one with them. -/
structure Channel.Twin (prompt : String) (quiet prompted : Channel σ) : Prop where
  replies : quiet.replies = prompted.replies
  journal : quiet.journal = prompted.journal
  calls : prompted.calls = withPrompts prompt quiet.calls

namespace Channel.Twin

variable {prompt : String} {quiet prompted : Channel σ}

omit [Sink σ] [Sink.Reliable σ] in
theorem note (h : Twin prompt quiet prompted) (event : Event) :
    Twin prompt (quiet.note event) (prompted.note event) :=
  ⟨h.replies, congrArg (event :: ·) h.journal, h.calls⟩

theorem write (h : Twin prompt quiet prompted) (text : String) :
    Twin prompt (quiet.write text).2 (prompted.write text).2 := by
  refine ⟨h.replies, h.journal, ?_⟩
  rw [calls_write_ok, calls_write_ok, withPrompts_write, h.calls]

theorem flush (h : Twin prompt quiet prompted) :
    Twin prompt quiet.flush.2 prompted.flush.2 := by
  refine ⟨h.replies, h.journal, ?_⟩
  rw [calls_flush_ok, calls_flush_ok, withPrompts_flush, h.calls]

theorem answered (h : Twin prompt quiet prompted) (reply : Reply) (replies : List Reply) :
    Twin prompt ((quiet.prompted "").answered reply replies)
      ((prompted.prompted prompt).answered reply replies) := by
  refine ⟨rfl, ?_, ?_⟩
  · exact (Reader.journal_ask { channel := quiet, prompt := "" }).trans
      (h.journal.trans (Reader.journal_ask { channel := prompted, prompt }).symm)
  · change .readLine reply :: (prompted.prompted prompt).calls =
      withPrompts prompt (.readLine reply :: (quiet.prompted "").calls)
    rw [calls_prompted, calls_prompted, promptCalls, promptCalls, if_pos rfl, List.nil_append,
      withPrompts, h.calls]
    rfl

theorem steady : Steady "" prompt (Twin (σ := σ) prompt) where
  replies h := h.replies
  note h := h.note
  write h := h.write
  flush h := h.flush
  answered h := h.answered

end Channel.Twin

namespace Calculator

theorem lockstep_quiet (prompt : String) :
    Lockstep (Paired "" prompt (Channel.Twin (σ := σ) prompt)) :=
  Paired.lockstep Channel.Twin.steady

omit [Sink σ] [Sink.Reliable σ] in
theorem paired_quiet (settings : Settings) (replies : List Reply) (sink : σ) :
    Paired "" settings.prompt (Channel.Twin settings.prompt)
      (start settings.quiet { replies, sink }) (start settings { replies, sink }) :=
  ⟨⟨rfl, rfl, rfl, rfl, rfl, rfl⟩, rfl, rfl, rfl⟩

/-- A session and the quiet one come to the same, all along. -/
theorem agree_quiet (settings : Settings) (replies : List Reply) (sink : σ) :
    Agree (Paired "" settings.prompt (Channel.Twin settings.prompt))
      (start settings.quiet { replies, sink }).run (start settings { replies, sink }).run :=
  (lockstep_quiet settings.prompt).run (paired_quiet settings replies sink)

theorem written_run_of_unused {written : σ → String} (hkeeps : Sink.Keeps written)
    (settings : Settings) {channel : Channel σ} (hunused : channel.calls = []) :
    let last := (start settings channel).run.2.reader.channel
    written last.sink = written channel.sink ++ writtenBy last.calls := by
  refine (leads_converse _).written hkeeps ?_
  change written channel.sink = written channel.sink ++ writtenBy channel.calls
  rw [hunused]
  exact String.append_empty.symm

theorem written_run {written : σ → String} (hkeeps : Sink.Keeps written) (settings : Settings)
    (replies : List Reply) (sink : σ) :
    let last := (start settings { replies, sink }).run.2.reader.channel
    written last.sink = written sink ++ writtenBy last.calls :=
  written_run_of_unused hkeeps settings rfl

/-- Two sessions that are the same but for their prompts end alike and record the same. -/
theorem run_of_quiet_eq {settings settings' : Settings} (hquiet : settings'.quiet = settings.quiet)
    (replies : List Reply) (sink : σ) :
    let result := (start settings { replies, sink }).run
    let result' := (start settings' { replies, sink }).run
    result'.1 = result.1 ∧ result'.2.memory = result.2.memory ∧
      result'.2.reader.channel.journal = result.2.reader.channel.journal := by
  obtain ⟨hended, htwin⟩ := agree_quiet settings replies sink
  obtain ⟨hended', htwin'⟩ := agree_quiet settings' replies sink
  rw [hquiet] at hended' htwin'
  exact ⟨hended'.symm.trans hended, htwin'.memory.symm.trans htwin.memory,
    htwin'.reader.channel.journal.symm.trans htwin.reader.channel.journal⟩

end Calculator

namespace CommandLine

theorem Arguments.settings_quiet (arguments : Arguments) :
    arguments.settings.quiet = ({} : Settings).quiet := by
  rw [settings]
  split <;> rfl

/-- The options about the prompt change neither the exit code nor the diagnostics. -/
theorem executeSession_of_level_eq {arguments arguments' : Arguments}
    (hlevel : arguments'.level = arguments.level) (replies : List Reply) :
    (executeSession arguments' replies).code = (executeSession arguments replies).code ∧
    (executeSession arguments' replies).diagnostics =
      (executeSession arguments replies).diagnostics := by
  have hquiet := arguments'.settings_quiet.trans arguments.settings_quiet.symm
  obtain ⟨hended, -, hjournal⟩ := Calculator.run_of_quiet_eq hquiet replies ({} : Paper)
  have htext : journalText arguments'.level (session arguments'.settings replies).2 =
      journalText arguments.level (session arguments.settings replies).2 := by
    rw [journalText, journalText, hlevel]
    exact congrArg (fun journal =>
      String.join ((arguments.level.shown journal.reverse).map Event.line)) hjournal
  have hsession :
      (session arguments'.settings replies).1 = (session arguments.settings replies).1 := hended
  dsimp only [executeSession]
  rw [hsession, htext]
  cases (session arguments.settings replies).1 with
  | ok how => exact ⟨rfl, rfl⟩
  | error reason => exact ⟨rfl, rfl⟩

end CommandLine

namespace Calculator

/-- Whatever the replies, sessions that differ in the prompt only end alike and leave the same
variables and target, and their expressions come to the same values and rejections. Without the
prompts their calls are the same. A session with a prompt makes the calls of the quiet one and,
right before each attempt to read a line, writes its prompt, and all that is written goes to the
sink in that order. So no option about the prompt changes how a command line is executed, but for
its output. -/
theorem run_with_any_prompt {written : σ → String} (hkeeps : Sink.Keeps written)
    {settings settings' : Settings} (hquiet : settings'.quiet = settings.quiet)
    (replies : List Reply) (sink : σ) :
    let start (settings : Settings) := Calculator.start settings { replies, sink }
    let last (settings : Settings) := (start settings).run.2
    let calls (settings : Settings) := (last settings).reader.channel.calls
    let transcript (settings : Settings) := written (last settings).reader.channel.sink
    (start settings').run.1 = (start settings).run.1 ∧
    (last settings').memory = (last settings).memory ∧
    (last settings').reader.channel.journal = (last settings).reader.channel.journal ∧
    (start settings').drain.1 = (start settings).drain.1 ∧
    (start settings').drain.2.1 = (start settings).drain.2.1 ∧
    withoutPrompts settings'.prompt (calls settings') =
      withoutPrompts settings.prompt (calls settings) ∧
    calls settings = withPrompts settings.prompt (calls settings.quiet) ∧
    transcript settings.quiet = written sink ++ writtenBy (calls settings.quiet) ∧
    transcript settings =
      written sink ++ writtenBy (withPrompts settings.prompt (calls settings.quiet)) ∧
    ∀ arguments arguments' : CommandLine.Arguments, arguments'.level = arguments.level →
      (CommandLine.executeSession arguments' replies).code =
        (CommandLine.executeSession arguments replies).code ∧
      (CommandLine.executeSession arguments' replies).diagnostics =
        (CommandLine.executeSession arguments replies).diagnostics := by
  intro start last calls transcript
  have hcalls : calls settings = withPrompts settings.prompt (calls settings.quiet) :=
    (agree_quiet settings replies sink).2.reader.channel.calls
  have hcalls' : calls settings' = withPrompts settings'.prompt (calls settings.quiet) :=
    hquiet ▸ (agree_quiet settings' replies sink).2.reader.channel.calls
  obtain ⟨hended, hmemory, hjournal⟩ := run_of_quiet_eq hquiet replies sink
  obtain ⟨houtcomes, hstop⟩ :=
    (lockstep_quiet settings.prompt).drain (paired_quiet settings replies sink)
  obtain ⟨houtcomes', hstop'⟩ :=
    (lockstep_quiet settings'.prompt).drain (paired_quiet settings' replies sink)
  rw [hquiet] at houtcomes' hstop'
  refine ⟨hended, hmemory, hjournal, houtcomes'.symm.trans houtcomes, hstop'.symm.trans hstop,
    ?_, hcalls, written_run hkeeps _ replies sink, ?_,
    fun _ _ hlevel => CommandLine.executeSession_of_level_eq hlevel replies⟩
  · rw [hcalls, hcalls', withoutPrompts_withPrompts, withoutPrompts_withPrompts]
  · rw [← hcalls]
    exact written_run hkeeps settings replies sink

/-- An expression over two lines that is refused on the second: the quiet session asks for three
lines, and with a prompt that is written three times. -/
theorem run_with_two_prompts :
    let start (settings : Settings) := Calculator.start settings
      { replies := [.line "1 @ 2", .line "+ @ x"], sink := ({} : Paper) }
    let calls (settings : Settings) := (start settings).run.2.reader.channel.calls
    let question : Settings := { prompt := "? " }
    question.quiet = ({} : Settings).quiet ∧
    (start question).run.1 = (start {}).run.1 ∧
    withoutPrompts "? " (calls question) = withoutPrompts ">> " (calls {}) ∧
    (calls ({} : Settings).quiet).count (.flush true) = 4 ∧
    (start {}).run.2.reader.channel.sink.written =
      ">> 1\n>> Not enough operands\n+ @ x\n^\nno value\n>> \nBye\n" := by
  intro start calls question
  obtain ⟨hended, -, -, -, -, hcalls, -, -, htranscript, -⟩ :=
    run_with_any_prompt Paper.keeps_written (show question.quiet = ({} : Settings).quiet from rfl)
      [.line "1 @ 2", .line "+ @ x"] {}
  exact ⟨rfl, hended, hcalls, by decide +kernel, htranscript.trans (by decide +kernel)⟩

end Calculator

end ReversePolish
