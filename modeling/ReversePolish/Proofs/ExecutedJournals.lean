import ReversePolish.Proofs.ExecutedSessions
import ReversePolish.Proofs.NumberRoundTrip
import ReversePolish.Proofs.SessionAccounts

/-!
# Executed journals

A command line shows the journal of its session, the events up to the level that its arguments ask
for. The journal begins with the start of the session and goes on in step with the output: it tells
the same findings in the same order, with values that read back as those that are written.
-/

namespace ReversePolish

theorem Level.shown_trace (events : List Event) : trace.shown events = events := by
  refine List.filter_eq_self.2 fun event _ => ?_
  cases event <;> rfl

theorem Level.ofVerbosity_of_le {verbosity : Nat} (h : 3 ≤ verbosity) :
    ofVerbosity verbosity = trace := by
  obtain ⟨more, rfl⟩ := Nat.exists_eq_add_of_le' h
  rfl

namespace CommandLine

/-- The replies over which a command line starts a session: those of the standard input, or of the
file that is named, if it can be opened. -/
inductive Starts (opened : String → Except String Source) (input : List UInt8)
    (arguments : Arguments) : List Reply → Prop
  | input (file : arguments.file = none) : Starts opened input arguments (repliesOfBytes input)
  | file {path source} (file : arguments.file = some path) (opens : opened path = .ok source) :
      Starts opened input arguments source.replies

def begun (settings : Settings) (replies : List Reply) : Calculator Paper :=
  (Calculator.start settings { replies, sink := {} }).note .started

def failureText : Except String Ending → String
  | .ok _ => ""
  | .error reason => sessionFailure reason

/-- Some events are those of a session, and some findings are what it has written and noted. -/
structure Chronicle (settings : Settings) (replies : List Reply) (output : String)
    (events : List Event) (findings : List Finding) : Prop where
  journal : (session settings replies).2.reader.channel.journal = events.reverse
  bounds : ∃ inside, events = .started :: (inside ++ endingEvents (session settings replies).1) ∧
    ∀ event ∈ inside, ¬event.isBound
  tokens : events.filterMap Event.token? = (begun settings replies).consumedInAll
  tells : events.filter Event.isFinding = findings.map Finding.event
  shows : ∃ text, Shows settings.prompt findings text ∧
    output = text ++ endingText settings.farewell (session settings replies).1
  outcomes : List.Forall₂
    (fun (round : Calculator Paper) finding =>
      Calculator.Finds round.memory round.evaluate finding)
    (begun settings replies).answered findings
  values : ∀ target value, .value target value ∈ findings →
    numberValue (value.write .journal) = .ok value ∧
      numberValue (value.write .result) = .ok value

variable {opened : String → Except String Source} {input : List UInt8} {texts : List String}
  {arguments arguments' : Arguments} {replies : List Reply}

theorem execute_of_starts (hvalid : Arguments.ofTexts texts = .ok arguments)
    (h : Starts opened input arguments replies) :
    execute opened input texts = executeSession arguments replies := by
  cases h with
  | input file => exact execute_input input hvalid file
  | file file opens => exact execute_file input hvalid file opens

theorem Starts.of_mute_eq (h : Starts opened input arguments replies)
    (hmute : arguments'.mute = arguments.mute) : Starts opened input arguments' replies := by
  have hfile : arguments'.file = arguments.file := by
    rw [← arguments'.file_mute, hmute, arguments.file_mute]
  cases h with
  | input file => exact .input (hfile.trans file)
  | file file opens => exact .file (hfile.trans file) opens

theorem diagnostics_executeSession (arguments : Arguments) (replies : List Reply) :
    (executeSession arguments replies).diagnostics =
      journalText arguments.level (session arguments.settings replies).2 ++
        failureText (session arguments.settings replies).1 := by
  dsimp only [executeSession]
  split
  · next h =>
    rw [h]
    exact String.append_empty.symm
  · next h => rw [h]; rfl

/-- Every session of a command line has its chronicle. -/
theorem exists_chronicle (settings : Settings) (replies : List Reply) :
    ∃ events findings, Chronicle settings replies
      (session settings replies).2.reader.channel.sink.written events findings := by
  obtain ⟨last, events, findings, hcovers, hfinishes⟩ :=
    Calculator.covers_converse Paper.keeps_written (begun settings replies)
  obtain ⟨text, hshows, htext⟩ := hcovers.shows
  refine ⟨.started :: (events ++ endingEvents (session settings replies).1), findings, {
    journal := ?_
    bounds := ⟨events, rfl, hcovers.inside⟩
    tokens := ?_
    tells := ?_
    shows := ⟨text, hshows, ?_⟩
    outcomes := hcovers.outcomes
    values := fun _ value _ => ⟨numberValue_of_read? (Binary64.read?_write_journal value),
      numberValue_of_read? (Binary64.read?_write value)⟩ }⟩
  · rw [List.reverse_cons, List.reverse_append, List.append_assoc]
    exact hfinishes.journal_eq.trans (congrArg _ hcovers.journal)
  · rw [List.filterMap_cons_none rfl, List.filterMap_append, token?_endingEvents, List.append_nil]
    exact hcovers.tokens
  · rw [List.filter_cons_of_neg Bool.false_ne_true, List.filter_append, isFinding_endingEvents,
      List.append_nil]
    exact hcovers.tells
  · have hwritten := hfinishes.written_eq Paper.keeps_written
    rw [htext, hcovers.farewell] at hwritten
    exact hwritten.trans (congrArg (· ++ _) String.empty_append)

/-- Wherever a command line starts a session, its diagnostics are the events of that session up to
the level asked for, in order, and all of them at the most talkative level. The events begin with
the start, and the last of them is the end if the session comes to it. They name the tokens that are
consumed, and tell the outcomes that the output shows: a value as the variable holds it, in a text
that reads back as the one written, and a rejection with the caret where it was drawn. -/
theorem execute_shows_journal {opened : String → Except String Source} {input : List UInt8}
    {texts : List String} {arguments : Arguments} {replies : List Reply}
    (hvalid : Arguments.ofTexts texts = .ok arguments)
    (hstarts : Starts opened input arguments replies) :
    ∃ events findings,
      Chronicle arguments.settings replies (execute opened input texts).output events findings ∧
      ∀ texts' arguments', Arguments.ofTexts texts' = .ok arguments' →
        Arguments.withoutVerbosity texts' = Arguments.withoutVerbosity texts →
        (execute opened input texts').diagnostics =
          String.join ((arguments'.level.shown events).map Event.line) ++
            failureText (session arguments.settings replies).1 ∧
        (3 ≤ arguments'.verbosity → arguments'.level.shown events = events) := by
  obtain ⟨events, findings, hchronicle⟩ := exists_chronicle arguments.settings replies
  refine ⟨events, findings, ?_, fun texts' arguments' hvalid' hverbosity => ⟨?_, fun hfull => ?_⟩⟩
  · rw [execute_of_starts hvalid hstarts, output_executeSession]
    exact hchronicle
  · have hmute := Arguments.take_withoutVerbosity hvalid
    have hmute' := Arguments.take_withoutVerbosity hvalid'
    rw [hverbosity, hmute] at hmute'
    have hsame : arguments'.mute = arguments.mute := (Except.ok.inj hmute').symm
    have hsettings : arguments'.settings = arguments.settings := by
      rw [← arguments'.settings_mute, hsame, arguments.settings_mute]
    rw [execute_of_starts hvalid' (hstarts.of_mute_eq hsame), diagnostics_executeSession,
      hsettings, journalText, hchronicle.journal, List.reverse_reverse]
  · rw [Arguments.level, Level.ofVerbosity_of_le hfull, Level.shown_trace]

/-- A value, a rejection on the same line and the exit word, shown at two levels. -/
theorem execute_shows_journal_of_two_lines :
    let noFile : Folder := []
    let execute := execute noFile "x = 0.00001 @ +\nexit 2 @".toUTF8.toList
    (execute ["-q"]).output =
      "0.00001\nNot enough operands\nx = 0.00001 @ +\n              ^\nno value\n\nBye\n" ∧
    (execute ["-qvv"]).diagnostics =
      " INFO session started\nDEBUG assignment target changed name=x\n" ++
      "DEBUG line evaluated variable=x value=1e-5\n" ++
      "DEBUG line rejected error=Not enough operands position=15\n" ++
      " INFO session ended termination=Exit\n" ∧
    (execute ["-q", "--verbose"]).diagnostics =
      " INFO session started\n INFO session ended termination=Exit\n" := by
  intro noFile execute
  have hstarts : Starts noFile "x = 0.00001 @ +\nexit 2 @".toUTF8.toList { quiet := true } _ :=
    .input rfl
  obtain ⟨events, findings, hchronicle, hlevels⟩ := execute_shows_journal
    (show Arguments.ofTexts ["-q"] = .ok { quiet := true } by decide +kernel) hstarts
  obtain ⟨hdebug, -⟩ := hlevels ["-qvv"] { quiet := true, verbosity := 2 } (by decide +kernel)
    (by decide +kernel)
  obtain ⟨hinfo, -⟩ := hlevels ["-q", "--verbose"] { quiet := true, verbosity := 1 }
    (by decide +kernel) (by decide +kernel)
  have hevents := List.reverse_eq_iff.2 hchronicle.journal
  rw [← hevents] at hdebug hinfo
  exact ⟨by decide +kernel, hdebug.trans (by decide +kernel), hinfo.trans (by decide +kernel)⟩

end CommandLine

end ReversePolish
