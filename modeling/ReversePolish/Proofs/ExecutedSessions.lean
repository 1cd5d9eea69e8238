import ReversePolish.CommandLine.Execution
import ReversePolish.Proofs.QuietSessions
import ReversePolish.Proofs.SourceLines

/-!
# Executed sessions

A command line shows a session: over the lines of the standard input or of the file that it names,
with the settings that its arguments describe, its output is what that session writes on any sink
that never fails, and its code tells how the session ended. The options for verbosity have no part
in either.
-/

namespace ReversePolish

section

variable {σ τ : Type} [Sink σ] [Sink τ]

/-- Channels with the same replies to come that have been used alike, whatever their journals. -/
structure Channel.Mirrors (channel : Channel σ) (channel' : Channel τ) : Prop where
  replies : channel.replies = channel'.replies
  calls : channel.calls = channel'.calls

variable [Sink.Reliable σ] [Sink.Reliable τ]

theorem Channel.Mirrors.steady (prompt : String) :
    Channel.Steady prompt prompt (Channel.Mirrors (σ := σ) (τ := τ)) where
  replies h := h.replies
  note h _ := ⟨h.replies, h.calls⟩
  write h text := by
    refine ⟨h.replies, ?_⟩
    rw [calls_write_ok, calls_write_ok, h.calls]
  flush h := by
    refine ⟨h.replies, ?_⟩
    rw [calls_flush_ok, calls_flush_ok, h.calls]
  answered {channel channel'} h reply _ := by
    refine ⟨rfl, ?_⟩
    change Call.readLine reply :: (channel.prompted prompt).calls =
      .readLine reply :: (channel'.prompted prompt).calls
    rw [calls_prompted, calls_prompted, h.calls]

/-- A session ends in the same way and makes the same calls on every sink. -/
theorem Calculator.run_mirrors (settings : Settings) {channel : Channel σ} {channel' : Channel τ}
    (h : channel.Mirrors channel') :
    (start settings channel).run.1 = (start settings channel').run.1 ∧
      (start settings channel).run.2.reader.channel.calls =
        (start settings channel').run.2.reader.channel.calls := by
  obtain ⟨hended, hpaired⟩ := (Paired.lockstep (Channel.Mirrors.steady settings.prompt)).run
    (show Paired _ _ _ (start settings channel) (start settings channel') from
      ⟨⟨rfl, rfl, rfl, h⟩, rfl, rfl, rfl⟩)
  exact ⟨hended, hpaired.reader.channel.calls⟩

end

namespace CommandLine

def exitCode : Except String Ending → Nat
  | .ok _ => 0
  | .error _ => 1

/-- An execution shows a session over some replies: it has the code and the output of the session on
any sink that never fails, whatever has been noted in the journal before. -/
structure Execution.Shows (execution : Execution) (settings : Settings) (replies : List Reply) :
    Prop where
  code (σ : Type) [Sink σ] [Sink.Reliable σ] (sink : σ) (journal : List Event) :
    execution.code = exitCode (Calculator.start settings { replies, sink, journal }).run.1
  output (σ : Type) [Sink σ] [Sink.Reliable σ] {written : σ → String} (hkeeps : Sink.Keeps written)
    (sink : σ) (journal : List Event) :
    written (Calculator.start settings { replies, sink, journal }).run.2.reader.channel.sink =
      written sink ++ execution.output

theorem code_executeSession (arguments : Arguments) (replies : List Reply) :
    (executeSession arguments replies).code = exitCode (session arguments.settings replies).1 := by
  dsimp only [executeSession]
  split <;> next h => rw [h]; rfl

theorem output_executeSession (arguments : Arguments) (replies : List Reply) :
    (executeSession arguments replies).output =
      (session arguments.settings replies).2.reader.channel.sink.written := by
  dsimp only [executeSession]
  split <;> rfl

theorem session_mirrors {σ : Type} [Sink σ] [Sink.Reliable σ] (settings : Settings)
    (replies : List Reply) (sink : σ) (journal : List Event) :
    let result := (Calculator.start settings { replies, sink, journal }).run
    (session settings replies).1 = result.1 ∧
      (session settings replies).2.reader.channel.calls = result.2.reader.channel.calls :=
  Calculator.run_mirrors settings ⟨rfl, rfl⟩

theorem executeSession_shows (arguments : Arguments) (replies : List Reply) :
    (executeSession arguments replies).Shows arguments.settings replies where
  code σ _ _ sink journal := by
    obtain ⟨hended, -⟩ := session_mirrors arguments.settings replies sink journal
    rw [code_executeSession, hended]
  output σ _ _ written hkeeps sink journal := by
    obtain ⟨-, hcalls⟩ := session_mirrors arguments.settings replies sink journal
    have hpaper := Calculator.written_run Paper.keeps_written arguments.settings replies {}
    rw [session] at hcalls
    rw [Calculator.written_run_of_unused hkeeps arguments.settings rfl, ← hcalls,
      output_executeSession, session, hpaper]
    exact congrArg (written sink ++ ·) String.empty_append.symm

/-- Only a second dash in front makes more of a group of flags. -/
theorem Argument.ofText_short {flag : Char} (h : flag ≠ '-') (flags : List Char) :
    ofText (String.ofList ('-' :: flag :: flags)) = .short (flag :: flags) := by
  unfold ofText
  rw [String.toList_ofList]
  split
  · next heq => simp_all
  · next heq => simp_all
  · next heq => simp_all
  · next hother => exact absurd rfl (hother flag flags)

namespace Arguments

/-- The arguments of a command line without the options for verbosity. The value of the prompt is no
option, nor is anything after a divider. -/
def withoutVerbosity : List String → List String
  | [] => []
  | text :: texts =>
    match Argument.ofText text with
    | .divider => text :: texts
    | .long name none =>
      if name = "verbose" then withoutVerbosity texts
      else if name = "prompt" then
        match texts with
        | [] => [text]
        | value :: texts => text :: value :: withoutVerbosity texts
      else text :: withoutVerbosity texts
    | .short flags =>
      match flags.filter (· ≠ 'v') with
      | [] => withoutVerbosity texts
      | others => String.ofList ('-' :: others) :: withoutVerbosity texts
    | .file _ | .long _ (some _) => text :: withoutVerbosity texts

def mute (arguments : Arguments) : Arguments := { arguments with verbosity := 0 }

@[simp] theorem settings_mute (arguments : Arguments) :
    arguments.mute.settings = arguments.settings := rfl

@[simp] theorem file_mute (arguments : Arguments) : arguments.mute.file = arguments.file := rfl

theorem takeQuiet_mute (arguments : Arguments) :
    arguments.mute.takeQuiet = arguments.takeQuiet.map mute := by
  dsimp only [takeQuiet, mute]
  split <;> rfl

theorem takePrompt_mute (arguments : Arguments) (value : String) :
    arguments.mute.takePrompt value = (arguments.takePrompt value).map mute := by
  dsimp only [takePrompt, mute]
  split <;> rfl

theorem takeFile_mute (arguments : Arguments) (name : String) :
    arguments.mute.takeFile name = (arguments.takeFile name).map mute := by
  dsimp only [takeFile, mute]
  split
  · rfl
  · split <;> rfl

theorem takeFlag_mute (arguments : Arguments) {flag : Char} (h : flag ≠ 'v') :
    arguments.mute.takeFlag flag = (arguments.takeFlag flag).map mute := by
  unfold takeFlag
  split
  · exact arguments.takeQuiet_mute
  · exact absurd rfl h
  · rfl
  · rfl
  · rfl

theorem takeLong_mute (arguments : Arguments) {name : String} (h : name ≠ "verbose") :
    arguments.mute.takeLong name = (arguments.takeLong name).map mute := by
  unfold takeLong
  split
  · exact arguments.takeQuiet_mute
  · exact absurd rfl h
  · rfl
  · rfl
  · rfl

theorem takeLongValue_mute (arguments : Arguments) (name value : String) :
    arguments.mute.takeLongValue name value = (arguments.takeLongValue name value).map mute := by
  unfold takeLongValue
  split
  · exact arguments.takePrompt_mute value
  all_goals rfl

theorem exists_of_bind {taken : Except Interruption Arguments}
    {goOn : Arguments → Except Interruption Arguments} {later : Arguments}
    (h : taken >>= goOn = .ok later) : ∃ next, taken = .ok next ∧ goOn next = .ok later := by
  cases taken with
  | error cause => nomatch h
  | ok next => exact ⟨next, rfl, h⟩

/-- Without those for verbosity the flags of a valid group do the same. No dash is among them. -/
theorem foldlM_takeFlag_mute {flags : List Char} {arguments later : Arguments}
    (h : flags.foldlM takeFlag arguments = .ok later) :
    (flags.filter (· ≠ 'v')).foldlM takeFlag arguments.mute = .ok later.mute ∧ '-' ∉ flags := by
  induction flags generalizing arguments with
  | nil =>
    obtain rfl := Except.ok.inj h
    exact ⟨rfl, List.not_mem_nil⟩
  | cons flag flags ih =>
    obtain ⟨next, hflag, hlater⟩ := exists_of_bind h
    obtain ⟨hmute, hdash⟩ := ih hlater
    have hne : '-' ≠ flag := by
      rintro rfl
      nomatch hflag
    refine ⟨?_, List.not_mem_cons_of_ne_of_not_mem hne hdash⟩
    by_cases hverbose : flag = 'v'
    · obtain rfl := hverbose
      obtain rfl := Except.ok.inj hflag
      exact hmute
    · rw [List.filter_cons_of_pos (by simpa using hverbose), List.foldlM_cons,
        takeFlag_mute arguments hverbose, hflag]
      exact hmute

theorem foldlM_takeFile_mute {names : List String} {arguments later : Arguments}
    (h : names.foldlM takeFile arguments = .ok later) :
    names.foldlM takeFile arguments.mute = .ok later.mute := by
  induction names generalizing arguments with
  | nil => exact congrArg (Except.map mute) h
  | cons name names ih =>
    obtain ⟨next, hname, hlater⟩ := exists_of_bind h
    rw [List.foldlM_cons, takeFile_mute, hname]
    exact ih hlater

/-- Without the options for verbosity valid arguments describe the same session. -/
theorem take_withoutVerbosity {arguments later : Arguments} {texts : List String}
    (h : arguments.take texts = .ok later) :
    arguments.mute.take (withoutVerbosity texts) = .ok later.mute := by
  fun_induction take arguments texts generalizing later with
  | case1 arguments =>
    obtain rfl := Except.ok.inj h
    rfl
  | case2 arguments text texts name hform ih =>
    obtain ⟨next, hnext, hlater⟩ := exists_of_bind h
    rw [withoutVerbosity.eq_def]
    simp only [hform]
    rw [take.eq_def]
    simp only [hform]
    rw [takeFile_mute, hnext]
    exact ih next hlater
  | case3 arguments text texts hform =>
    rw [withoutVerbosity.eq_def]
    simp only [hform]
    rw [take.eq_def]
    simp only [hform]
    exact foldlM_takeFile_mute h
  | case4 arguments text texts flags hform ih =>
    obtain ⟨next, hnext, hlater⟩ := exists_of_bind h
    obtain ⟨hmute, hdash⟩ := foldlM_takeFlag_mute hnext
    rw [withoutVerbosity.eq_def]
    simp only [hform]
    split
    · next hfilter =>
      rw [hfilter] at hmute
      rw [Except.ok.inj hmute]
      exact ih next hlater
    · next hfilter =>
      cases hothers : flags.filter (· ≠ 'v') with
      | nil => exact absurd hothers hfilter
      | cons flag others =>
        rw [hothers] at hmute
        have hflag : flag ≠ '-' := by
          rintro rfl
          exact hdash (List.mem_of_mem_filter (hothers ▸ List.mem_cons_self))
        rw [take.eq_def]
        simp only [Argument.ofText_short hflag]
        rw [hmute]
        exact ih next hlater
  | case5 => nomatch h
  | case6 arguments text hform value texts hvalue ih =>
    obtain ⟨next, hnext, hlater⟩ := exists_of_bind h
    have hverbose : "prompt" ≠ "verbose" := by decide
    rw [withoutVerbosity.eq_def]
    simp only [hform, if_neg hverbose, if_true]
    rw [take.eq_def]
    simp only [hform, hvalue, if_true]
    rw [takePrompt_mute, hnext]
    exact ih next hlater
  | case7 => nomatch h
  | case8 arguments text texts name hprompt hform ih =>
    obtain ⟨next, hnext, hlater⟩ := exists_of_bind h
    rw [withoutVerbosity.eq_def]
    by_cases hverbose : name = "verbose"
    · simp only [hform, hverbose, if_true]
      obtain rfl := hverbose
      obtain rfl : arguments.takeVerbose = next := Except.ok.inj hnext
      exact ih arguments.takeVerbose hlater
    · simp only [hform, if_neg hverbose, if_neg hprompt]
      rw [take.eq_def]
      simp only [hform]
      rw [takeLong_mute arguments hverbose, hnext]
      exact ih next hlater
  | case9 arguments text texts name value hform ih =>
    obtain ⟨next, hnext, hlater⟩ := exists_of_bind h
    rw [withoutVerbosity.eq_def]
    simp only [hform]
    rw [take.eq_def]
    simp only [hform]
    rw [takeLongValue_mute, hnext]
    exact ih next hlater

end Arguments

section

variable {opened : String → Except String Source} {texts texts' : List String}
  {arguments arguments' : Arguments} {path : String}

theorem execute_input (input : List UInt8) (h : Arguments.ofTexts texts = .ok arguments)
    (hfile : arguments.file = none) :
    execute opened input texts = executeSession arguments (repliesOfBytes input) := by
  simp only [execute, h, hfile]

theorem execute_file {source : Source} (input : List UInt8)
    (h : Arguments.ofTexts texts = .ok arguments) (hfile : arguments.file = some path)
    (hopened : opened path = .ok source) :
    execute opened input texts = executeSession arguments source.replies := by
  simp only [execute, h, hfile, hopened]

theorem execute_failure {reason : String} (input : List UInt8)
    (h : Arguments.ofTexts texts = .ok arguments) (hfile : arguments.file = some path)
    (hopened : opened path = .error reason) :
    execute opened input texts = ⟨1, "", openFailure path reason⟩ := by
  simp only [execute, h, hfile, hopened]

/-- Verbosity has no part in the code and in the output. -/
theorem executeSession_of_mute_eq (h : arguments'.mute = arguments.mute) (replies : List Reply) :
    (executeSession arguments' replies).code = (executeSession arguments replies).code ∧
      (executeSession arguments' replies).output = (executeSession arguments replies).output := by
  have hsettings : arguments'.settings = arguments.settings := by
    rw [← arguments'.settings_mute, h, arguments.settings_mute]
  rw [code_executeSession, code_executeSession, output_executeSession, output_executeSession,
    hsettings]
  exact ⟨rfl, rfl⟩

theorem execute_of_mute_eq (input : List UInt8)
    (h : Arguments.ofTexts texts = .ok arguments) (h' : Arguments.ofTexts texts' = .ok arguments')
    (hmute : arguments'.mute = arguments.mute) :
    (execute opened input texts').code = (execute opened input texts).code ∧
      (execute opened input texts').output = (execute opened input texts).output := by
  have hfile : arguments'.file = arguments.file := by
    rw [← arguments'.file_mute, hmute, arguments.file_mute]
  have hsession := executeSession_of_mute_eq hmute
  cases hnamed : arguments.file with
  | none =>
    rw [execute_input input h hnamed, execute_input input h' (hfile.trans hnamed)]
    exact hsession _
  | some path =>
    cases hopened : opened path with
    | ok source =>
      rw [execute_file input h hnamed hopened,
        execute_file input h' (hfile.trans hnamed) hopened]
      exact hsession _
    | error reason =>
      rw [execute_failure input h hnamed hopened,
        execute_failure input h' (hfile.trans hnamed) hopened]
      exact ⟨rfl, rfl⟩

end

/-- However paths are opened, a command line with valid arguments shows the session that they
describe, over the lines of the standard input if they name no file, and over what their file opens
to, whatever the standard input, if they name one. If the file cannot be opened, there is no output
and the code is 1. The code and the output are the same however often the arguments ask for more
verbosity. -/
theorem execute_shows_session (opened : String → Except String Source) (input : List UInt8)
    {texts : List String} {arguments : Arguments}
    (hvalid : Arguments.ofTexts texts = .ok arguments) :
    let execution := execute opened input texts
    let settings : Settings :=
      { prompt := if arguments.quiet then "" else arguments.prompt.getD ">> "
        farewell := "Bye"
        target := "it" }
    (arguments.file = none → execution.Shows settings (repliesOfBytes input)) ∧
    (∀ path, arguments.file = some path →
      (∀ source, opened path = .ok source → execution.Shows settings source.replies) ∧
      ∀ reason, opened path = .error reason → execution.code = 1 ∧ execution.output = "") ∧
    ∀ texts' arguments', Arguments.ofTexts texts' = .ok arguments' →
      Arguments.withoutVerbosity texts' = Arguments.withoutVerbosity texts →
      (execute opened input texts').code = execution.code ∧
        (execute opened input texts').output = execution.output := by
  intro execution settings
  have hsettings : arguments.settings = settings := by
    rw [Arguments.settings]
    dsimp only [settings]
    split <;> rfl
  have hshows := executeSession_shows arguments
  rw [hsettings] at hshows
  refine ⟨fun hfile => ?_, fun path hfile => ⟨fun source hopened => ?_, fun reason hopened => ?_⟩,
    fun texts' arguments' hvalid' hverbosity => ?_⟩
  · rw [show execution = _ from execute_input input hvalid hfile]
    exact hshows _
  · rw [show execution = _ from execute_file input hvalid hfile hopened]
    exact hshows _
  · rw [show execution = _ from execute_failure input hvalid hfile hopened]
    exact ⟨rfl, rfl⟩
  · have hmute := Arguments.take_withoutVerbosity hvalid
    have hmute' := Arguments.take_withoutVerbosity hvalid'
    rw [hverbosity] at hmute'
    exact execute_of_mute_eq input hvalid hvalid' (Except.ok.inj (hmute'.symm.trans hmute))

/-- A file that is read quietly with the standard input left alone, however talkative. -/
theorem execute_shows_session_of_file :
    let folder : Folder := [("f", .file "1 2 + @\nexit @ 4".toUTF8.toList)]
    let execute := execute folder "9 @".toUTF8.toList
    let execution := execute ["-qvv", "f", "--verbose"]
    execution.code = 0 ∧ execution.output = "3\n\nBye\n" ∧
      (execute ["-q", "f"]).output = execution.output := by
  intro folder execute execution
  obtain ⟨-, hnamed, hverbosity⟩ := execute_shows_session folder.opened "9 @".toUTF8.toList
    (show Arguments.ofTexts ["-qvv", "f", "--verbose"] =
      .ok { quiet := true, verbosity := 3, file := some "f" } by decide +kernel)
  have hopened : folder.opened "f" = .ok { bytes := "1 2 + @\nexit @ 4".toUTF8.toList } := by
    have hnames : "f".splitOn "/" = ["f"] := by
      rw [String.splitOn, String.splitOnAux, String.splitOnAux]
      decide
    rw [Folder.opened, Folder.resolve, hnames]
    rfl
  have hshows := (hnamed "f" rfl).1 _ hopened
  rw [Source.replies_ending] at hshows
  have houtput := hshows.output Paper Paper.keeps_written {} []
  refine ⟨(hshows.code Paper {} []).trans (by decide +kernel),
    (houtput.trans String.empty_append).symm.trans (by decide +kernel), ?_⟩
  exact (hverbosity ["-q", "f"] { quiet := true, file := some "f" } (by decide +kernel)
    (by decide +kernel)).2

end CommandLine

end ReversePolish
