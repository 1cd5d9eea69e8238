import ReversePolish.Calculator
import ReversePolish.CommandLine.Folder
import ReversePolish.CommandLine.Usage

/-!
# Executing a command line

The arguments decide where the lines come from and how the session presents itself. What the session
writes is the output; the journal, shown at the level asked for, and the reason of a failure are the
diagnostics.
-/

namespace ReversePolish.CommandLine

structure Execution where
  code : Nat
  output : String := ""
  diagnostics : String := ""
  deriving DecidableEq

def session (settings : Settings) (replies : List Reply) :
    Except String Ending × Calculator Paper :=
  (Calculator.start settings { replies, sink := {} }).run

/-- The journal of a calculator as text, the events that a level shows. -/
def journalText {σ : Type} (level : Level) (calculator : Calculator σ) : String :=
  String.join ((level.shown calculator.reader.channel.journal.reverse).map Event.line)

def executeSession (arguments : Arguments) (replies : List Reply) : Execution :=
  let (ended, calculator) := session arguments.settings replies
  let output := calculator.reader.channel.sink.written
  let journal := journalText arguments.level calculator
  match ended with
  | .ok _ => ⟨0, output, journal⟩
  | .error reason => ⟨1, output, journal ++ sessionFailure reason⟩

/-- Executes a command line where paths are opened in some way, with some bytes as the standard
input. -/
def execute (opened : String → Except String Source) (input : List UInt8) (texts : List String) :
    Execution :=
  match Arguments.ofTexts texts with
  | .error .help => ⟨0, helpText, ""⟩
  | .error .version => ⟨0, versionText, ""⟩
  | .error (.misuse misuse) => ⟨2, "", misuse.text⟩
  | .ok arguments =>
    match arguments.file with
    | none => executeSession arguments (repliesOfBytes input)
    | some path =>
      match opened path with
      | .ok source => executeSession arguments source.replies
      | .error reason => ⟨1, "", openFailure path reason⟩

end ReversePolish.CommandLine
