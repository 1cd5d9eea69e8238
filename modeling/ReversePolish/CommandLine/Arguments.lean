import ReversePolish.Journal
import ReversePolish.Settings

/-!
# Command-line arguments

Arguments are taken from left to right. The requests for help and for the version act at once, so
that only what stands before them can be refused.
-/

namespace ReversePolish.CommandLine

inductive Misuse where
  | unknownOption (text : String)
  | unexpectedValue (text : String)
  | missingValue
  | repeated (name : String)
  | emptyFile
  | secondFile (name : String)
  deriving DecidableEq

inductive Interruption where
  | help
  | version
  | misuse (cause : Misuse)
  deriving DecidableEq

structure Arguments where
  quiet : Bool := false
  prompt : Option String := none
  verbosity : Nat := 0
  file : Option String := none
  deriving DecidableEq

inductive Argument where
  | file (name : String)
  | divider
  | long (name : String) (value : Option String)
  | short (flags : List Char)
  deriving DecidableEq

/-- The form of an argument. A lone dash is a file name. -/
def Argument.ofText (text : String) : Argument :=
  match text.toList with
  | ['-', '-'] => divider
  | '-' :: '-' :: option =>
    let name := String.ofList (option.takeWhile (· ≠ '='))
    match option.dropWhile (· ≠ '=') with
    | [] => long name none
    | _ :: value => long name (some (String.ofList value))
  | '-' :: flag :: flags => short (flag :: flags)
  | _ => file text

def mayBeValue (text : String) : Bool :=
  match text.toList with
  | '-' :: _ :: _ => false
  | _ => true

namespace Arguments

def takeQuiet (arguments : Arguments) : Except Interruption Arguments :=
  if arguments.quiet then .error (.misuse (.repeated "--quiet"))
  else .ok { arguments with quiet := true }

/-- One repetition more of the verbosity option. The count stops at 255. -/
def takeVerbose (arguments : Arguments) : Arguments :=
  { arguments with verbosity := min (arguments.verbosity + 1) 255 }

def takePrompt (arguments : Arguments) (value : String) : Except Interruption Arguments :=
  if arguments.prompt.isSome then .error (.misuse (.repeated "--prompt"))
  else .ok { arguments with prompt := some value }

def takeFile (arguments : Arguments) (name : String) : Except Interruption Arguments :=
  if arguments.file.isSome then .error (.misuse (.secondFile name))
  else if name = "" then .error (.misuse .emptyFile)
  else .ok { arguments with file := some name }

def takeFlag (arguments : Arguments) (flag : Char) : Except Interruption Arguments :=
  match flag with
  | 'q' => arguments.takeQuiet
  | 'v' => .ok arguments.takeVerbose
  | 'h' => .error .help
  | 'V' => .error .version
  | _ => .error (.misuse (.unknownOption (String.ofList ['-', flag])))

def takeLong (arguments : Arguments) (name : String) : Except Interruption Arguments :=
  match name with
  | "quiet" => arguments.takeQuiet
  | "verbose" => .ok arguments.takeVerbose
  | "help" => .error .help
  | "version" => .error .version
  | _ => .error (.misuse (.unknownOption ("--" ++ name)))

def takeLongValue (arguments : Arguments) (name value : String) : Except Interruption Arguments :=
  match name with
  | "prompt" => arguments.takePrompt value
  | "quiet" | "verbose" | "help" | "version" => .error (.misuse (.unexpectedValue ("--" ++ name)))
  | _ => .error (.misuse (.unknownOption ("--" ++ name)))

/-- Takes the arguments in order. The prompt takes the next one as its value; after a divider all
are file names. -/
def take (arguments : Arguments) : List String → Except Interruption Arguments
  | [] => .ok arguments
  | text :: texts =>
    match Argument.ofText text with
    | .file name => do (← arguments.takeFile name).take texts
    | .divider => texts.foldlM takeFile arguments
    | .short flags => do (← flags.foldlM takeFlag arguments).take texts
    | .long "prompt" none =>
      match texts with
      | [] => .error (.misuse .missingValue)
      | value :: texts =>
        if mayBeValue value then do (← arguments.takePrompt value).take texts
        else .error (.misuse .missingValue)
    | .long name none => do (← arguments.takeLong name).take texts
    | .long name (some value) => do (← arguments.takeLongValue name value).take texts

def ofTexts (texts : List String) : Except Interruption Arguments := take {} texts

/-- The settings of the session; without a prompt if it is to be quiet. -/
def settings (arguments : Arguments) : Settings :=
  let given : Settings := { prompt := arguments.prompt.getD ({} : Settings).prompt }
  if arguments.quiet then given.quiet else given

def level (arguments : Arguments) : Level := .ofVerbosity arguments.verbosity

end Arguments

end ReversePolish.CommandLine
