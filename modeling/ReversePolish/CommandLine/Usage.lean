import ReversePolish.CommandLine.Arguments

/-!
# Usage

What the program says about itself and about arguments that it refuses.
-/

namespace ReversePolish.CommandLine

def versionText : String := "deskcalc 0.1.0\n"

def usageLine : String := "Usage: deskcalc [OPTIONS] [FILE]\n"

def helpText : String :=
  "An interactive reverse Polish desk calculator with named variables\n\n" ++ usageLine ++
  "\nArguments:\n" ++
  "  [FILE]  Reads expressions from this file instead of standard input\n" ++
  "\nOptions:\n" ++
  "  -q, --quiet            Suppresses the prompt, for piped input\n" ++
  "      --prompt <PROMPT>  Text printed before each input line [default: \">> \"]\n" ++
  "  -v, --verbose...       Logs more to stderr; repeat for more detail\n" ++
  "  -h, --help             Print help\n" ++
  "  -V, --version          Print version\n"

def Misuse.message : Misuse → String
  | unknownOption text => "unexpected argument '" ++ text ++ "' found"
  | unexpectedValue text => "unexpected value for '" ++ text ++ "' found"
  | missingValue => "a value is required for '--prompt <PROMPT>' but none was supplied"
  | repeated name => "the argument '" ++ name ++ "' cannot be used multiple times"
  | emptyFile => "a value is required for '[FILE]' but none was supplied"
  | secondFile name => "unexpected argument '" ++ name ++ "' found"

def Misuse.text (misuse : Misuse) : String :=
  "error: " ++ misuse.message ++ "\n\n" ++ usageLine

def openFailure (path reason : String) : String :=
  "Failed to open '" ++ path ++ "': " ++ reason ++ "\n"

def sessionFailure (reason : String) : String := "deskcalc: " ++ reason ++ "\n"

end ReversePolish.CommandLine
