import ReversePolish.Decimal.Layout
import ReversePolish.Ending
import ReversePolish.Rejection
import ReversePolish.Token

/-!
# The journal

A session notes what happens to it. Each event has a level, and a journal shown at a level leaves
out the events of more talkative ones.
-/

namespace ReversePolish

inductive Level where
  | error
  | warn
  | info
  | debug
  | trace
  deriving DecidableEq

namespace Level

def rank : Level → Nat
  | error => 0
  | warn => 1
  | info => 2
  | debug => 3
  | trace => 4

/-- The level asked for by so many repetitions of the verbosity option. -/
def ofVerbosity : Nat → Level
  | 0 => warn
  | 1 => info
  | 2 => debug
  | _ => trace

def name : Level → String
  | error => "Error"
  | warn => "Warn"
  | info => "Info"
  | debug => "Debug"
  | trace => "Trace"

def heading : Level → String
  | error => "ERROR"
  | warn => "WARN"
  | info => "INFO"
  | debug => "DEBUG"
  | trace => "TRACE"

end Level

inductive Event where
  | started
  | scanned (token : Token)
  | retargeted (name : String)
  | assignIgnored
  | evaluated (target : String) (value : Binary64)
  | rejected (rejection : Rejection) (position : Nat)
  | ended (how : Ending)
  deriving DecidableEq

namespace Event

def level : Event → Level
  | started | ended _ => .info
  | scanned _ => .trace
  | retargeted _ | assignIgnored | evaluated .. | rejected .. => .debug

def message : Event → String
  | started => "session started"
  | scanned token => "scanned token kind=" ++ token.kind.name ++ " text=" ++ token.text
  | retargeted name => "assignment target changed name=" ++ name
  | assignIgnored => "ignoring '=' inside an expression"
  | evaluated target value =>
    "line evaluated variable=" ++ target ++ " value=" ++ value.write .journal
  | rejected rejection position =>
    "line rejected error=" ++ rejection.message ++ " position=" ++ toString position
  | ended how => "session ended termination=" ++ how.name

/-- The line of the journal for an event, its level set flush right in five columns. -/
def line (event : Event) : String :=
  let heading := event.level.heading
  String.ofList (List.replicate (5 - heading.length) ' ') ++ heading ++ " " ++ event.message ++ "\n"

end Event

def Level.shown (level : Level) (events : List Event) : List Event :=
  events.filter (·.level.rank ≤ level.rank)

end ReversePolish
