/-!
# Endings

A session comes to an end by the word `exit` or when the input ends. It breaks off when reading or
writing fails.
-/

namespace ReversePolish

inductive Ending where
  | exit
  | endOfInput
  deriving DecidableEq

def Ending.name : Ending → String
  | exit => "Exit"
  | endOfInput => "EndOfInput"

/-- What keeps the next expression from being read. -/
inductive Stop where
  | ended (how : Ending)
  | failed (message : String)
  deriving DecidableEq

def Stop.message : Stop → String
  | ended .exit => "exit requested"
  | ended .endOfInput => "end of input"
  | failed message => "terminal I/O failed: " ++ message

end ReversePolish
