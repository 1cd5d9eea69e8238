/-!
# Settings

How a session presents itself, and the variable that results go to before any assignment.
-/

namespace ReversePolish

structure Settings where
  prompt : String := ">> "
  farewell : String := "Bye"
  target : String := "it"
  deriving DecidableEq

def Settings.quiet (settings : Settings) : Settings := { settings with prompt := "" }

end ReversePolish
