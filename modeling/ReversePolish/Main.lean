import ReversePolish.CommandLine.Folder
import ReversePolish.CommandLine.Usage
import ReversePolish.Text.Lines
import ReversePolish.Worksheet

/-!
# The program

The calculator at a terminal. Lines are read one at a time and their deeds carried out before the
next one is asked for.
-/

namespace ReversePolish.CommandLine

/-- The bytes of the next line with its newline; none at the end of the stream. -/
partial def readBytes (stream : IO.FS.Stream) (bytes : ByteArray) : IO (List UInt8) := do
  let byte ← stream.read 1
  if byte.isEmpty then return bytes.toList
  if byte.toList = [newlineByte] then return (bytes ++ byte).toList
  readBytes stream (bytes ++ byte)

def noteEvent (level : Level) (event : Event) : IO Unit :=
  (level.shown [event]).forM fun shown => IO.eprint shown.line

def carryOut (level : Level) : Deed → IO Unit
  | .say lines => lines.forM IO.println
  | .note event => noteEvent level event

partial def converse (stream : IO.FS.Stream) (settings : Settings) (level : Level)
    (sheet : Worksheet) : IO Ending := do
  IO.print settings.prompt
  (← IO.getStdout).flush
  match nextLine? (← readBytes stream .empty) with
  | none => return .endOfInput
  | some (text, _) =>
    let (deeds, last) := sheet.take text
    deeds.forM (carryOut level)
    match last with
    | none => return .exit
    | some sheet => converse stream settings level sheet

def reason : IO.Error → String
  | .noFileOrDirectory .. => OpenFailure.notFound.message
  | error@(.inappropriateType _ code _) =>
    if code = 20 then OpenFailure.notAFolder.message
    else if code = 21 then readFolderFailure
    else toString error
  | error => toString error

def runSession (stream : IO.FS.Stream) (settings : Settings) (level : Level) : IO UInt32 := do
  try
    noteEvent level .started
    let how ← converse stream settings level (.start settings)
    noteEvent level (.ended how)
    IO.println ("\n" ++ settings.farewell)
    (← IO.getStdout).flush
    return 0
  catch error =>
    IO.eprint (sessionFailure (reason error))
    return 1

def openInput : Option String → IO IO.FS.Stream
  | none => IO.getStdin
  | some path => return .ofHandle (← IO.FS.Handle.mk path .read)

end ReversePolish.CommandLine

open ReversePolish.CommandLine in
def main (texts : List String) : IO UInt32 := do
  match Arguments.ofTexts texts with
  | .error .help => IO.print helpText; return 0
  | .error .version => IO.print versionText; return 0
  | .error (.misuse misuse) => IO.eprint misuse.text; return 2
  | .ok arguments =>
    try runSession (← openInput arguments.file) arguments.settings arguments.level
    catch error =>
      IO.eprint (openFailure (arguments.file.getD "") (reason error))
      return 1
