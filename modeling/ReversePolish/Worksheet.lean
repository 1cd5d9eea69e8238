import ReversePolish.Expression
import ReversePolish.Journal
import ReversePolish.Line
import ReversePolish.Memory
import ReversePolish.Settings

/-!
# Worksheets

A worksheet is what a session carries from one line to the next: its memory and the expression that
is still open. Taking a line tells all that the line brings about, in order. No channel is involved,
so lines can come from anywhere, one at a time.
-/

namespace ReversePolish

inductive Deed where
  /-- Lines for the reader of the results. -/
  | say (lines : List String)
  /-- An event for the journal. -/
  | note (event : Event)
  deriving DecidableEq

/-- What is open between two lines. -/
structure Worksheet where
  memory : Memory
  progress : Progress := .fresh
  operands : Operands := {}
  deriving DecidableEq

namespace Worksheet

def start (settings : Settings) : Worksheet := { memory := { target := settings.target } }

/-- All that the rest of a line brings about, and the worksheet after it unless the session has
ended. A rejected expression takes the rest of the line with it. -/
def takeRest (sheet : Worksheet) (line : Line) : List Deed × Option Worksheet :=
  match _h : line.next? with
  | none => ([], some sheet)
  | some (token, line) =>
    let (deeds, last) := match sheet.progress.step sheet.memory.get sheet.operands token with
      | .more progress operands => takeRest { sheet with progress, operands } line
      | .retarget name operands =>
        let (deeds, last) := takeRest ⟨sheet.memory.retarget name, .assigned name, operands⟩ line
        (.note (.retargeted name) :: deeds, last)
      | .ignore operands =>
        let (deeds, last) := takeRest { sheet with progress := .body, operands } line
        (.note .assignIgnored :: deeds, last)
      | .value value _ =>
        let (deeds, last) := takeRest { memory := sheet.memory.store value } line
        (.note (.evaluated sheet.memory.target value) :: .say [value.write .result] :: deeds, last)
      | .reject rejection =>
        ([.note (.rejected rejection line.position),
          .say (rejection.report line.text line.position ++ ["no value"])],
         some { memory := sheet.memory })
      | .exit => ([], none)
    (.note (.scanned token) :: deeds, last)
termination_by line.rest.length
decreasing_by all_goals exact Line.rest_length_of_next? _h

def take (sheet : Worksheet) (text : String) : List Deed × Option Worksheet :=
  sheet.takeRest (.load text)

end Worksheet

end ReversePolish
