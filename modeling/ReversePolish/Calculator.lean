import ReversePolish.Expression
import ReversePolish.Memory
import ReversePolish.Reader
import ReversePolish.Settings

/-!
# The calculator

A calculator evaluates one expression after the other and keeps the variables between them. A
rejected expression is reported with the line it was found on, and the rest of that line is left
unread. Running the calculator writes one line for every outcome and a farewell at the end.
-/

namespace ReversePolish

inductive Outcome where
  | value (value : Binary64)
  | rejected (rejection : Rejection)
  deriving DecidableEq

def Outcome.line : Outcome → String
  | .value v => v.write .result
  | .rejected _ => "no value"

/-- A reader of tokens with a memory, and with the operands of the latest expression. -/
structure Calculator (σ : Type) where
  reader : Reader σ
  memory : Memory
  farewell : String
  operands : Operands := {}

namespace Calculator

variable {σ : Type}

def start (settings : Settings) (channel : Channel σ) : Calculator σ :=
  { reader := { channel, prompt := settings.prompt }
    memory := { target := settings.target }
    farewell := settings.farewell }

def note (calculator : Calculator σ) (event : Event) : Calculator σ :=
  { calculator with reader := calculator.reader.note event }

def retarget (calculator : Calculator σ) (name : String) : Calculator σ :=
  { calculator with memory := calculator.memory.retarget name }.note (.retargeted name)

def store (calculator : Calculator σ) (value : Binary64) : Calculator σ :=
  { calculator with memory := calculator.memory.store value }.note
    (.evaluated calculator.memory.target value)

def clear (calculator : Calculator σ) : Calculator σ :=
  { calculator with operands := calculator.operands.clear }

def unread (calculator : Calculator σ) : Nat := calculator.reader.unread

@[simp] theorem unread_note (calculator : Calculator σ) (event : Event) :
    (calculator.note event).unread = calculator.unread := rfl

@[simp] theorem unread_retarget (calculator : Calculator σ) (name : String) :
    (calculator.retarget name).unread = calculator.unread := rfl

@[simp] theorem unread_store (calculator : Calculator σ) (value : Binary64) :
    (calculator.store value).unread = calculator.unread := rfl

@[simp] theorem unread_clear (calculator : Calculator σ) :
    calculator.clear.unread = calculator.unread := rfl

variable [Sink σ]

/-- Gives up the operands and reports a rejection at the place where reading has arrived. The rest
of the line is given up only once the whole report has been written. -/
def reject (calculator : Calculator σ) (rejection : Rejection) :
    Except Stop Outcome × Calculator σ :=
  let reader := calculator.reader.note (.rejected rejection calculator.reader.line.position)
  let operands := calculator.operands.clear
  match reader.channel.writeLines (rejection.report reader.line.text reader.line.position) with
  | (.ok (), channel) =>
    (.ok (.rejected rejection),
      { calculator with reader := { reader with channel }.skipLine, operands })
  | (.error message, channel) =>
    (.error (.failed message), { calculator with reader := { reader with channel }, operands })

theorem unread_reject (calculator : Calculator σ) (rejection : Rejection) :
    (calculator.reject rejection).2.unread ≤ calculator.unread := by
  have hreplies := (calculator.reader.channel.note
    (.rejected rejection calculator.reader.line.position)).replies_writeLines
    (rejection.report calculator.reader.line.text calculator.reader.line.position)
  simp only [reject, Reader.note]
  split <;> next h => simp_all [unread, Reader.unread, Reader.skipLine]

def advance (calculator : Calculator σ) (progress : Progress) :
    Except Stop Outcome × Calculator σ :=
  match _h : calculator.reader.next with
  | (.error stop, reader) => (.error stop, { calculator with reader })
  | (.ok token, reader) =>
    match progress.step calculator.memory.get calculator.operands token with
    | .more progress operands => advance { calculator with reader, operands } progress
    | .retarget name operands =>
      advance ({ calculator with reader, operands }.retarget name) (.assigned name)
    | .ignore operands => advance ({ calculator with reader, operands }.note .assignIgnored) .body
    | .value value operands =>
      (.ok (.value value), { calculator with reader, operands }.store value)
    | .reject rejection => { calculator with reader }.reject rejection
    | .exit => (.error (.ended .exit), { calculator with reader })
termination_by calculator.unread
decreasing_by
  all_goals
    have hnext := Reader.unread_of_next _h
    exact hnext

theorem advance_of_token {calculator : Calculator σ} {progress : Progress} {token : Token}
    {reader : Reader σ} (h : calculator.reader.next = (.ok token, reader)) :
    calculator.advance progress =
      match progress.step calculator.memory.get calculator.operands token with
      | .more progress operands => { calculator with reader, operands }.advance progress
      | .retarget name operands =>
        ({ calculator with reader, operands }.retarget name).advance (.assigned name)
      | .ignore operands => ({ calculator with reader, operands }.note .assignIgnored).advance .body
      | .value value operands =>
        (.ok (.value value), { calculator with reader, operands }.store value)
      | .reject rejection => { calculator with reader }.reject rejection
      | .exit => (.error (.ended .exit), { calculator with reader }) := by
  rw [advance]
  split
  · next h' =>
    rw [h] at h'
    simp at h'
  · next h' =>
    rw [h] at h'
    obtain ⟨htoken, rfl⟩ := Prod.mk.inj h'
    obtain rfl := Except.ok.inj htoken
    rfl

theorem advance_of_stop {calculator : Calculator σ} {progress : Progress} {stop : Stop}
    {reader : Reader σ} (h : calculator.reader.next = (.error stop, reader)) :
    calculator.advance progress = (.error stop, { calculator with reader }) := by
  rw [advance]
  split
  · next h' =>
    rw [h] at h'
    obtain ⟨hstop, rfl⟩ := Prod.mk.inj h'
    rw [Except.error.inj hstop]
  · next h' =>
    rw [h] at h'
    simp at h'

/-- Evaluates the next expression. Nothing that is left of an earlier one counts. -/
def evaluate (calculator : Calculator σ) : Except Stop Outcome × Calculator σ :=
  calculator.clear.advance .fresh

theorem unread_of_advance {calculator calculator' : Calculator σ} {progress : Progress}
    {outcome : Outcome} (h : calculator.advance progress = (.ok outcome, calculator')) :
    calculator'.unread < calculator.unread := by
  fun_induction advance calculator progress with
  | case1 => simp at h
  | case2 calculator progress token reader hnext _ _ _ ih =>
    exact Nat.lt_trans (ih h) (Reader.unread_of_next hnext)
  | case3 calculator progress token reader hnext _ _ _ ih =>
    have hlt := Reader.unread_of_next hnext
    exact Nat.lt_trans (ih h) hlt
  | case4 calculator progress token reader hnext _ _ ih =>
    have hlt := Reader.unread_of_next hnext
    exact Nat.lt_trans (ih h) hlt
  | case5 calculator progress token reader hnext =>
    have hlt := Reader.unread_of_next hnext
    obtain ⟨-, rfl⟩ := Prod.mk.inj h
    exact hlt
  | case6 calculator progress token reader hnext rejection =>
    have hreject := unread_reject { calculator with reader } rejection
    rw [h] at hreject
    exact Nat.lt_of_le_of_lt hreject (Reader.unread_of_next hnext)
  | case7 => simp at h

theorem unread_of_evaluate {calculator calculator' : Calculator σ} {outcome : Outcome}
    (h : calculator.evaluate = (.ok outcome, calculator')) :
    calculator'.unread < calculator.unread := by
  rw [← unread_clear calculator]
  exact unread_of_advance h

/-- Operands that are left over make no difference. -/
theorem evaluate_with_operands (calculator : Calculator σ) (operands : Operands) :
    { calculator with operands }.evaluate = calculator.evaluate := rfl

def drain (calculator : Calculator σ) : List Outcome × Stop × Calculator σ :=
  match _h : calculator.evaluate with
  | (.ok outcome, calculator) =>
    let (outcomes, stop, calculator) := drain calculator
    (outcome :: outcomes, stop, calculator)
  | (.error stop, calculator) => ([], stop, calculator)
termination_by calculator.unread
decreasing_by exact unread_of_evaluate _h

def say (calculator : Calculator σ) (text : String) : Except String Unit × Calculator σ :=
  let (outcome, channel) := calculator.reader.channel.writeLine text
  (outcome, { calculator with reader := { calculator.reader with channel } })

def flush (calculator : Calculator σ) : Except String Unit × Calculator σ :=
  let (outcome, channel) := calculator.reader.channel.flush
  (outcome, { calculator with reader := { calculator.reader with channel } })

@[simp] theorem unread_say (calculator : Calculator σ) (text : String) :
    (calculator.say text).2.unread = calculator.unread := rfl

def close (calculator : Calculator σ) (how : Ending) : Except String Ending × Calculator σ :=
  match (calculator.note (.ended how)).say ("\n" ++ calculator.farewell) with
  | (.error message, calculator) => (.error message, calculator)
  | (.ok (), calculator) =>
    match calculator.flush with
    | (.error message, calculator) => (.error message, calculator)
    | (.ok (), calculator) => (.ok how, calculator)

/-- Evaluates and writes the outcomes until the session ends or breaks off. -/
def converse (calculator : Calculator σ) : Except String Ending × Calculator σ :=
  match _h : calculator.evaluate with
  | (.error (.ended how), calculator) => calculator.close how
  | (.error (.failed message), calculator) => (.error message, calculator)
  | (.ok outcome, evaluated) =>
    match _hsay : evaluated.say outcome.line with
    | (.error message, calculator) => (.error message, calculator)
    | (.ok (), calculator) => converse calculator
termination_by calculator.unread
decreasing_by
  have hsay := unread_say evaluated outcome.line
  rw [_hsay] at hsay
  exact hsay ▸ unread_of_evaluate _h

def run (calculator : Calculator σ) : Except String Ending × Calculator σ :=
  (calculator.note .started).converse

end Calculator

end ReversePolish
