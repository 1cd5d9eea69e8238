import ReversePolish.Decimal.Literal
import ReversePolish.Operands

/-!
# Expressions

An expression is read token by token. Its progress says how far it has come, and a step says what
one more token makes of it and of the operands. A leading name may be the target of an assignment;
everything else works on the operands, and the end mark asks for the single value left.
-/

namespace ReversePolish

/-- What has been read of an expression. -/
inductive Progress where
  /-- Nothing. -/
  | fresh
  /-- A leading name, whose value is the operand there is. -/
  | named (name : String)
  /-- A leading name and an equals sign. -/
  | assigned (name : String)
  /-- Any more. -/
  | body
  deriving DecidableEq

inductive Verdict where
  /-- It goes on. -/
  | more (progress : Progress) (operands : Operands)
  /-- It is an assignment, and goes on with the value to be assigned. -/
  | retarget (name : String) (operands : Operands)
  /-- It goes on with the operands that it has; the token is an equals sign without effect. -/
  | ignore (operands : Operands)
  /-- It is complete. -/
  | value (value : Binary64) (operands : Operands)
  /-- It is refused. -/
  | reject (rejection : Rejection)
  /-- It is the word that ends the session. -/
  | exit
  deriving DecidableEq

/-- Whether a name is the word that ends the session, in any letter case. -/
def isExitWord (name : String) : Bool :=
  name.toList.map Char.toLower = ['e', 'x', 'i', 't']

def Token.IsExit (token : Token) : Prop := token.kind = .identifier ∧ isExitWord token.text

namespace Verdict

/-- An expression goes on with its operands, unless an operation on them was refused. -/
def ofOperands : Except Rejection Operands → Verdict
  | .ok operands => more .body operands
  | .error rejection => reject rejection

/-- An expression is complete, unless it did not leave a single value. -/
def ofResult : Except Rejection (Binary64 × Operands) → Verdict
  | .ok (result, operands) => value result operands
  | .error rejection => reject rejection

end Verdict

def numberValue (text : String) : Except Rejection Binary64 :=
  match Binary64.read? text with
  | some value => .ok value
  | none => .error (.unreadable text)

theorem numberValue_of_read? {text : String} {value : Binary64}
    (h : Binary64.read? text = some value) : numberValue text = .ok value := by
  rw [numberValue, h]

namespace Progress

variable (valueOf : String → Binary64)

/-- The step of a token on operands, `valueOf` giving the values of variables. -/
def operate (operands : Operands) (token : Token) : Verdict :=
  match token.kind with
  | .number => .ofOperands ((numberValue token.text).map operands.push)
  | .identifier => .ofOperands (.ok (operands.push (valueOf token.text)))
  | .negate => .ofOperands operands.negate
  | .operator op => .ofOperands (operands.apply op)
  | .endMark => .ofResult operands.result
  | .invalid => .reject (.unreadable token.text)
  | .assign => .ignore operands

def step (progress : Progress) (operands : Operands) (token : Token) : Verdict :=
  match progress with
  | fresh =>
    if token.kind = .identifier then
      if isExitWord token.text then .exit
      else .more (named token.text) (operands.push (valueOf token.text))
    else operate valueOf operands token
  | named name =>
    match token.kind with
    | .assign =>
      match operands.pop with
      | .ok (_, operands) => .retarget name operands
      | .error rejection => .reject rejection
    | .operator _ | .invalid => .reject (.unexpected token.text)
    | _ => operate valueOf operands token
  | assigned name =>
    if token.kind = .endMark then operate valueOf (operands.push (valueOf name)) token
    else operate valueOf operands token
  | body => operate valueOf operands token

theorem operate_ne_exit (operands : Operands) (token : Token) :
    operate valueOf operands token ≠ .exit := by
  have hof : ∀ result, Verdict.ofOperands result ≠ .exit := by
    intro result
    cases result <;> simp [Verdict.ofOperands]
  have hresult : Verdict.ofResult operands.result ≠ .exit := by
    rcases operands.result with rejection | ⟨value, below⟩ <;> simp [Verdict.ofResult]
  unfold operate
  split <;> first | exact hof _ | exact hresult | simp

theorem operate_ne_more_fresh (operands operands' : Operands) (token : Token) :
    operate valueOf operands token ≠ .more fresh operands' := by
  have hof : ∀ result, Verdict.ofOperands result ≠ .more fresh operands' := by
    intro result
    cases result <;> simp [Verdict.ofOperands]
  have hresult : Verdict.ofResult operands.result ≠ .more fresh operands' := by
    rcases operands.result with rejection | ⟨value, below⟩ <;> simp [Verdict.ofResult]
  unfold operate
  split <;> first | exact hof _ | exact hresult | simp

/-- A step is that of the token on some operands, unless the token is a name that comes first or one
that a leading name makes demands on. -/
theorem step_cases (progress : Progress) (operands : Operands) (token : Token) :
    (∃ given, progress.step valueOf operands token = operate valueOf given token) ∨
      token.kind = .identifier ∧ (progress.step valueOf operands token = .exit ∨
        progress.step valueOf operands token =
          .more (named token.text) (operands.push (valueOf token.text))) ∨
      token.kind = .assign ∧
        ((∃ name later, progress.step valueOf operands token = .retarget name later) ∨
          progress.step valueOf operands token = .reject .tooFewOperands) ∨
      (token.kind = .invalid ∨ ∃ operator, token.kind = .operator operator) ∧
        progress.step valueOf operands token = .reject (.unexpected token.text) := by
  cases progress with
  | fresh =>
    by_cases hkind : token.kind = .identifier
    · by_cases hword : isExitWord token.text <;> simp [step, hkind, hword]
    · exact .inl ⟨operands, by rw [step, if_neg hkind]⟩
  | named name =>
    obtain ⟨kind, text⟩ := token
    cases kind with
    | assign =>
      obtain ⟨_ | ⟨value, below⟩⟩ := operands
      · exact .inr (.inr (.inl ⟨rfl, .inr rfl⟩))
      · exact .inr (.inr (.inl ⟨rfl, .inl ⟨name, ⟨below⟩, rfl⟩⟩))
    | operator op => exact .inr (.inr (.inr ⟨.inr ⟨op, rfl⟩, rfl⟩))
    | invalid => exact .inr (.inr (.inr ⟨.inl rfl, rfl⟩))
    | number | identifier | negate | endMark => exact .inl ⟨operands, rfl⟩
  | assigned name =>
    by_cases hkind : token.kind = .endMark
    · exact .inl ⟨_, by rw [step, if_pos hkind]⟩
    · exact .inl ⟨operands, by rw [step, if_neg hkind]⟩
  | body => exact .inl ⟨operands, rfl⟩

theorem step_ne_more_fresh (progress : Progress) (operands operands' : Operands) (token : Token) :
    progress.step valueOf operands token ≠ .more fresh operands' := by
  rcases step_cases valueOf progress operands token with
    ⟨given, h⟩ | ⟨-, h | h⟩ | ⟨-, ⟨name, later, h⟩ | h⟩ | ⟨-, h⟩ <;> rw [h]
  · exact operate_ne_more_fresh valueOf given operands' token
  all_goals simp

variable {valueOf} in
theorem of_operate_eq_value {operands later : Operands} {token : Token} {value : Binary64}
    (h : operate valueOf operands token = .value value later) :
    token.kind = .endMark ∧ later = {} := by
  obtain ⟨values⟩ := operands
  unfold operate at h
  split at h
  · cases hvalue : numberValue token.text <;> rw [hvalue] at h <;> cases h
  · cases h
  · rcases values with _ | ⟨first, below⟩ <;> cases h
  · rcases values with _ | ⟨first, _ | ⟨second, below⟩⟩ <;> cases h
  · next hkind =>
    rcases values with _ | ⟨first, _ | ⟨second, below⟩⟩ <;> cases h
    exact ⟨hkind, rfl⟩
  · cases h
  · cases h

variable {valueOf} in
/-- Only an end mark asks for the value of an expression, and none of the operands is left then. -/
theorem of_step_eq_value {progress : Progress} {operands later : Operands} {token : Token}
    {value : Binary64} (h : progress.step valueOf operands token = .value value later) :
    token.kind = .endMark ∧ later = {} := by
  rcases step_cases valueOf progress operands token with
    ⟨given, hstep⟩ | ⟨-, hstep | hstep⟩ | ⟨-, ⟨name, rest, hstep⟩ | hstep⟩ | ⟨-, hstep⟩
  · exact of_operate_eq_value (hstep.symm.trans h)
  all_goals simp [hstep] at h

/-- Only as the first token of an expression does the exit word end the session. -/
theorem step_eq_exit_iff {progress : Progress} {operands : Operands} {token : Token} :
    progress.step valueOf operands token = .exit ↔ progress = .fresh ∧ token.IsExit := by
  unfold Token.IsExit
  have hoperate := fun operands => operate_ne_exit valueOf operands token
  cases progress with
  | fresh =>
    by_cases hkind : token.kind = .identifier
    · by_cases hword : isExitWord token.text <;> simp [step, hkind, hword]
    · simp [step, hkind, hoperate]
  | named name =>
    simp only [step]
    split
    · split <;> simp
    all_goals simp [hoperate]
  | assigned name =>
    by_cases hkind : token.kind = .endMark <;> simp [step, hkind, hoperate]
  | body => simp [step, hoperate]

end Progress

end ReversePolish
