import ReversePolish.Expression
import Mathlib.Data.List.Basic

/-!
# Postfix expressions and the stack

The expressions by their grammar, each with its value: a number, a variable, an expression and a
sign change, or two expressions and an operator, which takes the later one as its first operand.
Working through a list of tokens on an empty stack leaves a single value exactly if the list is an
expression with that value. An equals sign in between has no effect.
-/

namespace ReversePolish

/-- The value of an operator. Its first operand is the one on top of the stack. -/
def Operator.eval : Operator → Binary64 → Binary64 → Binary64
  | add, first, second => first + second
  | subtract, first, second => first - second
  | multiply, first, second => first * second
  | divide, first, second => first / second

/-- The expressions with their values, `valueOf` giving the values of variables. -/
inductive Postfix (valueOf : String → Binary64) : List Token → Binary64 → Prop
  | number {text value} (literal : Binary64.read? text = some value) :
      Postfix valueOf [⟨.number, text⟩] value
  | name {name} : Postfix valueOf [⟨.identifier, name⟩] (valueOf name)
  | negate {tokens value text} (operand : Postfix valueOf tokens value) :
      Postfix valueOf (tokens ++ [⟨.negate, text⟩]) (-value)
  | operator {earlier later second first op text} (below : Postfix valueOf earlier second)
      (top : Postfix valueOf later first) :
      Postfix valueOf (earlier ++ later ++ [⟨.operator op, text⟩]) (op.eval first second)

/-- Expressions one after the other, with their values as they lie on a stack. -/
inductive Stacked (valueOf : String → Binary64) : List Token → List Binary64 → Prop
  | nil : Stacked valueOf [] []
  | push {earlier later values value} (below : Stacked valueOf earlier values)
      (top : Postfix valueOf later value) : Stacked valueOf (earlier ++ later) (value :: values)

namespace Operands

/-- The operands after some tokens, none of which may end the expression. -/
def run? (valueOf : String → Binary64) (operands : Operands) : List Token → Option Operands
  | [] => some operands
  | token :: tokens =>
    match Progress.operate valueOf operands token with
    | .more .body operands | .ignore operands => run? valueOf operands tokens
    | _ => none

def single? : Operands → Option Binary64
  | ⟨[value]⟩ => some value
  | _ => none

variable {valueOf : String → Binary64} {operands : Operands}

@[simp] theorem run?_nil : operands.run? valueOf [] = some operands := rfl

theorem run?_number {text : String} {value : Binary64} (h : Binary64.read? text = some value)
    (tokens : List Token) : operands.run? valueOf (⟨.number, text⟩ :: tokens) =
      (operands.push value).run? valueOf tokens := by
  simp [run?, Progress.operate, numberValue, h, Verdict.ofOperands, Except.map]

theorem run?_unreadable {text : String} (h : Binary64.read? text = none) (tokens : List Token) :
    operands.run? valueOf (⟨.number, text⟩ :: tokens) = none := by
  simp [run?, Progress.operate, numberValue, h, Verdict.ofOperands, Except.map]

@[simp] theorem run?_name (name : String) (tokens : List Token) :
    operands.run? valueOf (⟨.identifier, name⟩ :: tokens) =
      (operands.push (valueOf name)).run? valueOf tokens := rfl

@[simp] theorem run?_assign (text : String) (tokens : List Token) :
    operands.run? valueOf (⟨.assign, text⟩ :: tokens) = operands.run? valueOf tokens := rfl

@[simp] theorem run?_invalid (text : String) (tokens : List Token) :
    operands.run? valueOf (⟨.invalid, text⟩ :: tokens) = none := rfl

@[simp] theorem run?_endMark (text : String) (tokens : List Token) :
    operands.run? valueOf (⟨.endMark, text⟩ :: tokens) = none := by
  cases h : operands.result <;> simp [run?, Progress.operate, h, Verdict.ofResult]

@[simp] theorem run?_negate (value : Binary64) (values : List Binary64) (text : String)
    (tokens : List Token) : run? valueOf ⟨value :: values⟩ (⟨.negate, text⟩ :: tokens) =
      run? valueOf ⟨-value :: values⟩ tokens := rfl

@[simp] theorem run?_negate_nil (text : String) (tokens : List Token) :
    run? valueOf ⟨[]⟩ (⟨.negate, text⟩ :: tokens) = none := rfl

@[simp] theorem run?_operator (first second : Binary64) (values : List Binary64) (op : Operator)
    (text : String) (tokens : List Token) :
    run? valueOf ⟨first :: second :: values⟩ (⟨.operator op, text⟩ :: tokens) =
      run? valueOf ⟨op.eval first second :: values⟩ tokens := by
  cases op <;> rfl

@[simp] theorem run?_operator_nil (op : Operator) (text : String) (tokens : List Token) :
    run? valueOf ⟨[]⟩ (⟨.operator op, text⟩ :: tokens) = none := rfl

@[simp] theorem run?_operator_single (value : Binary64) (op : Operator) (text : String)
    (tokens : List Token) :
    run? valueOf ⟨[value]⟩ (⟨.operator op, text⟩ :: tokens) = none := rfl

/-- An equals sign has no effect. -/
theorem run?_filter (tokens : List Token) :
    operands.run? valueOf (tokens.filter (·.kind ≠ .assign)) = operands.run? valueOf tokens := by
  induction tokens generalizing operands with
  | nil => rfl
  | cons token tokens ih =>
    obtain ⟨kind, text⟩ := token
    by_cases h : kind = .assign
    · subst h
      simpa using ih
    · rw [List.filter_cons_of_pos (by simpa using h)]
      unfold run?
      split
      · exact ih
      · exact ih
      · rfl

/-- An expression puts its value on the stack. -/
theorem run?_postfix {tokens : List Token} {value : Binary64} (h : Postfix valueOf tokens value)
    (operands : Operands) (more : List Token) :
    operands.run? valueOf (tokens ++ more) = (operands.push value).run? valueOf more := by
  induction h generalizing operands more with
  | number literal => exact run?_number literal more
  | name => rfl
  | negate operand ih =>
    rw [List.append_assoc, ih]
    rfl
  | operator below top ihbelow ihtop =>
    rw [List.append_assoc, List.append_assoc, ihbelow, ihtop]
    exact run?_operator ..

/-- What lies on the stack are the values of the expressions that the tokens consist of. -/
theorem stacked_of_run? {done tokens : List Token} {operands' : Operands}
    (h : operands.run? valueOf tokens = some operands') (htokens : ∀ t ∈ tokens, t.kind ≠ .assign)
    (hdone : Stacked valueOf done operands.values) :
    Stacked valueOf (done ++ tokens) operands'.values := by
  induction tokens generalizing done operands with
  | nil =>
    obtain rfl := Option.some.inj h
    simpa using hdone
  | cons token tokens ih =>
    obtain ⟨kind, text⟩ := token
    obtain ⟨hkind, hmore⟩ := List.forall_mem_cons.1 htokens
    obtain ⟨values⟩ := operands
    rw [List.append_cons done]
    cases kind with
    | assign => exact absurd rfl hkind
    | endMark => simp at h
    | invalid => simp at h
    | number =>
      cases hread : Binary64.read? text with
      | none => simp [run?_unreadable hread] at h
      | some value =>
        rw [run?_number hread] at h
        exact ih h hmore (.push hdone (.number hread))
    | identifier =>
      rw [run?_name] at h
      exact ih h hmore (.push hdone .name)
    | negate =>
      cases hdone with
      | nil => simp at h
      | push below top =>
        rw [run?_negate] at h
        refine ih h hmore ?_
        rw [List.append_assoc]
        exact .push below (.negate top)
    | operator op =>
      cases hdone with
      | nil => simp at h
      | push below top =>
        cases below with
        | nil => simp at h
        | push lowest below =>
          rw [run?_operator] at h
          refine ih h hmore ?_
          rw [List.append_assoc, List.append_assoc, ← List.append_assoc _ _ [_]]
          exact .push lowest (.operator below top)

/-- Tokens leave a single value exactly if they are an expression with that value. -/
theorem run?_single_iff {tokens : List Token} {value : Binary64} :
    ((({} : Operands).run? valueOf tokens).bind single? = some value) ↔
      Postfix valueOf (tokens.filter (·.kind ≠ .assign)) value := by
  rw [← run?_filter]
  have htokens : ∀ t ∈ tokens.filter (·.kind ≠ .assign), t.kind ≠ .assign := by simp
  generalize tokens.filter (·.kind ≠ .assign) = tokens at htokens
  constructor
  · intro h
    obtain ⟨⟨values⟩, hrun, hsingle⟩ := Option.bind_eq_some_iff.1 h
    have hstacked := stacked_of_run? hrun htokens .nil
    unfold single? at hsingle
    split at hsingle
    · next value' heq =>
      obtain rfl := Option.some.inj hsingle
      obtain rfl := Operands.mk.inj heq
      cases hstacked with
      | push below top =>
        cases below with
        | nil => simpa using top
    · simp at hsingle
  · intro h
    have hrun := run?_postfix h {} []
    rw [List.append_nil] at hrun
    rw [hrun]
    rfl

end Operands

end ReversePolish
