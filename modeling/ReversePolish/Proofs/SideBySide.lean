import ReversePolish.Proofs.CutOffSink
import ReversePolish.Proofs.TokensAhead

/-!
# Sessions side by side

Two calculators that come to the same in every single step, and are related again after it, come to
the same in every evaluation and in a whole session.
-/

namespace ReversePolish.Calculator

variable {σ τ ε α : Type}

def Agree (Related : Calculator σ → Calculator τ → Prop) (result : Except ε α × Calculator σ)
    (result' : Except ε α × Calculator τ) : Prop :=
  result.1 = result'.1 ∧ Related result.2 result'.2

/-- A relation of calculators with the same memory and the same operands that is kept, with the same
outcome, by everything that evaluations and sessions consist of. -/
structure Lockstep [Sink σ] [Sink τ] (Related : Calculator σ → Calculator τ → Prop) : Prop where
  memory {calculator calculator'} : Related calculator calculator' →
    calculator.memory = calculator'.memory
  operands {calculator calculator'} : Related calculator calculator' →
    calculator.operands = calculator'.operands
  hold {calculator calculator'} : Related calculator calculator' → ∀ operands,
    Related { calculator with operands } { calculator' with operands }
  start {calculator calculator'} : Related calculator calculator' →
    Related (calculator.note .started) (calculator'.note .started)
  next {calculator calculator'} : Related calculator calculator' →
    calculator.reader.next.1 = calculator'.reader.next.1 ∧
      Related { calculator with reader := calculator.reader.next.2 }
        { calculator' with reader := calculator'.reader.next.2 }
  retarget {calculator calculator'} : Related calculator calculator' → ∀ name,
    Related (calculator.retarget name) (calculator'.retarget name)
  ignore {calculator calculator'} : Related calculator calculator' →
    Related (calculator.note .assignIgnored) (calculator'.note .assignIgnored)
  store {calculator calculator'} : Related calculator calculator' → ∀ value,
    Related (calculator.store value) (calculator'.store value)
  reject {calculator calculator'} : Related calculator calculator' → ∀ rejection,
    Agree Related (calculator.reject rejection) (calculator'.reject rejection)
  say {calculator calculator'} : Related calculator calculator' → ∀ outcome : Outcome,
    Agree Related (calculator.say outcome.line) (calculator'.say outcome.line)
  close {calculator calculator'} : Related calculator calculator' → ∀ how,
    Agree Related (calculator.close how) (calculator'.close how)

namespace Lockstep

variable [Sink σ] [Sink τ] {Related : Calculator σ → Calculator τ → Prop}
  {calculator : Calculator σ} {calculator' : Calculator τ}

theorem of_next (lockstep : Lockstep Related) (h : Related calculator calculator')
    {answer : Except Stop Token} {reader : Reader σ}
    (hnext : calculator.reader.next = (answer, reader)) :
    ∃ reader', calculator'.reader.next = (answer, reader') ∧
      Related { calculator with reader } { calculator' with reader := reader' } := by
  obtain ⟨hanswer, hrelated⟩ := lockstep.next h
  rw [hnext] at hanswer hrelated
  exact ⟨_, Prod.ext hanswer.symm rfl, hrelated⟩

theorem of_token (lockstep : Lockstep Related) (h : Related calculator calculator')
    {token : Token} {reader : Reader σ} (hnext : calculator.reader.next = (.ok token, reader))
    {progress : Progress} {verdict : Verdict}
    (hstep : progress.step calculator.memory.get calculator.operands token = verdict) :
    ∃ reader', calculator'.reader.next = (.ok token, reader') ∧
      progress.step calculator'.memory.get calculator'.operands token = verdict ∧
      Related { calculator with reader } { calculator' with reader := reader' } := by
  obtain ⟨reader', hnext', hrelated⟩ := lockstep.of_next h hnext
  rw [lockstep.memory h, lockstep.operands h] at hstep
  exact ⟨reader', hnext', hstep, hrelated⟩

theorem advance (lockstep : Lockstep Related) (h : Related calculator calculator')
    (progress : Progress) :
    Agree Related (calculator.advance progress) (calculator'.advance progress) := by
  fun_induction Calculator.advance calculator progress generalizing calculator' with
  | case1 calculator progress stop reader hnext =>
    obtain ⟨reader', hnext', hrelated⟩ := lockstep.of_next h hnext
    rw [advance_of_stop hnext']
    exact ⟨rfl, hrelated⟩
  | case2 calculator progress token reader hnext progress' operands hstep ih =>
    obtain ⟨reader', hnext', hstep', hrelated⟩ := lockstep.of_token h hnext hstep
    rw [advance_of_token hnext', hstep']
    exact ih (lockstep.hold hrelated operands)
  | case3 calculator progress token reader hnext name operands hstep ih =>
    obtain ⟨reader', hnext', hstep', hrelated⟩ := lockstep.of_token h hnext hstep
    rw [advance_of_token hnext', hstep']
    exact ih (lockstep.retarget (lockstep.hold hrelated operands) name)
  | case4 calculator progress token reader hnext operands hstep ih =>
    obtain ⟨reader', hnext', hstep', hrelated⟩ := lockstep.of_token h hnext hstep
    rw [advance_of_token hnext', hstep']
    exact ih (lockstep.ignore (lockstep.hold hrelated operands))
  | case5 calculator progress token reader hnext value operands hstep =>
    obtain ⟨reader', hnext', hstep', hrelated⟩ := lockstep.of_token h hnext hstep
    rw [advance_of_token hnext', hstep']
    exact ⟨rfl, lockstep.store (lockstep.hold hrelated operands) value⟩
  | case6 calculator progress token reader hnext rejection hstep =>
    obtain ⟨reader', hnext', hstep', hrelated⟩ := lockstep.of_token h hnext hstep
    rw [advance_of_token hnext', hstep']
    exact lockstep.reject hrelated rejection
  | case7 calculator progress token reader hnext hstep =>
    obtain ⟨reader', hnext', hstep', hrelated⟩ := lockstep.of_token h hnext hstep
    rw [advance_of_token hnext', hstep']
    exact ⟨rfl, hrelated⟩

theorem evaluate (lockstep : Lockstep Related) (h : Related calculator calculator') :
    Agree Related calculator.evaluate calculator'.evaluate :=
  lockstep.advance (lockstep.hold h {}) .fresh

theorem of_evaluate (lockstep : Lockstep Related) (h : Related calculator calculator')
    {result : Except Stop Outcome} {evaluated : Calculator σ}
    (hevaluate : calculator.evaluate = (result, evaluated)) :
    ∃ evaluated', calculator'.evaluate = (result, evaluated') ∧ Related evaluated evaluated' := by
  obtain ⟨hresult, hrelated⟩ := lockstep.evaluate h
  rw [hevaluate] at hresult hrelated
  exact ⟨_, Prod.ext hresult.symm rfl, hrelated⟩

theorem drain (lockstep : Lockstep Related) (h : Related calculator calculator') :
    calculator.drain.1 = calculator'.drain.1 ∧ calculator.drain.2.1 = calculator'.drain.2.1 := by
  fun_induction Calculator.drain calculator generalizing calculator' with
  | case1 calculator outcome evaluated hevaluate outcomes stop last hdrain ih =>
    obtain ⟨evaluated', hevaluate', hrelated⟩ := lockstep.of_evaluate h hevaluate
    obtain ⟨houtcomes, hstop⟩ := ih hrelated
    rw [hdrain] at houtcomes hstop
    rw [Calculator.drain]
    split
    · next h' =>
      rw [hevaluate'] at h'
      obtain ⟨houtcome, rfl⟩ := Prod.mk.inj h'
      obtain rfl := Except.ok.inj houtcome
      exact ⟨congrArg (outcome :: ·) houtcomes, hstop⟩
    · next h' => simp [hevaluate'] at h'
  | case2 calculator stop evaluated hevaluate =>
    obtain ⟨evaluated', hevaluate', -⟩ := lockstep.of_evaluate h hevaluate
    rw [Calculator.drain]
    split
    · next h' => simp [hevaluate'] at h'
    · next h' =>
      rw [hevaluate'] at h'
      exact ⟨rfl, Except.error.inj (Prod.mk.inj h').1⟩

theorem of_say (lockstep : Lockstep Related) (h : Related calculator calculator')
    {outcome : Outcome} {answer : Except String Unit} {said : Calculator σ}
    (hsay : calculator.say outcome.line = (answer, said)) :
    ∃ said', calculator'.say outcome.line = (answer, said') ∧ Related said said' := by
  obtain ⟨hanswer, hrelated⟩ := lockstep.say h outcome
  rw [hsay] at hanswer hrelated
  exact ⟨_, Prod.ext hanswer.symm rfl, hrelated⟩

theorem converse (lockstep : Lockstep Related) (h : Related calculator calculator') :
    Agree Related calculator.converse calculator'.converse := by
  fun_induction Calculator.converse calculator generalizing calculator' with
  | case1 calculator how evaluated hevaluate =>
    obtain ⟨evaluated', hevaluate', hrelated⟩ := lockstep.of_evaluate h hevaluate
    rw [converse_of_ended hevaluate']
    exact lockstep.close hrelated how
  | case2 calculator message evaluated hevaluate =>
    obtain ⟨evaluated', hevaluate', hrelated⟩ := lockstep.of_evaluate h hevaluate
    rw [converse_of_failed hevaluate']
    exact ⟨rfl, hrelated⟩
  | case3 calculator outcome evaluated hevaluate message said hsay =>
    obtain ⟨evaluated', hevaluate', hrelated⟩ := lockstep.of_evaluate h hevaluate
    obtain ⟨said', hsay', hsaid⟩ := lockstep.of_say hrelated hsay
    rw [converse_of_ok hevaluate', hsay']
    exact ⟨rfl, hsaid⟩
  | case4 calculator outcome evaluated hevaluate said hsay ih =>
    obtain ⟨evaluated', hevaluate', hrelated⟩ := lockstep.of_evaluate h hevaluate
    obtain ⟨said', hsay', hsaid⟩ := lockstep.of_say hrelated hsay
    rw [converse_of_ok hevaluate', hsay']
    exact ih hsaid

theorem run (lockstep : Lockstep Related) (h : Related calculator calculator') :
    Agree Related calculator.run calculator'.run :=
  lockstep.converse (lockstep.start h)

end Lockstep

end ReversePolish.Calculator
