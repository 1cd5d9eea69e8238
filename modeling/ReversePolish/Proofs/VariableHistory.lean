import ReversePolish.Proofs.ChannelUse
import ReversePolish.Proofs.TokensAhead

/-!
# The history of the variables

A variable holds what the latest evaluation with a value brought that left it as the target, and
zero before the first one. Nothing else changes a variable: no rejection, no end of a session and no
failure of the channel, wherever in an expression it comes.
-/

namespace ReversePolish

structure Evaluation where
  result : Except Stop Outcome
  target : String

def Evaluation.valueFor? (evaluation : Evaluation) (name : String) : Option Binary64 :=
  match evaluation.result with
  | .ok (.value value) => if evaluation.target = name then some value else none
  | .ok (.rejected _) | .error _ => none

/-- The value that the latest of some evaluations gave to a variable. -/
def latestFor? (evaluations : List Evaluation) (name : String) : Option Binary64 :=
  (evaluations.filterMap (·.valueFor? name)).getLast?

theorem latestFor?_concat (evaluations : List Evaluation) (evaluation : Evaluation)
    (name : String) :
    latestFor? (evaluations ++ [evaluation]) name =
      (evaluation.valueFor? name).or (latestFor? evaluations name) := by
  unfold latestFor?
  rw [List.filterMap_append, List.getLast?_append]
  cases h : evaluation.valueFor? name <;> simp [h]

namespace Calculator

variable {σ : Type} [Sink σ]

def evaluation (calculator : Calculator σ) : Evaluation :=
  ⟨calculator.evaluate.1, calculator.evaluate.2.memory.target⟩

/-- A calculator that has been started and has made some evaluations, the latest last. Between them
anything may happen to its reader: outcomes are written, lines arrive or are given up. -/
inductive Used : List Evaluation → Calculator σ → Prop
  | start (settings : Settings) (channel : Channel σ) : Used [] (.start settings channel)
  | evaluate {evaluations calculator} (used : Used evaluations calculator) :
      Used (evaluations ++ [calculator.evaluation]) calculator.evaluate.2
  | between {evaluations calculator calculator'} (used : Used evaluations calculator)
      (memory : calculator'.memory = calculator.memory) : Used evaluations calculator'

@[simp] theorem memory_reject (calculator : Calculator σ) (rejection : Rejection) :
    (calculator.reject rejection).2.memory = calculator.memory := by
  dsimp only [reject]
  split <;> rfl

theorem reject_ne_value (calculator : Calculator σ) (rejection : Rejection) (value : Binary64) :
    (calculator.reject rejection).1 ≠ .ok (.value value) := by
  dsimp only [reject]
  split <;> simp

/-- The rest of an expression changes a variable only by its value and only as the target. -/
theorem get_advance (calculator : Calculator σ) (progress : Progress) (name : String) :
    let result := calculator.advance progress
    result.2.memory.get name =
      (Evaluation.valueFor? ⟨result.1, result.2.memory.target⟩ name).getD
        (calculator.memory.get name) := by
  dsimp only
  fun_induction advance calculator progress with
  | case1 => rfl
  | case2 calculator progress token reader hnext progress' operands hstep ih => exact ih
  | case3 calculator progress token reader hnext target operands hstep ih => exact ih
  | case4 calculator progress token reader hnext operands hstep ih => exact ih
  | case5 calculator progress token reader hnext value operands hstep =>
    change (calculator.memory.store value).get name =
      (if calculator.memory.target = name then some value else none).getD _
    split
    · next htarget =>
      rw [← htarget]
      exact calculator.memory.get_store_self value
    · next htarget => exact Memory.get_store_of_ne (Ne.symm htarget) value
  | case6 calculator progress token reader hnext rejection hstep =>
    have hvalue := reject_ne_value { calculator with reader } rejection
    cases hresult : (reject { calculator with reader } rejection).1 with
    | ok outcome =>
      cases outcome with
      | value value => exact absurd hresult (hvalue value)
      | rejected => simp [Evaluation.valueFor?]
    | error => simp [Evaluation.valueFor?]
  | case7 => rfl

theorem get_evaluate (calculator : Calculator σ) (name : String) :
    calculator.evaluate.2.memory.get name =
      (calculator.evaluation.valueFor? name).getD (calculator.memory.get name) :=
  calculator.clear.get_advance .fresh name

/-- An evaluation without a value leaves every variable as it was. -/
theorem get_evaluate_of_ne_value {calculator : Calculator σ}
    (h : ∀ value, calculator.evaluate.1 ≠ .ok (.value value)) (name : String) :
    calculator.evaluate.2.memory.get name = calculator.memory.get name := by
  rw [get_evaluate]
  unfold Evaluation.valueFor?
  split
  · next value hvalue => exact absurd hvalue (h value)
  · rfl
  · rfl

theorem Used.get_eq_latest {evaluations : List Evaluation} {calculator : Calculator σ}
    (used : Used evaluations calculator) (name : String) :
    calculator.memory.get name = (latestFor? evaluations name).getD (.zero false) := by
  induction used with
  | start => rfl
  | @evaluate evaluations calculator used ih =>
    rw [get_evaluate, ih, latestFor?_concat]
    cases calculator.evaluation.valueFor? name <;> rfl
  | between used memory ih => rw [memory, ih]

theorem memory_say (calculator : Calculator σ) (text : String) :
    (calculator.say text).2.memory = calculator.memory := rfl

theorem memory_close (calculator : Calculator σ) (how : Ending) :
    (calculator.close how).2.memory = calculator.memory :=
  close_holds (fun later => later.memory = calculator.memory) rfl fun _ hsaid => hsaid

theorem Used.converse {evaluations : List Evaluation} {calculator : Calculator σ}
    (used : Used evaluations calculator) :
    ∃ later, Used (evaluations ++ later) calculator.converse.2 := by
  fun_induction Calculator.converse calculator generalizing evaluations with
  | case1 calculator how evaluated hevaluate =>
    have hlast := used.evaluate
    rw [hevaluate] at hlast
    exact ⟨_, hlast.between (memory_close evaluated how)⟩
  | case2 calculator message evaluated hevaluate =>
    have hlast := used.evaluate
    rw [hevaluate] at hlast
    exact ⟨_, hlast⟩
  | case3 calculator outcome evaluated hevaluate message said hsay =>
    have hlast := used.evaluate
    have hmemory := evaluated.memory_say outcome.line
    rw [hevaluate] at hlast
    rw [hsay] at hmemory
    exact ⟨_, hlast.between hmemory⟩
  | case4 calculator outcome evaluated hevaluate said hsay ih =>
    have hlast := used.evaluate
    have hmemory := evaluated.memory_say outcome.line
    rw [hevaluate] at hlast
    rw [hsay] at hmemory
    obtain ⟨later, hused⟩ := ih (hlast.between hmemory)
    rw [List.append_assoc] at hused
    exact ⟨_, hused⟩

theorem evaluate_of_name {calculator : Calculator σ} {name : String} {tokens : List Token}
    (h : calculator.reader.ahead = ⟨.identifier, name⟩ :: tokens) (hword : ¬isExitWord name) :
    ∃ reader : Reader σ, reader.ahead = tokens ∧
      calculator.evaluate =
        let operands := calculator.operands.clear.push (calculator.memory.get name)
        advance { calculator with reader, operands } (.named name) := by
  obtain ⟨reader, hnext, hahead⟩ := Reader.next_of_ahead h
  refine ⟨reader, hahead, ?_⟩
  have hnext' : calculator.clear.reader.next = (.ok ⟨.identifier, name⟩, reader) := hnext
  rw [evaluate, advance_of_token hnext']
  simp only [Progress.step, if_pos, hword]
  rfl

/-- A variable by itself has its own value, which goes to the target. -/
theorem evaluate_read {calculator : Calculator σ} {name : String} {mark : Token}
    {rest : List Token} (h : calculator.reader.ahead = ⟨.identifier, name⟩ :: mark :: rest)
    (hmark : mark.kind = .endMark) (hword : ¬isExitWord name) :
    calculator.evaluate.1 = .ok (.value (calculator.memory.get name)) ∧
      calculator.evaluate.2.memory = calculator.memory.store (calculator.memory.get name) := by
  obtain ⟨reader, hahead, hnamed⟩ := evaluate_of_name h hword
  obtain ⟨reader', hnext, -⟩ := Reader.next_of_ahead hahead
  rw [hnamed, advance_of_token hnext]
  simp only [Progress.step, Progress.operate, hmark]
  exact ⟨rfl, rfl⟩

/-- An assignment of nothing gives a variable its own value. -/
theorem evaluate_assign_nothing {calculator : Calculator σ} {name : String} {assign mark : Token}
    {rest : List Token}
    (h : calculator.reader.ahead = ⟨.identifier, name⟩ :: assign :: mark :: rest)
    (hassign : assign.kind = .assign) (hmark : mark.kind = .endMark) (hword : ¬isExitWord name) :
    calculator.evaluate.1 = .ok (.value (calculator.memory.get name)) ∧
      calculator.evaluate.2.memory =
        (calculator.memory.retarget name).store (calculator.memory.get name) := by
  obtain ⟨reader, hahead, hnamed⟩ := evaluate_of_name h hword
  obtain ⟨reader', hnext, hahead'⟩ := Reader.next_of_ahead hahead
  rw [hnamed, advance_of_token hnext]
  simp only [Progress.step, hassign, Operands.pop_push]
  have hnoted : (reader'.note (.retargeted name)).ahead = mark :: rest :=
    (Reader.ahead_note _ _).trans hahead'
  obtain ⟨reader'', hnext', -⟩ := Reader.next_of_ahead hnoted
  rw [advance_of_token hnext']
  simp only [Progress.step, Progress.operate, hmark, if_pos]
  exact ⟨rfl, rfl⟩

theorem get_store_own (memory : Memory) (name other : String) :
    ((memory.retarget name).store (memory.get name)).get other = memory.get other := by
  by_cases hother : other = name
  · subst hother
    exact (memory.retarget other).get_store_self _
  · exact Memory.get_store_of_ne hother _

theorem Used.run {evaluations : List Evaluation} {calculator : Calculator σ}
    (used : Used evaluations calculator) :
    ∃ later, Used (evaluations ++ later) calculator.run.2 := by
  have hstarted : Used evaluations (calculator.note .started) := used.between rfl
  exact hstarted.converse

/-- In every use of a calculator a variable holds the value of the latest evaluation that left it as
the target, and zero if there was none; running a session from there is such a use. So an evaluation
without a value changes nothing, reading a variable copies it to the target and assigning nothing
changes no variable. -/
theorem variable_holds_latest {evaluations : List Evaluation} {calculator : Calculator σ}
    (used : Used evaluations calculator) :
    (∀ name, calculator.memory.get name = (latestFor? evaluations name).getD (.zero false)) ∧
    (∃ later, Used (evaluations ++ later) calculator.run.2) ∧
    ((∀ value, calculator.evaluate.1 ≠ .ok (.value value)) →
      ∀ name, calculator.evaluate.2.memory.get name = calculator.memory.get name) ∧
    (∀ name mark rest, calculator.reader.ahead = ⟨.identifier, name⟩ :: mark :: rest →
      mark.kind = .endMark → ¬isExitWord name →
      calculator.evaluate.1 = .ok (.value (calculator.memory.get name)) ∧
      calculator.evaluate.2.memory.target = calculator.memory.target ∧
      calculator.evaluate.2.memory.get calculator.memory.target = calculator.memory.get name ∧
      ∀ other, other ≠ calculator.memory.target →
        calculator.evaluate.2.memory.get other = calculator.memory.get other) ∧
    (∀ name assign mark rest,
      calculator.reader.ahead = ⟨.identifier, name⟩ :: assign :: mark :: rest →
      assign.kind = .assign → mark.kind = .endMark → ¬isExitWord name →
      calculator.evaluate.1 = .ok (.value (calculator.memory.get name)) ∧
      calculator.evaluate.2.memory.target = name ∧
      ∀ other, calculator.evaluate.2.memory.get other = calculator.memory.get other) := by
  refine ⟨used.get_eq_latest, used.run, get_evaluate_of_ne_value, ?_, ?_⟩
  · intro name mark rest hahead hmark hword
    obtain ⟨hvalue, hmemory⟩ := evaluate_read hahead hmark hword
    rw [hmemory]
    exact ⟨hvalue, rfl, calculator.memory.get_store_self _,
      fun other hother => Memory.get_store_of_ne hother _⟩
  · intro name assign mark rest hahead hassign hmark hword
    obtain ⟨hvalue, hmemory⟩ := evaluate_assign_nothing hahead hassign hmark hword
    rw [hmemory]
    exact ⟨hvalue, rfl, get_store_own calculator.memory name⟩

/-- The report on the second expression breaks off, which has moved the target before. -/
theorem variable_holds_latest_through_failure :
    let start : Calculator FaultySink := .start {}
      { replies := [.line "x = 2 @ y = 1 2 @ x @ z @"],
        sink := { failingWrites := (· = 2), failingFlushes := fun _ => false } }
    let last := start.evaluate.2.evaluate.2.evaluate.2
    last.memory.get "x" = .ofBits 0x4000000000000000 ∧
      last.memory.get "y" = .ofBits 0x4000000000000000 ∧
      last.memory.get "it" = .zero false ∧
      last.evaluate.2.memory.get "y" = .zero false := by
  intro start last
  have used : Used [] start := .start {} start.reader.channel
  obtain ⟨hget, -, -, hread, -⟩ := variable_holds_latest used.evaluate.evaluate.evaluate
  have hfacts : last.reader.ahead = [⟨.identifier, "z"⟩, ⟨.endMark, "@"⟩] ∧
      last.memory.target = "y" ∧
      let latest := fun name => (latestFor? [start.evaluation, start.evaluate.2.evaluation,
        start.evaluate.2.evaluate.2.evaluation] name).getD (.zero false)
      latest "x" = .ofBits 0x4000000000000000 ∧ latest "y" = .ofBits 0x4000000000000000 ∧
        latest "it" = .zero false ∧ latest "z" = .zero false := by decide +kernel
  obtain ⟨hahead, htarget, hx, hy, hit, hz⟩ := hfacts
  obtain ⟨-, -, hcopied, -⟩ := hread _ _ _ hahead rfl (by decide)
  change last.evaluate.2.memory.get last.memory.target = _ at hcopied
  rw [htarget] at hcopied
  exact ⟨(hget "x").trans hx, (hget "y").trans hy, (hget "it").trans hit,
    hcopied.trans ((hget "z").trans hz)⟩

end Calculator

end ReversePolish
