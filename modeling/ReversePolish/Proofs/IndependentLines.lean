import ReversePolish.Proofs.BlindEvaluation
import ReversePolish.Proofs.LineTokens
import ReversePolish.Proofs.NamedVariables
import ReversePolish.Proofs.WorksheetRun
import Mathlib.Logic.Function.Basic

/-!
# Independent lines

Where nothing fails, a line with a single assignment is evaluated without asking for another line,
and changes a variable to what its tokens denote or, if they are refused, none. Two such lines for
different variables, neither of which names the variable of the other, leave the same variables in
either order.
-/

namespace ReversePolish

theorem Operands.run?_congr {valueOf valueOf' : String → Binary64} {tokens : List Token}
    (h : AgreeOn tokens valueOf valueOf') (operands : Operands) :
    operands.run? valueOf' tokens = operands.run? valueOf tokens := by
  induction tokens generalizing operands with
  | nil => rfl
  | cons token tokens ih =>
    obtain ⟨htoken, hlater⟩ := List.forall_mem_cons.1 h
    rw [run?, run?, Progress.operate_congr _ htoken]
    split
    · exact ih hlater _
    · exact ih hlater _
    · rfl

theorem value?_congr {valueOf valueOf' : String → Binary64} {tokens : List Token}
    (h : AgreeOn tokens valueOf valueOf') : value? valueOf' tokens = value? valueOf tokens := by
  unfold value?
  split
  · next name hassign =>
    obtain ⟨text, rfl⟩ := assignment?_eq_some_iff.1 hassign
    exact congrArg some (h ⟨.identifier, name⟩ (by simp) rfl)
  · next name rest hne hassign =>
    obtain ⟨text, rfl⟩ := assignment?_eq_some_iff.1 hassign
    rw [Operands.run?_congr fun token hmem => h token (by simp [hmem])]
  · rw [Operands.run?_congr h]

theorem Memory.get_store (memory : Memory) (value : Binary64) :
    (memory.store value).get = Function.update memory.get memory.target value := by
  funext name
  by_cases h : name = memory.target
  · rw [h, get_store_self, Function.update_self]
  · rw [get_store_of_ne h, Function.update_of_ne h]

theorem Progress.step_endMark (valueOf : String → Binary64) {token : Token}
    (h : token.kind = .endMark) (progress : Progress) (operands : Operands) :
    (∃ value later, progress.step valueOf operands token = .value value later) ∨
      ∃ rejection, progress.step valueOf operands token = .reject rejection := by
  have hoperate : ∀ operands, (∃ value later, operate valueOf operands token = .value value later) ∨
      ∃ rejection, operate valueOf operands token = .reject rejection := by
    intro operands
    simp only [operate, h]
    rcases operands.result with rejection | ⟨value, later⟩
    · exact .inr ⟨rejection, rfl⟩
    · exact .inl ⟨value, later, rfl⟩
  cases progress with
  | fresh | named name | body => simpa [step, h] using hoperate operands
  | assigned name => simpa [step, h] using hoperate (operands.push (valueOf name))

/-- A line of text that assigns what some tokens denote to a variable and has nothing after it. -/
structure AssignmentLine (text name : String) (tokens : List Token) : Prop where
  scan : Token.scan text.toList =
    ⟨.identifier, name⟩ :: ⟨.assign, "="⟩ :: tokens ++ [⟨.endMark, "@"⟩]
  noMark : ∀ token ∈ tokens, token.kind ≠ .endMark
  noExit : ¬isExitWord name

namespace Calculator

variable {σ : Type}

def given (calculator : Calculator σ) (lines : List String) : Calculator σ :=
  { calculator with reader := { calculator.reader with channel := { calculator.reader.channel with
    replies := lines.map .line ++ calculator.reader.channel.replies } } }

variable [Sink σ] [Sink.Reliable σ]

theorem reject_ends_line (calculator : Calculator σ) (rejection : Rejection) :
    (calculator.reject rejection).2.reader.line.next? = none ∧
      (calculator.reject rejection).2.reader.channel.replies =
        calculator.reader.channel.replies := by
  rw [reject_ok]
  exact ⟨rfl, Channel.replies_writeLines _ _⟩

/-- An expression with its end mark at the end of the line asks for no other line, unless the exit
word ends it. The induction is on the tokens before the mark. -/
theorem advance_on_line (calculator : Calculator σ) (progress : Progress) {tokens : List Token}
    {mark : Token} (hscan : Token.scan calculator.reader.line.rest = tokens ++ [mark])
    (hmark : mark.kind = .endMark) (htokens : ∀ token ∈ tokens, token.kind ≠ .endMark) :
    let result := calculator.advance progress
    result.1 = .error (.ended .exit) ∨ result.2.reader.line.next? = none ∧
      result.2.reader.channel.replies = calculator.reader.channel.replies := by
  induction tokens generalizing calculator progress with
  | nil =>
    obtain ⟨line, hnext, hrest⟩ := Line.exists_next? hscan
    rw [advance_of_token (Reader.next_of_token hnext)]
    rcases Progress.step_endMark calculator.memory.get hmark progress calculator.operands with
      ⟨value, later, hstep⟩ | ⟨rejection, hstep⟩
    · rw [hstep]
      exact .inr ⟨Line.next?_eq_none_of_scan hrest, rfl⟩
    · rw [hstep]
      exact .inr (reject_ends_line _ _)
  | cons token tokens ih =>
    obtain ⟨line, hnext, hrest⟩ := Line.exists_next? hscan
    obtain ⟨htoken, hlater⟩ := List.forall_mem_cons.1 htokens
    rw [advance_of_token (Reader.next_of_token hnext)]
    cases hstep : progress.step calculator.memory.get calculator.operands token with
    | more progress' operands => exact ih _ progress' hrest hlater
    | retarget name operands => exact ih _ (.assigned name) hrest hlater
    | ignore operands => exact ih _ .body hrest hlater
    | value value operands => exact absurd (Progress.of_step_eq_value hstep).1 htoken
    | reject rejection => exact .inr (reject_ends_line _ _)
    | exit => exact .inl rfl

omit [Sink.Reliable σ] in
theorem Settles.get_eq {result : Except Stop Outcome × Calculator σ} {rest : List Token}
    {value? : Option Binary64} {memory : Memory} {name : String} (h : Settles result rest value?)
    (hmemory : result.2.memory = (memory.assign (some name)).keep result.1) :
    result.1 ≠ .error (.ended .exit) ∧
      result.2.memory.get = Function.update memory.get name (value?.getD (memory.get name)) := by
  cases value? with
  | some value =>
    obtain ⟨hresult, -⟩ := h
    rw [hmemory, hresult]
    exact ⟨by simp, Memory.get_store _ value⟩
  | none =>
    obtain ⟨rejection, hresult⟩ := h
    rw [hmemory, hresult]
    exact ⟨by simp, (Function.update_eq_self name _).symm⟩

/-- The variables after an assignment of what some tokens denote. -/
def assignedValues (name : String) (tokens : List Token) (valueOf : String → Binary64) :
    String → Binary64 :=
  Function.update valueOf name
    ((value? valueOf (⟨.identifier, name⟩ :: ⟨.assign, "="⟩ :: tokens)).getD (valueOf name))

/-- An assignment that is alone on the rest of its line leaves its value in its variable, if it has
one, and the line is used up. -/
theorem evaluate_on_line {calculator : Calculator σ} {name : String} {tokens : List Token}
    (hscan : Token.scan calculator.reader.line.rest =
      ⟨.identifier, name⟩ :: ⟨.assign, "="⟩ :: tokens ++ [⟨.endMark, "@"⟩])
    (htokens : ∀ token ∈ tokens, token.kind ≠ .endMark) (hword : ¬isExitWord name) :
    let later := calculator.evaluate.2
    later.reader.line.next? = none ∧
    later.reader.channel.replies = calculator.reader.channel.replies ∧
    later.memory.get = assignedValues name tokens calculator.memory.get := by
  have hkinds : ∀ token ∈ (⟨.identifier, name⟩ :: ⟨.assign, "="⟩ :: tokens : List Token),
      token.kind ≠ .endMark := by
    simpa using htokens
  have hexit : ¬BeginsWithExit (⟨.identifier, name⟩ :: ⟨.assign, "="⟩ :: tokens) := by
    rintro ⟨token, hhead, -, hexit⟩
    obtain rfl := Option.some.inj hhead
    exact hword hexit
  have hahead := calculator.reader.ahead_eq_append
  rw [hscan, List.append_assoc] at hahead
  have hsettles := settles_evaluate hahead rfl hkinds hexit
  have hmemory := calculator.memory_evaluate
  rw [assigned?_taken hahead hword] at hmemory
  obtain ⟨hgoes, hvalues⟩ := hsettles.get_eq hmemory
  obtain ⟨hover, hreplies⟩ :=
    (calculator.clear.advance_on_line .fresh hscan rfl hkinds).resolve_left hgoes
  exact ⟨hover, hreplies, hvalues⟩

/-- A line that assigns to a variable leaves its value there, if it has one. -/
theorem evaluate_line (calculator : Calculator σ) {text name : String} {tokens : List Token}
    {replies : List Reply} (h : AssignmentLine text name tokens)
    (hline : calculator.reader.line.next? = none)
    (hreplies : calculator.reader.channel.replies = .line text :: replies) :
    let later := calculator.evaluate.2
    later.reader.line.next? = none ∧ later.reader.channel.replies = replies ∧
    later.memory.get = assignedValues name tokens calculator.memory.get := by
  have hfetch := Reader.fetch_line hreplies
  obtain ⟨text', hreplies', hloaded⟩ := Reader.fetch_ok hfetch
  obtain ⟨htext, hleft⟩ := List.cons.inj (hreplies.symm.trans hreplies')
  obtain rfl := Reply.line.inj htext
  rw [evaluate_of_next_eq (Reader.next_of_fetch hline hfetch)]
  exact evaluate_on_line ((Line.scan_load text).trans h.scan) h.noMark h.noExit

/-- A change of a variable makes no difference to an assignment that does not name it. -/
theorem agreeOn_update {name other : String} {tokens : List Token} (hne : name ≠ other)
    (h : ∀ token ∈ tokens, token ≠ ⟨.identifier, other⟩) (valueOf : String → Binary64)
    (value : Binary64) :
    AgreeOn (⟨.identifier, name⟩ :: ⟨.assign, "="⟩ :: tokens) valueOf
      (Function.update valueOf other value) := by
  rintro ⟨kind, text⟩ hmem rfl
  refine Function.update_of_ne ?_ value valueOf
  rintro rfl
  rcases List.mem_cons.1 hmem with heq | hmem
  · exact hne (Token.mk.inj heq).2.symm
  · rcases List.mem_cons.1 hmem with heq | hmem
    · simp at heq
    · exact h _ hmem rfl

/-- Assignments that do not name each other's variable commute. -/
theorem assignedValues_comm {name name' : String} {tokens tokens' : List Token}
    (hne : name ≠ name') (h : ∀ token ∈ tokens, token ≠ ⟨.identifier, name'⟩)
    (h' : ∀ token ∈ tokens', token ≠ ⟨.identifier, name⟩) (valueOf : String → Binary64) :
    assignedValues name' tokens' (assignedValues name tokens valueOf) =
      assignedValues name tokens (assignedValues name' tokens' valueOf) := by
  have hvalue := fun value => value?_congr (agreeOn_update hne h valueOf value)
  have hvalue' := fun value => value?_congr (agreeOn_update hne.symm h' valueOf value)
  simp only [assignedValues, hvalue, hvalue', Function.update_of_ne hne,
    Function.update_of_ne hne.symm]
  exact Function.update_comm hne _ _ _

theorem evaluate_lines {calculator : Calculator σ} {text text' name name' : String}
    {tokens tokens' : List Token} (hline : calculator.reader.line.next? = none)
    (h : AssignmentLine text name tokens) (h' : AssignmentLine text' name' tokens') :
    (calculator.given [text, text']).evaluate.2.evaluate.2.memory.get =
      assignedValues name' tokens' (assignedValues name tokens calculator.memory.get) := by
  obtain ⟨hover, hleft, hvalues⟩ :=
    evaluate_line (calculator.given [text, text']) h hline rfl
  obtain ⟨-, -, hvalues'⟩ := evaluate_line _ h' hover hleft
  exact hvalues'.trans (congrArg _ hvalues)

/-- Calculators with the same reader, whatever their variables and targets and whatever the channel
does, take the same tokens, use the channel alike, and come to a value, to a rejection or to a stop
alike, and to the same value if the variables agree that the tokens name. So of two lines that
assign to different variables, neither naming the variable of the other, the order makes no
difference to the variables where nothing fails, whether or not either line is rejected. -/
theorem control_blind_to_values (σ : Type) [Sink σ] :
    (∀ calculator calculator' : Calculator σ, calculator'.reader = calculator.reader →
      calculator'.taken = calculator.taken ∧
      calculator'.evaluate.1.map Outcome.rejection? = calculator.evaluate.1.map Outcome.rejection? ∧
      calculator'.evaluate.2.reader.unnoted = calculator.evaluate.2.reader.unnoted ∧
      (AgreeOn calculator.taken calculator.memory.get calculator'.memory.get →
        calculator'.evaluate.1 = calculator.evaluate.1)) ∧
    ∀ [Sink.Reliable σ] (calculator : Calculator σ) {text text' name name' : String}
      {tokens tokens' : List Token}, calculator.reader.line.next? = none → name ≠ name' →
      AssignmentLine text name tokens → AssignmentLine text' name' tokens' →
      (∀ token ∈ tokens, token ≠ ⟨.identifier, name'⟩) →
      (∀ token ∈ tokens', token ≠ ⟨.identifier, name⟩) →
      (calculator.given [text, text']).evaluate.2.evaluate.2.memory.get =
        (calculator.given [text', text]).evaluate.2.evaluate.2.memory.get := by
  refine ⟨fun _ _ => evaluate_matched, ?_⟩
  intro _ calculator text text' name name' tokens tokens' hline hne h h' hnames hnames'
  rw [evaluate_lines hline h h', evaluate_lines hline h' h]
  exact assignedValues_comm hne hnames hnames' calculator.memory.get

/-- A division by zero in one calculator and by infinity in another, and a line that is rejected
before or after it. -/
theorem control_blind_to_division_by_zero :
    let calculator : Calculator Paper := .start {} { replies := [], sink := {} }
    let other := { calculator.given ["x = z 1 / @"] with
      memory := { values := [("z", .infinite false)], target := "y" } }
    other.taken = (calculator.given ["x = z 1 / @"]).taken ∧
    other.evaluate.1.map Outcome.rejection? =
      (calculator.given ["x = z 1 / @"]).evaluate.1.map Outcome.rejection? ∧
    other.evaluate.1 ≠ (calculator.given ["x = z 1 / @"]).evaluate.1 ∧
    (calculator.given ["x = z 1 / @", "y = 2 + @"]).evaluate.2.evaluate.2.memory.get =
      (calculator.given ["y = 2 + @", "x = z 1 / @"]).evaluate.2.evaluate.2.memory.get := by
  intro calculator other
  obtain ⟨hblind, hcommute⟩ := control_blind_to_values Paper
  obtain ⟨htaken, houtcome, -, -⟩ := hblind (calculator.given ["x = z 1 / @"]) other rfl
  have hfirst : AssignmentLine "x = z 1 / @" "x"
      [⟨.identifier, "z"⟩, ⟨.number, "1"⟩, ⟨.operator .divide, "/"⟩] :=
    ⟨by decide +kernel, by decide, by decide⟩
  have hsecond : AssignmentLine "y = 2 + @" "y" [⟨.number, "2"⟩, ⟨.operator .add, "+"⟩] :=
    ⟨by decide +kernel, by decide, by decide⟩
  exact ⟨htaken, houtcome, by decide +kernel,
    hcommute calculator rfl (by decide) hfirst hsecond (by decide) (by decide)⟩

end Calculator

end ReversePolish
