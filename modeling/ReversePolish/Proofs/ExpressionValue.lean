import ReversePolish.Calculator
import ReversePolish.Proofs.PostfixGrammar
import ReversePolish.Proofs.ReliableSink
import ReversePolish.Proofs.TokensAhead

/-!
# The value of an expression

What evaluating an expression comes to, said of the tokens ahead up to the first end mark. An
assignment without a value denotes the present value of its variable. Everything else denotes the
value that it has by the grammar, without its equals signs, and is refused if it has none. The
calculator may be in any state whatever when it begins.
-/

namespace ReversePolish

/-- The variable of an assignment, and the tokens of the value to be assigned. -/
def assignment? : List Token → Option (String × List Token)
  | ⟨.identifier, name⟩ :: ⟨.assign, _⟩ :: tokens => some (name, tokens)
  | _ => none

/-- The value of the tokens before an end mark, `valueOf` giving the values of variables. -/
def Denotes (valueOf : String → Binary64) (tokens : List Token) (value : Binary64) : Prop :=
  match assignment? tokens with
  | some (name, tokens) =>
    tokens = [] ∧ value = valueOf name ∨ Postfix valueOf (tokens.filter (·.kind ≠ .assign)) value
  | none => Postfix valueOf (tokens.filter (·.kind ≠ .assign)) value

def value? (valueOf : String → Binary64) (tokens : List Token) : Option Binary64 :=
  match assignment? tokens with
  | some (name, []) => some (valueOf name)
  | some (_, tokens) | none => (({} : Operands).run? valueOf tokens).bind Operands.single?

theorem value?_eq_some_iff {valueOf : String → Binary64} {tokens : List Token} {value : Binary64} :
    value? valueOf tokens = some value ↔ Denotes valueOf tokens value := by
  unfold value? Denotes
  have hempty : ¬Postfix valueOf [] value := by
    rw [← List.filter_nil, ← Operands.run?_single_iff]
    simp [Operands.single?]
  split
  · next hassign =>
    rw [hassign]
    simp [hempty, eq_comm]
  · next name tokens' hne hassign =>
    rw [hassign, Operands.run?_single_iff]
    have hnil : tokens' ≠ [] := by
      rintro rfl
      exact hne rfl
    simp [hnil]
  · next hassign =>
    rw [hassign, Operands.run?_single_iff]

def BeginsWithExit (tokens : List Token) : Prop :=
  ∃ token, tokens.head? = some token ∧ token.IsExit

namespace Calculator

variable {σ : Type}

/-- An evaluation has come to the value there is, right before some tokens, or to a rejection if
there is none. -/
def Settles [Sink σ] (result : Except Stop Outcome × Calculator σ) (rest : List Token) :
    Option Binary64 → Prop
  | some value => result.1 = .ok (.value value) ∧ result.2.reader.ahead = rest
  | none => ∃ rejection, result.1 = .ok (.rejected rejection)

theorem settles_value [Sink σ] {calculator : Calculator σ} {value : Binary64} {rest : List Token}
    (h : calculator.reader.ahead = rest) :
    Settles (.ok (.value value), calculator.store value) rest (some value) :=
  ⟨rfl, (Reader.ahead_note _ _).trans h⟩

variable [Sink σ] [Sink.Reliable σ]

theorem settles_reject (calculator : Calculator σ) (rejection : Rejection) (rest : List Token) :
    Settles (calculator.reject rejection) rest none :=
  ⟨rejection, by rw [reject_ok]⟩

theorem settles_endMark {calculator : Calculator σ} {mark : Token} {rest : List Token}
    (h : calculator.reader.ahead = mark :: rest) (hmark : mark.kind = .endMark) :
    Settles (calculator.advance .body) rest calculator.operands.single? := by
  obtain ⟨reader, hnext, hrest⟩ := Reader.next_of_ahead h
  rw [advance_of_token hnext]
  obtain ⟨before, memory, farewell, ⟨values⟩⟩ := calculator
  simp only [Progress.step, Progress.operate, hmark]
  cases values with
  | nil => exact settles_reject _ _ _
  | cons value below =>
    cases below with
    | nil => exact settles_value hrest
    | cons second below => exact settles_reject _ _ _

/-- What a token that does not end the expression makes of the operands. -/
theorem operate_cases (valueOf : String → Binary64) (operands : Operands) {token : Token}
    (h : token.kind ≠ .endMark) :
    (∃ operands', Progress.operate valueOf operands token = .more .body operands') ∨
    Progress.operate valueOf operands token = .ignore operands ∨
    ∃ rejection, Progress.operate valueOf operands token = .reject rejection := by
  have hof : ∀ result : Except Rejection Operands,
      (∃ operands', Verdict.ofOperands result = .more .body operands') ∨
        Verdict.ofOperands result = .ignore operands ∨
        ∃ rejection, Verdict.ofOperands result = .reject rejection := by
    intro result
    cases result with
    | ok operands' => exact .inl ⟨operands', rfl⟩
    | error rejection => exact .inr (.inr ⟨rejection, rfl⟩)
  obtain ⟨kind, text⟩ := token
  cases kind with
  | endMark => exact absurd rfl h
  | assign => exact .inr (.inl rfl)
  | invalid => exact .inr (.inr ⟨_, rfl⟩)
  | identifier => exact .inl ⟨_, rfl⟩
  | number | negate | operator => exact hof _

/-- Past the beginning of an expression its value is what the tokens make of the operands. The
induction is on the tokens before the end mark. -/
theorem settles_body (calculator : Calculator σ) {mark : Token} {tokens rest : List Token}
    (h : calculator.reader.ahead = tokens ++ mark :: rest) (hmark : mark.kind = .endMark)
    (htokens : ∀ token ∈ tokens, token.kind ≠ .endMark) :
    Settles (calculator.advance .body) rest
      ((calculator.operands.run? calculator.memory.get tokens).bind Operands.single?) := by
  induction tokens generalizing calculator with
  | nil => exact settles_endMark h hmark
  | cons token tokens ih =>
    obtain ⟨reader, hnext, hahead⟩ := Reader.next_of_ahead h
    obtain ⟨htoken, hmore⟩ := List.forall_mem_cons.1 htokens
    rw [advance_of_token hnext, Operands.run?, Progress.step]
    rcases operate_cases calculator.memory.get calculator.operands htoken with
      ⟨operands, hstep⟩ | hstep | ⟨rejection, hstep⟩
    · rw [hstep]
      exact ih { calculator with reader, operands } hahead hmore
    · rw [hstep]
      exact ih ({ calculator with reader }.note .assignIgnored)
        ((Reader.ahead_note _ _).trans hahead) hmore
    · rw [hstep]
      exact settles_reject _ _ _

omit [Sink.Reliable σ] in
/-- Two stages of an expression for which the next token means the same settle alike. -/
theorem settles_of_step_eq {calculator : Calculator σ} {progress progress' : Progress}
    {token : Token} {tokens rest : List Token} {value : Option Binary64}
    (h : calculator.reader.ahead = token :: tokens)
    (hstep : progress.step calculator.memory.get calculator.operands token =
      progress'.step calculator.memory.get calculator.operands token)
    (hsettles : Settles (calculator.advance progress') rest value) :
    Settles (calculator.advance progress) rest value := by
  obtain ⟨reader, hnext, -⟩ := Reader.next_of_ahead h
  rw [advance_of_token hnext] at hsettles ⊢
  rw [hstep]
  exact hsettles

/-- After a name and an equals sign the expression has the value of what follows, and of the
variable if nothing follows. -/
theorem settles_assigned (calculator : Calculator σ) {name text : String} {mark : Token}
    {tokens rest : List Token} (hoperands : calculator.operands = {})
    (h : calculator.reader.ahead = tokens ++ mark :: rest)
    (hmark : mark.kind = .endMark) (htokens : ∀ token ∈ tokens, token.kind ≠ .endMark) :
    Settles (calculator.advance (.assigned name)) rest
      (value? calculator.memory.get (⟨.identifier, name⟩ :: ⟨.assign, text⟩ :: tokens)) := by
  cases tokens with
  | nil =>
    obtain ⟨reader, hnext, hrest⟩ := Reader.next_of_ahead h
    rw [advance_of_token hnext]
    simp only [Progress.step, Progress.operate, hmark, if_pos, hoperands]
    exact settles_value hrest
  | cons token tokens =>
    have htoken := htokens token List.mem_cons_self
    have hbody := settles_body calculator h hmark htokens
    rw [hoperands] at hbody
    refine settles_of_step_eq h ?_ hbody
    simp only [Progress.step, htoken, if_false]

/-- After a leading name the expression has the value of the name and what follows. -/
theorem settles_named (calculator : Calculator σ) {name : String} {mark : Token}
    {tokens rest : List Token} (hoperands : calculator.operands = ⟨[calculator.memory.get name]⟩)
    (h : calculator.reader.ahead = tokens ++ mark :: rest)
    (hmark : mark.kind = .endMark) (htokens : ∀ token ∈ tokens, token.kind ≠ .endMark) :
    Settles (calculator.advance (.named name)) rest
      (value? calculator.memory.get (⟨.identifier, name⟩ :: tokens)) := by
  have hbody := settles_body calculator h hmark htokens
  rw [hoperands] at hbody
  cases tokens with
  | nil =>
    refine settles_of_step_eq h ?_ hbody
    simp only [Progress.step, hmark]
  | cons token tokens =>
    obtain ⟨reader, hnext, hahead⟩ := Reader.next_of_ahead h
    obtain ⟨htoken, hmore⟩ := List.forall_mem_cons.1 htokens
    obtain ⟨kind, text⟩ := token
    cases kind with
    | assign =>
      rw [advance_of_token hnext, Progress.step, hoperands]
      exact settles_assigned ({ calculator with reader, operands := {} }.retarget name) rfl
        ((Reader.ahead_note _ _).trans hahead) hmark hmore
    | endMark => exact absurd rfl htoken
    | operator op =>
      rw [advance_of_token hnext]
      exact settles_reject _ _ _
    | invalid =>
      rw [advance_of_token hnext]
      exact settles_reject _ _ _
    | number | identifier | negate =>
      refine settles_of_step_eq h ?_ hbody
      rfl

/-- An expression that does not begin with the exit word settles on the value that it has. -/
theorem settles_evaluate {calculator : Calculator σ} {mark : Token} {tokens rest : List Token}
    (h : calculator.reader.ahead = tokens ++ mark :: rest) (hmark : mark.kind = .endMark)
    (htokens : ∀ token ∈ tokens, token.kind ≠ .endMark) (hexit : ¬BeginsWithExit tokens) :
    Settles calculator.evaluate rest (value? calculator.memory.get tokens) := by
  change calculator.clear.reader.ahead = _ at h
  have hbody := settles_body calculator.clear h hmark htokens
  rw [evaluate]
  cases tokens with
  | nil =>
    refine settles_of_step_eq h ?_ hbody
    simp [Progress.step, hmark]
  | cons token tokens =>
    obtain ⟨kind, text⟩ := token
    by_cases hkind : kind = .identifier
    · subst hkind
      obtain ⟨reader, hnext, hahead⟩ := Reader.next_of_ahead h
      have hword : ¬isExitWord text := fun hword => hexit ⟨_, rfl, rfl, hword⟩
      rw [advance_of_token hnext]
      simp only [Progress.step, if_pos, hword]
      exact settles_named { calculator with reader, operands := ⟨[calculator.memory.get text]⟩ } rfl
        hahead hmark (List.forall_mem_cons.1 htokens).2
    · have hassign : assignment? (⟨kind, text⟩ :: tokens) = none := by
        rw [assignment?.eq_def]
        split
        · next heq =>
          obtain ⟨hhead, -⟩ := List.cons.inj heq
          exact absurd (congrArg Token.kind hhead) hkind
        · rfl
      rw [value?, hassign]
      refine settles_of_step_eq h ?_ hbody
      simp only [Progress.step, hkind, if_false]

omit [Sink.Reliable σ] in
/-- An expression that begins with the exit word ends the session. -/
theorem evaluate_exit {calculator : Calculator σ} {tokens rest : List Token}
    (h : calculator.reader.ahead = tokens ++ rest) (hexit : BeginsWithExit tokens) :
    calculator.evaluate.1 = .error (.ended .exit) := by
  obtain ⟨⟨kind, text⟩, hhead, rfl, hword⟩ := hexit
  obtain ⟨tokens, rfl⟩ := List.head?_eq_some_iff.1 hhead
  change calculator.clear.reader.ahead = _ at h
  obtain ⟨reader, hnext, -⟩ := Reader.next_of_ahead h
  rw [evaluate, advance_of_token hnext]
  simp only [Progress.step, if_pos, hword]

/-- An expression that begins with the exit word ends the session. Any other yields the value that
its tokens denote, with all tokens up to the end mark taken, and is refused if they denote none. -/
theorem evaluate_denotes (calculator : Calculator σ) {tokens rest : List Token} {mark : Token}
    (h : calculator.reader.ahead = tokens ++ mark :: rest) (hmark : mark.kind = .endMark)
    (htokens : ∀ token ∈ tokens, token.kind ≠ .endMark) :
    (BeginsWithExit tokens → calculator.evaluate.1 = .error (.ended .exit)) ∧
    (¬BeginsWithExit tokens →
      (∀ value, calculator.evaluate.1 = .ok (.value value) ↔
        Denotes calculator.memory.get tokens value) ∧
      (∀ value, Denotes calculator.memory.get tokens value →
        calculator.evaluate.2.reader.ahead = rest) ∧
      ((∀ value, ¬Denotes calculator.memory.get tokens value) →
        ∃ rejection, calculator.evaluate.1 = .ok (.rejected rejection))) := by
  refine ⟨evaluate_exit h, fun hexit => ?_⟩
  have hsettles := settles_evaluate h hmark htokens hexit
  simp only [← value?_eq_some_iff]
  cases hvalue : value? calculator.memory.get tokens with
  | none =>
    rw [hvalue] at hsettles
    obtain ⟨rejection, hresult⟩ := hsettles
    simp [hresult]
  | some value =>
    rw [hvalue] at hsettles
    obtain ⟨hresult, hrest⟩ := hsettles
    simp [hresult, hrest]

/-- An assignment over two lines, with an equals sign too many and with more tokens after it. -/
theorem evaluate_over_two_lines :
    let replies := [.line "x = 2 3 =", .line "- @ x ~"]
    let calculator : Calculator Paper := .start {} { replies, sink := {} }
    calculator.evaluate.1 = .ok (.value (.ofBits 0x3ff0000000000000)) ∧
      calculator.evaluate.2.reader.ahead = [⟨.identifier, "x"⟩, ⟨.negate, "~"⟩] := by
  intro replies calculator
  have hahead : calculator.reader.ahead =
      [⟨.identifier, "x"⟩, ⟨.assign, "="⟩, ⟨.number, "2"⟩, ⟨.number, "3"⟩, ⟨.assign, "="⟩,
        ⟨.operator .subtract, "-"⟩] ++
        ⟨.endMark, "@"⟩ :: [⟨.identifier, "x"⟩, ⟨.negate, "~"⟩] := by
    decide +kernel
  have hevaluate := (evaluate_denotes calculator hahead rfl (by decide)).2 (by
    rintro ⟨token, hhead, -, hword⟩
    obtain rfl := Option.some.inj hhead
    exact absurd hword (by decide))
  have hdenotes := value?_eq_some_iff.1 (show value? calculator.memory.get
    [⟨.identifier, "x"⟩, ⟨.assign, "="⟩, ⟨.number, "2"⟩, ⟨.number, "3"⟩, ⟨.assign, "="⟩,
      ⟨.operator .subtract, "-"⟩] = some (.ofBits 0x3ff0000000000000) by decide +kernel)
  exact ⟨(hevaluate.1 _).2 hdenotes, hevaluate.2.1 _ hdenotes⟩

end Calculator

end ReversePolish
