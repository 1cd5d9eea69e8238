import ReversePolish.Proofs.TokenByToken

/-!
# Evaluation is blind to values

No value decides how an expression goes on: which tokens are taken, whether there is a result, what
a rejection is for and what is done on the channel is the same for all values of the variables and
of the operands, finite or not. The value of an expression is decided by the values of the names in
it, and no other variable has a part in it.
-/

namespace ReversePolish

def Outcome.rejection? : Outcome → Option Rejection
  | .value _ => none
  | .rejected rejection => some rejection

def Reader.unnoted {σ : Type} (reader : Reader σ) : Reader σ :=
  { reader with channel := { reader.channel with journal := [] } }

/-- Two verdicts that differ in nothing but values. -/
inductive Verdict.Matches : Verdict → Verdict → Prop
  | more (progress : Progress) {operands operands' : Operands}
      (size : operands.size = operands'.size) :
      Matches (.more progress operands) (.more progress operands')
  | retarget (name : String) {operands operands' : Operands}
      (size : operands.size = operands'.size) :
      Matches (.retarget name operands) (.retarget name operands')
  | ignore {operands operands' : Operands} (size : operands.size = operands'.size) :
      Matches (.ignore operands) (.ignore operands')
  | value (value value' : Binary64) (operands operands' : Operands) :
      Matches (.value value operands) (.value value' operands')
  | reject (rejection : Rejection) : Matches (.reject rejection) (.reject rejection)
  | exit : Matches .exit .exit

/-- Variables have the same values wherever some tokens name them. -/
def AgreeOn (tokens : List Token) (valueOf valueOf' : String → Binary64) : Prop :=
  ∀ token ∈ tokens, token.kind = .identifier → valueOf' token.text = valueOf token.text

namespace Progress

variable {valueOf valueOf' : String → Binary64} {operands operands' : Operands}
  {progress : Progress}

/-- As many operands come to the same but for values. -/
theorem operate_matches (size : operands.size = operands'.size) (token : Token) :
    (operate valueOf operands token).Matches (operate valueOf' operands' token) := by
  obtain ⟨kind, text⟩ := token
  cases kind with
  | number =>
    dsimp only [operate]
    cases numberValue text with
    | ok value => exact .more .body (congrArg (· + 1) size)
    | error rejection => exact .reject rejection
  | identifier => exact .more .body (congrArg (· + 1) size)
  | assign => exact .ignore size
  | invalid => exact .reject _
  | negate =>
    match operands, operands', size with
    | ⟨[]⟩, ⟨[]⟩, _ => exact .reject _
    | ⟨_ :: _⟩, ⟨_ :: _⟩, size => exact .more .body size
  | operator op =>
    match operands, operands', size with
    | ⟨[]⟩, ⟨[]⟩, _ | ⟨[_]⟩, ⟨[_]⟩, _ => exact .reject _
    | ⟨_ :: _ :: _⟩, ⟨_ :: _ :: _⟩, size => exact .more .body (Nat.add_right_cancel size)
  | endMark =>
    match operands, operands', size with
    | ⟨[]⟩, ⟨[]⟩, _ => exact .reject _
    | ⟨[value]⟩, ⟨[value']⟩, _ => exact .value value value' _ _
    | ⟨first :: second :: values⟩, ⟨first' :: second' :: values'⟩, size =>
      change Verdict.Matches
        (.reject (.tooManyOperands (Operands.size ⟨first :: second :: values⟩)))
        (.reject (.tooManyOperands (Operands.size ⟨first' :: second' :: values'⟩)))
      rw [size]
      exact .reject _

theorem step_matches (progress : Progress) (size : operands.size = operands'.size)
    (token : Token) :
    (progress.step valueOf operands token).Matches (progress.step valueOf' operands' token) := by
  cases progress with
  | fresh =>
    by_cases hkind : token.kind = .identifier
    · by_cases hword : isExitWord token.text
      · simp only [Progress.step, hkind, hword, if_true]
        exact .exit
      · simp only [Progress.step, hkind, hword, if_true]
        exact .more (.named _) (congrArg (· + 1) size)
    · simp only [Progress.step, hkind, if_false]
      exact operate_matches size token
  | named name =>
    have hoperand : (operate valueOf operands token).Matches (operate valueOf' operands' token) :=
      operate_matches size token
    obtain ⟨kind, text⟩ := token
    cases kind with
    | assign =>
      obtain ⟨values⟩ := operands
      obtain ⟨values'⟩ := operands'
      cases values with
      | nil =>
        obtain rfl := List.length_eq_zero_iff.1 size.symm
        exact .reject _
      | cons value values =>
        obtain ⟨value', later, rfl⟩ := List.exists_cons_of_length_eq_add_one size.symm
        exact .retarget name (Nat.add_right_cancel size)
    | operator | invalid => exact .reject _
    | number | identifier | negate | endMark => exact hoperand
  | assigned name =>
    by_cases hkind : token.kind = .endMark
    · simp only [Progress.step, hkind, if_true]
      exact operate_matches (congrArg (· + 1) size) token
    · simp only [Progress.step, hkind, if_false]
      exact operate_matches size token
  | body => exact operate_matches size token

theorem operate_congr (operands : Operands) {token : Token}
    (h : token.kind = .identifier → valueOf' token.text = valueOf token.text) :
    operate valueOf' operands token = operate valueOf operands token := by
  unfold operate
  split
  case h_2 hkind => rw [h hkind]
  all_goals rfl

/-- A step reads no variable but those that the tokens so far name. -/
theorem step_congr {before : List Token} {token : Token}
    (hreads : progress.Reads operands before) (h : AgreeOn (before ++ [token]) valueOf valueOf') :
    progress.step valueOf' operands token = progress.step valueOf operands token := by
  have hname := h token (by simp)
  have htoken (operands : Operands) := operate_congr operands hname
  cases progress with
  | fresh =>
    by_cases hkind : token.kind = .identifier
    · simp only [step, htoken, hname hkind]
    · simp only [step, htoken, hkind, if_false]
  | named name => simp only [step, htoken]
  | assigned name =>
    obtain ⟨-, text, rfl⟩ := hreads
    have hassigned : valueOf' name = valueOf name := h ⟨.identifier, name⟩ (by simp) rfl
    simp only [step, hassigned, htoken]
  | body => exact htoken operands

end Progress

namespace Calculator

variable {σ : Type} [Sink σ]

/-- Two evaluations that have come to the same but for values. -/
structure Matched (result result' : Except Stop Outcome × Calculator σ) : Prop where
  outcome : result'.1.map Outcome.rejection? = result.1.map Outcome.rejection?
  reader : result'.2.reader.unnoted = result.2.reader.unnoted
  tokens : result'.2.tokens = result.2.tokens

variable {calculator calculator' : Calculator σ} {progress : Progress}

omit [Sink σ] in
theorem matched_of_reader (result : Except Stop Outcome)
    (h : calculator'.reader = calculator.reader) :
    Matched (result, calculator) (result, calculator') :=
  ⟨rfl, congrArg Reader.unnoted h, congrArg
    (fun reader => reader.channel.journal.reverse.filterMap Event.token?) h⟩

theorem reader_reject (h : calculator'.reader = calculator.reader) (rejection : Rejection) :
    (calculator'.reject rejection).1 = (calculator.reject rejection).1 ∧
      (calculator'.reject rejection).2.reader = (calculator.reject rejection).2.reader := by
  dsimp only [reject]
  rw [h]
  split <;> exact ⟨rfl, rfl⟩

theorem heed_matched (calculator calculator' : Calculator σ)
    (hreader : calculator'.reader = calculator.reader)
    (hsize : calculator.operands.size = calculator'.operands.size) (progress : Progress)
    (token : Token) :
    Sum.LiftRel Matched
      (fun next next' => next'.1.reader = next.1.reader ∧
        next.1.operands.size = next'.1.operands.size ∧ next'.2 = next.2)
      (calculator.heed progress token) (calculator'.heed progress token) := by
  unfold heed
  generalize hstep : progress.step calculator.memory.get calculator.operands token = verdict
  generalize hstep' : progress.step calculator'.memory.get calculator'.operands token = verdict'
  have hverdict : verdict.Matches verdict' := hstep ▸ hstep' ▸ progress.step_matches hsize token
  cases hverdict with
  | more progress size => exact .inr ⟨hreader, size, rfl⟩
  | retarget name size => exact .inr ⟨congrArg (·.note (.retargeted name)) hreader, size, rfl⟩
  | ignore size => exact .inr ⟨congrArg (·.note .assignIgnored) hreader, size, rfl⟩
  | value value value' operands operands' =>
    have hmatched := matched_of_reader (.ok (.value value)) hreader
    refine .inl ⟨rfl, hmatched.reader, ?_⟩
    change (calculator'.store value').tokens = (calculator.store value).tokens
    rw [store, store, tokens_note _ rfl, tokens_note _ rfl]
    exact hmatched.tokens
  | reject rejection =>
    obtain ⟨hresult, hreport⟩ := reader_reject hreader rejection
    refine .inl ?_
    rw [← Prod.mk.eta (p := calculator'.reject rejection), hresult]
    exact matched_of_reader _ hreport
  | exit => exact .inl (matched_of_reader _ hreader)

/-- Evaluations that go on with as many operands come to the same but for values. -/
theorem advance_matched (hreader : calculator'.reader = calculator.reader)
    (hsize : calculator.operands.size = calculator'.operands.size) (progress : Progress) :
    Matched (calculator.advance progress) (calculator'.advance progress) := by
  revert calculator'
  refine advance_induction (motive := fun calculator progress result =>
    ∀ {calculator' : Calculator σ}, calculator'.reader = calculator.reader →
      calculator.operands.size = calculator'.operands.size →
      Matched result (calculator'.advance progress))
    ?stop ?done ?more calculator progress
  case stop =>
    intro calculator progress cause reader hnext calculator' hreader hsize
    rw [advance_of_stop (hreader ▸ hnext)]
    exact matched_of_reader _ rfl
  case done =>
    intro calculator progress token reader result hnext hheed calculator' hreader hsize
    have hnext' : calculator'.reader.next = (.ok token, reader) := hreader ▸ hnext
    have hmatched := heed_matched { calculator with reader } { calculator' with reader } rfl
      hsize progress token
    rw [hheed] at hmatched
    generalize hheed' : heed { calculator' with reader } progress token = later at hmatched
    cases hmatched with
    | inl hdone =>
      rw [advance_of_done hnext' hheed']
      exact hdone
  case more =>
    intro calculator progress token reader next stage hnext hheed ih calculator' hreader hsize
    have hnext' : calculator'.reader.next = (.ok token, reader) := hreader ▸ hnext
    have hmatched := heed_matched { calculator with reader } { calculator' with reader } rfl
      hsize progress token
    rw [hheed] at hmatched
    generalize hheed' : heed { calculator' with reader } progress token = later at hmatched
    cases hmatched with
    | @inr _ later hmore =>
      obtain ⟨later, stage'⟩ := later
      obtain ⟨hlater, hsize', rfl⟩ := hmore
      rw [advance_of_more hnext' hheed']
      exact ih hlater hsize'

theorem takenBy_matched (hreader : calculator'.reader = calculator.reader)
    (hsize : calculator.operands.size = calculator'.operands.size) (progress : Progress) :
    calculator'.takenBy progress = calculator.takenBy progress := by
  have hbefore : calculator'.tokens = calculator.tokens :=
    (matched_of_reader (.error (.ended .exit)) hreader).tokens
  rw [takenBy, takenBy, (advance_matched hreader hsize progress).tokens, hbefore]

theorem heed_congr (calculator calculator' : Calculator σ) {token : Token}
    (hreader : calculator'.reader = calculator.reader)
    (hoperands : calculator'.operands = calculator.operands)
    (hstep : progress.step calculator'.memory.get calculator.operands token =
      progress.step calculator.memory.get calculator.operands token) :
    Sum.LiftRel (fun result result' => result'.1 = result.1)
      (fun next next' => next'.1.reader = next.1.reader ∧
        next'.1.operands = next.1.operands ∧ next'.2 = next.2 ∧
        next.1.memory.get = calculator.memory.get ∧ next'.1.memory.get = calculator'.memory.get)
      (calculator.heed progress token) (calculator'.heed progress token) := by
  unfold heed
  rw [hoperands, hstep]
  cases progress.step calculator.memory.get calculator.operands token with
  | more later operands => exact .inr ⟨hreader, rfl, rfl, rfl, rfl⟩
  | retarget name operands =>
    exact .inr ⟨congrArg (·.note (.retargeted name)) hreader, rfl, rfl, rfl, rfl⟩
  | ignore operands => exact .inr ⟨congrArg (·.note .assignIgnored) hreader, rfl, rfl, rfl, rfl⟩
  | value value operands => exact .inl rfl
  | reject rejection => exact .inl (reader_reject hreader rejection).1
  | exit => exact .inl rfl

/-- The result is the same wherever the variables agree that the tokens so far and those that are
taken name. -/
theorem advance_congr (before : List Token) (hreader : calculator'.reader = calculator.reader)
    (hoperands : calculator'.operands = calculator.operands)
    (hreads : progress.Reads calculator.operands before)
    (hagree : AgreeOn (before ++ calculator.takenBy progress) calculator.memory.get
      calculator'.memory.get) :
    (calculator'.advance progress).1 = (calculator.advance progress).1 := by
  revert calculator' before
  refine advance_induction (motive := fun calculator progress result =>
    ∀ {calculator' : Calculator σ} (before : List Token), calculator'.reader = calculator.reader →
      calculator'.operands = calculator.operands → progress.Reads calculator.operands before →
      AgreeOn (before ++ calculator.takenBy progress) calculator.memory.get
        calculator'.memory.get → (calculator'.advance progress).1 = result.1)
    ?stop ?done ?more calculator progress
  case stop =>
    intro calculator progress cause reader hnext calculator' before hreader hoperands hreads hagree
    rw [advance_of_stop (hreader ▸ hnext)]
  case done =>
    intro calculator progress token reader result hnext hheed calculator' before hreader hoperands
      hreads hagree
    have hnext' : calculator'.reader.next = (.ok token, reader) := hreader ▸ hnext
    rw [takenBy_of_done hnext hheed] at hagree
    have hsame := heed_congr { calculator with reader } { calculator' with reader } rfl hoperands
      (Progress.step_congr hreads hagree)
    rw [hheed] at hsame
    generalize hheed' : heed { calculator' with reader } progress token = later at hsame
    cases hsame with
    | inl hdone =>
      rw [advance_of_done hnext' hheed']
      exact hdone
  case more =>
    intro calculator progress token reader next stage hnext hheed ih calculator' before hreader
      hoperands hreads hagree
    have hnext' : calculator'.reader.next = (.ok token, reader) := hreader ▸ hnext
    rw [takenBy_of_more hnext hheed, List.append_cons] at hagree
    have htoken : AgreeOn (before ++ [token]) calculator.memory.get calculator'.memory.get :=
      fun found hfound => hagree found (List.mem_append_left _ hfound)
    have hsame := heed_congr { calculator with reader } { calculator' with reader } rfl hoperands
      (Progress.step_congr hreads htoken)
    rw [hheed] at hsame
    generalize hheed' : heed { calculator' with reader } progress token = later at hsame
    cases hsame with
    | @inr _ later hmore =>
      obtain ⟨later, stage'⟩ := later
      obtain ⟨hlater, hset, rfl, hget, hget'⟩ := hmore
      dsimp only at hlater hset hget hget'
      rw [advance_of_more hnext' hheed']
      refine ih _ hlater hset (reads_of_more hheed hreads (Reader.readable_of_next hnext)) ?_
      rw [hget, hget']
      exact hagree

/-- Calculators with the same reader take the same tokens, use the channel alike, and come to a
value, to a rejection or to a stop alike, whatever their variables and targets. If the variables
that the tokens name have the same values, the two come to the same value. -/
theorem evaluate_matched (hreader : calculator'.reader = calculator.reader) :
    calculator'.taken = calculator.taken ∧
    calculator'.evaluate.1.map Outcome.rejection? = calculator.evaluate.1.map Outcome.rejection? ∧
    calculator'.evaluate.2.reader.unnoted = calculator.evaluate.2.reader.unnoted ∧
    (AgreeOn calculator.taken calculator.memory.get calculator'.memory.get →
      calculator'.evaluate.1 = calculator.evaluate.1) := by
  have hcleared : calculator'.clear.reader = calculator.clear.reader := hreader
  have hmatched : Matched calculator.evaluate calculator'.evaluate :=
    advance_matched hcleared rfl .fresh
  exact ⟨takenBy_matched hcleared rfl .fresh, hmatched.outcome, hmatched.reader,
    advance_congr [] hcleared rfl ⟨rfl, rfl⟩⟩

end Calculator

end ReversePolish
