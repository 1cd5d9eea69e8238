import ReversePolish.Proofs.PromptedReads
import ReversePolish.Proofs.TokenByToken
import ReversePolish.Proofs.VariableHistory

/-!
# How variables get their names

An evaluation moves the target only to a name that the tokens it takes begin to assign to, and
changes no variable but the target, and that only by its value. This is so wherever the evaluation
stops, also where the target has moved before a rejection or a failure. So all that is ever the
target, or has ever been stored to, is named as the target was at the start or by a name that can be
assigned to.
-/

namespace ReversePolish

structure Assignable (name : String) : Prop where
  isName : IsName name.toList
  noExit : ¬isExitWord name

def assigned? (tokens : List Token) : Option String := (assignment? tokens).map Prod.fst

theorem assigned?_eq_some_iff {tokens : List Token} {name : String} :
    assigned? tokens = some name ↔
      ∃ text rest, tokens = ⟨.identifier, name⟩ :: ⟨.assign, text⟩ :: rest := by
  constructor
  · intro h
    obtain ⟨⟨found, rest⟩, hassign, rfl⟩ := Option.map_eq_some_iff.1 h
    obtain ⟨text, htokens⟩ := assignment?_eq_some_iff.1 hassign
    exact ⟨text, rest, htokens⟩
  · rintro ⟨text, rest, rfl⟩
    rfl

theorem assigned?_concat {before : List Token} {token : Token}
    (h : IsLeadingName before → token.kind ≠ .assign) :
    assigned? (before ++ [token]) = assigned? before := by
  rw [assigned?, assignment?_concat h, Option.map_map]
  rfl

/-- After a name alone an equals sign moves the target, and nothing else does. -/
theorem Progress.assigned?_of_step (valueOf : String → Binary64) (token : Token)
    {progress : Progress} {operands : Operands} {before : List Token}
    (hreads : progress.Reads operands before)
    (h : ∀ name later, progress.step valueOf operands token ≠ .retarget name later) :
    assigned? (before ++ [token]) = assigned? before := by
  refine assigned?_concat fun hleading hkind => ?_
  cases progress with
  | fresh => exact not_isLeadingName_nil (hreads.2 ▸ hleading)
  | named name =>
    obtain ⟨value, rfl⟩ := hreads.operands_of_named
    exact h name {} (by simp [step, hkind, Operands.pop])
  | assigned name =>
    obtain ⟨-, text, rfl⟩ := hreads
    simp [IsLeadingName] at hleading
  | body => exact hreads.2.2.1 hleading

namespace Memory

def assign (memory : Memory) (name? : Option String) : Memory :=
  memory.retarget (name?.getD memory.target)

/-- The memory with the result of an evaluation stored, if that is a value. -/
def keep (memory : Memory) : Except Stop Outcome → Memory
  | .ok (.value value) => memory.store value
  | .ok (.rejected _) | .error _ => memory

/-- The target and the variables that have been stored to are named as the target was at the start
or by names that can be assigned to. -/
structure Named (standard : String) (memory : Memory) : Prop where
  target : memory.target = standard ∨ Assignable memory.target
  stored : ∀ entry ∈ memory.values, entry.1 = standard ∨ Assignable entry.1

variable {memory : Memory} {standard : String}

theorem keep_of_ne_value {result : Except Stop Outcome} (h : ∀ value, result ≠ .ok (.value value)) :
    memory.keep result = memory := by
  unfold keep
  split
  · next value => exact absurd rfl (h value)
  · rfl
  · rfl

@[simp] theorem target_keep (memory : Memory) (result : Except Stop Outcome) :
    (memory.keep result).target = memory.target := by
  unfold keep
  split <;> rfl

theorem Named.assign (h : memory.Named standard) {name? : Option String}
    (hname : ∀ name ∈ name?, Assignable name) : (memory.assign name?).Named standard where
  target := by
    cases name? with
    | none => exact h.target
    | some name => exact .inr (hname name rfl)
  stored := h.stored

theorem Named.store (h : memory.Named standard) (value : Binary64) :
    (memory.store value).Named standard where
  target := h.target
  stored entry hentry := by
    rcases List.mem_cons.1 hentry with rfl | hearlier
    · exact h.target
    · exact h.stored entry (List.mem_of_mem_filter hearlier)

theorem Named.keep (h : memory.Named standard) (result : Except Stop Outcome) :
    (memory.keep result).Named standard := by
  unfold Memory.keep
  split
  · exact h.store _
  · exact h
  · exact h

end Memory

namespace Calculator

variable {σ : Type} [Sink σ]

/-- What a token does to the memory of a calculator that has come so far by assigning what the
tokens before it assign to. -/
theorem memory_heed (calculator : Calculator σ) {memory : Memory} {before : List Token}
    {progress : Progress} {token : Token} (hreads : progress.Reads calculator.operands before)
    (hreadable : token.Readable) (hmemory : calculator.memory = memory.assign (assigned? before)) :
    (calculator.heed progress token).elim
      (fun result =>
        result.2.memory = (memory.assign (assigned? (before ++ [token]))).keep result.1)
      fun next => next.1.memory = memory.assign (assigned? (before ++ [token])) := by
  have hsame := Progress.assigned?_of_step calculator.memory.get token hreads
  unfold heed
  cases hstep : progress.step calculator.memory.get calculator.operands token with
  | retarget name operands =>
    have hfits := step_fits calculator.memory.get hreads hreadable
    rw [hstep] at hfits
    obtain ⟨-, -, text, htokens⟩ := hfits
    rw [htokens]
    change calculator.memory.retarget name = _
    rw [hmemory]
    rfl
  | more progress' operands =>
    rw [hstep] at hsame
    rw [hsame (by simp)]
    exact hmemory
  | ignore operands =>
    rw [hstep] at hsame
    rw [hsame (by simp)]
    exact hmemory
  | value value operands =>
    rw [hstep] at hsame
    rw [hsame (by simp), ← hmemory]
    rfl
  | reject rejection =>
    rw [hstep] at hsame
    rw [hsame (by simp), ← hmemory]
    exact (memory_reject _ _).trans (Memory.keep_of_ne_value (reject_ne_value _ _)).symm
  | exit =>
    rw [hstep] at hsame
    rw [hsame (by simp)]
    exact hmemory

/-- Evaluating the rest of an expression assigns to what its tokens, with those before them, assign
to, and keeps its value. -/
theorem memory_advance (memory : Memory) (calculator : Calculator σ) (progress : Progress) :
    ∀ before, progress.Reads calculator.operands before →
      calculator.memory = memory.assign (assigned? before) →
      (calculator.advance progress).2.memory =
        (memory.assign (assigned? (before ++ calculator.takenBy progress))).keep
          (calculator.advance progress).1 := by
  refine advance_induction (motive := fun calculator progress result =>
    ∀ before, progress.Reads calculator.operands before →
      calculator.memory = memory.assign (assigned? before) →
      result.2.memory =
        (memory.assign (assigned? (before ++ calculator.takenBy progress))).keep result.1)
    ?stop ?done ?more calculator progress
  case stop =>
    intro calculator progress cause reader hnext before hreads hmemory
    rw [takenBy_of_stop hnext, List.append_nil]
    exact hmemory
  case done =>
    intro calculator progress token reader result hnext hheed before hreads hmemory
    have htoken := memory_heed { calculator with reader } hreads
      (Reader.readable_of_next hnext) hmemory
    rw [hheed] at htoken
    rw [takenBy_of_done hnext hheed]
    exact htoken
  case more =>
    intro calculator progress token reader calculator' progress' hnext hheed ih before hreads
      hmemory
    have htoken := memory_heed { calculator with reader } hreads
      (Reader.readable_of_next hnext) hmemory
    rw [hheed] at htoken
    have hlater := ih (before ++ [token])
      (reads_of_more hheed hreads (Reader.readable_of_next hnext)) htoken
    rw [takenBy_of_more hnext hheed, List.append_cons]
    exact hlater

/-- The memory after an evaluation is told by the tokens it has taken and by its result. -/
theorem memory_evaluate (calculator : Calculator σ) :
    calculator.evaluate.2.memory =
      (calculator.memory.assign (assigned? calculator.taken)).keep calculator.evaluate.1 :=
  memory_advance calculator.memory calculator.clear .fresh [] ⟨rfl, rfl⟩ rfl

theorem heed_exit (calculator : Calculator σ) {token : Token} (h : token.IsExit) :
    calculator.heed .fresh token = .inl (.error (.ended .exit), calculator) := by
  rw [heed, (Progress.step_eq_exit_iff calculator.memory.get).2 ⟨rfl, h⟩]

theorem assignable_of_taken {calculator : Calculator σ} {name : String}
    (h : assigned? calculator.taken = some name) : Assignable name := by
  obtain ⟨text, rest, htaken⟩ := assigned?_eq_some_iff.1 h
  rw [taken] at htaken
  generalize calculator.clear = calculator at htaken
  cases hnext : calculator.reader.next with
  | mk answer reader =>
    cases answer with
    | error cause => simp [takenBy_of_stop hnext] at htaken
    | ok token =>
      cases hheed : heed { calculator with reader } .fresh token with
      | inl result => simp [takenBy_of_done hnext hheed] at htaken
      | inr later =>
        rw [takenBy_of_more hnext hheed] at htaken
        obtain ⟨rfl, -⟩ := List.cons.inj htaken
        obtain ⟨line, line', hline⟩ := Reader.line_of_next hnext
        refine ⟨Line.isName_of_next? hline rfl, fun hword => ?_⟩
        rw [heed_exit _ ⟨rfl, hword⟩] at hheed
        cases hheed

/-- An evaluation that finds a name and an equals sign ahead takes both. -/
theorem assigned?_taken {calculator : Calculator σ} {name text : String} {rest : List Token}
    (h : calculator.reader.ahead = ⟨.identifier, name⟩ :: ⟨.assign, text⟩ :: rest)
    (hword : ¬isExitWord name) : assigned? calculator.taken = some name := by
  have hclear : calculator.clear.reader.ahead = ⟨.identifier, name⟩ :: ⟨.assign, text⟩ :: rest := h
  rw [taken]
  generalize calculator.clear = calculator at hclear
  obtain ⟨reader, hnext, hahead⟩ := Reader.next_of_ahead hclear
  obtain ⟨reader', hnext', -⟩ := Reader.next_of_ahead hahead
  let operands := calculator.operands.push (calculator.memory.get name)
  have hname : heed { calculator with reader } .fresh ⟨.identifier, name⟩ =
      .inr ({ calculator with reader, operands }, .named name) := by
    simp only [heed, Progress.step, if_true, hword]
    rfl
  have hassign : heed { calculator with reader := reader', operands } (.named name)
      ⟨.assign, text⟩ = .inr (retarget { calculator with reader := reader' } name,
        .assigned name) := rfl
  have hlater : takenBy { calculator with reader, operands } (.named name) = _ :=
    takenBy_of_more hnext' hassign
  rw [takenBy_of_more hnext hname, hlater]
  rfl

omit [Sink σ] in
theorem named_start (settings : Settings) (channel : Channel σ) :
    (start settings channel).memory.Named settings.target :=
  ⟨.inl rfl, fun _ hentry => absurd hentry List.not_mem_nil⟩

theorem named_evaluate {standard : String} {calculator : Calculator σ}
    (h : calculator.memory.Named standard) : calculator.evaluate.2.memory.Named standard := by
  rw [memory_evaluate]
  exact (h.assign fun name hname => assignable_of_taken hname).keep _

/-- What every evaluation keeps true of the memory is true of it after a session. -/
theorem memory_converse {Holds : Memory → Prop}
    (hevaluate : ∀ calculator : Calculator σ, Holds calculator.memory →
      Holds calculator.evaluate.2.memory)
    {calculator : Calculator σ} (h : Holds calculator.memory) :
    Holds calculator.converse.2.memory := by
  fun_induction converse calculator with
  | case1 calculator how evaluated hvalue =>
    have hmemory := hevaluate calculator h
    rw [hvalue] at hmemory
    rw [memory_close]
    exact hmemory
  | case2 calculator message evaluated hvalue =>
    have hmemory := hevaluate calculator h
    rw [hvalue] at hmemory
    exact hmemory
  | case3 calculator outcome evaluated hvalue message said hsay =>
    have hmemory := hevaluate calculator h
    rw [hvalue, ← memory_say evaluated outcome.line, hsay] at hmemory
    exact hmemory
  | case4 calculator outcome evaluated hvalue said hsay ih =>
    have hmemory := hevaluate calculator h
    rw [hvalue, ← memory_say evaluated outcome.line, hsay] at hmemory
    exact ih hmemory

theorem named_perform {standard : String} {calculator : Calculator σ}
    (h : calculator.memory.Named standard) (operation : Operation) :
    (calculator.perform operation).memory.Named standard := by
  cases operation with
  | next => exact h
  | skipLine => exact h
  | evaluate => exact named_evaluate h
  | run => exact memory_converse (fun _ => named_evaluate) h

theorem named_operations {standard : String} {calculator : Calculator σ}
    (h : calculator.memory.Named standard) (operations : List Operation) :
    (operations.foldl perform calculator).memory.Named standard := by
  induction operations generalizing calculator with
  | nil => exact h
  | cons operation operations ih => exact ih (named_perform h operation)

/-- Whatever has been asked of a calculator, on any channel and any sink: its target and all that
has been stored to are named as the target was at the start or by a name other than the exit word.
An evaluation takes some of the tokens ahead. It moves the target exactly if they begin with a name
and an equals sign, and then to that name, and it changes what has been stored exactly by its value,
if it has one, which becomes that of the target. -/
theorem evaluate_frame (settings : Settings) (channel : Channel σ) (operations : List Operation) :
    let calculator := operations.foldl perform (start settings channel)
    let later := calculator.evaluate.2.memory
    calculator.memory.Named settings.target ∧
    calculator.taken <+: calculator.reader.ahead ∧
    later.target = (assigned? calculator.taken).getD calculator.memory.target ∧
    (∀ value, calculator.evaluate.1 = .ok (.value value) → ∀ name, later.values.lookup name =
      if name = later.target then some value else calculator.memory.values.lookup name) ∧
    ((∀ value, calculator.evaluate.1 ≠ .ok (.value value)) →
      later.values = calculator.memory.values) := by
  intro calculator later
  have hlater : later = _ := calculator.memory_evaluate
  refine ⟨named_operations (named_start settings channel) operations,
    calculator.clear.takenBy_prefix_ahead .fresh, ?_, fun value hvalue name => ?_, fun hnone => ?_⟩
  · rw [hlater, Memory.target_keep]
    rfl
  · rw [hvalue] at hlater
    rw [hlater]
    exact Memory.lookup_store _ value name
  · rw [hlater, Memory.keep_of_ne_value hnone]
    rfl

/-- The report on the second expression breaks off, which has moved the target before; the name
after the exit word is none that is assigned to. -/
theorem evaluate_frame_through_failure :
    let channel : Channel FaultySink :=
      { replies := [.line "x = 2 @ y = 1 2 @", .line "Exit = 3 @"],
        sink := { failingWrites := (· = 1), failingFlushes := fun _ => false } }
    let calculator := [Operation.evaluate].foldl perform (start {} channel)
    let later := calculator.evaluate.2
    calculator.memory.Named "it" ∧
    calculator.evaluate.1 = .error (.failed "write 1 failed") ∧
    later.memory.target = "y" ∧ later.memory.values = calculator.memory.values ∧
    later.taken = [⟨.identifier, "Exit"⟩] := by
  intro channel calculator later
  obtain ⟨hnamed, -, htarget, -, hvalues⟩ := evaluate_frame {} channel [.evaluate]
  have hresult : calculator.evaluate.1 = .error (.failed "write 1 failed") := by decide +kernel
  have htaken : assigned? calculator.taken = some "y" := by decide +kernel
  refine ⟨hnamed, hresult, ?_, hvalues fun value hvalue => ?_, by decide +kernel⟩
  · exact htarget.trans (by rw [htaken]; rfl)
  · exact absurd (hresult.symm.trans hvalue) (by simp)

end Calculator

end ReversePolish
