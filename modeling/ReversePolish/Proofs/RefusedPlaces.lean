import ReversePolish.Proofs.LineTokens
import ReversePolish.Proofs.NamedVariables

/-!
# The place where an expression is refused

An evaluation that refuses its expression has taken the tokens up to the first one with which
anything is wrong. Until then it has done no more than that: its reader differs in nothing but the
journal from one that has been asked for as many tokens, and the memory from the one before by the
assignment among them. What follows is the report.
-/

namespace ReversePolish

variable {σ : Type}

namespace Reader

variable [Sink σ]

/-- The reader before a token among those ahead is about to deliver it. -/
theorem next_after {reader : Reader σ} {before : List Token} {token : Token}
    (h : before ++ [token] <+: reader.ahead) :
    (reader.after before.length).next = (.ok token, reader.after (before.length + 1)) := by
  obtain ⟨tokens, htokens⟩ := h
  have hle : before.length ≤ reader.ahead.length := by
    rw [← htokens, List.append_assoc, List.length_append]
    exact Nat.le_add_right _ _
  have hahead : (reader.after before.length).ahead = token :: tokens := by
    rw [ahead_after hle, ← htokens, List.append_assoc, List.drop_left]
    rfl
  obtain ⟨reader', hnext, -⟩ := next_of_ahead hahead
  rw [after_add, after, hnext]
  rfl

end Reader

namespace Calculator

variable [Sink σ] {calculator calculator' : Calculator σ} {progress progress' : Progress}
  {before : List Token} {token : Token} {rejection : Rejection} {reader : Reader σ}
  {result : Except Stop Outcome × Calculator σ}

theorem coincide_of_more (hheed : calculator.heed progress token = .inr (calculator', progress')) :
    calculator'.reader.Coincide calculator.reader := by
  unfold heed at hheed
  split at hheed <;> cases hheed <;> exact ⟨⟨rfl, rfl, rfl, rfl⟩, rfl⟩

theorem quiet_of_more (hheed : calculator.heed progress token = .inr (calculator', progress')) :
    Quiet calculator calculator' := by
  unfold heed at hheed
  split at hheed
  · cases hheed
    exact quiet_operands _ _
  · next name operands hstep =>
    cases hheed
    exact (quiet_operands _ operands).trans (quiet_retarget _ name)
  · next operands hstep =>
    cases hheed
    exact (quiet_operands _ operands).trans (quiet_ignore _)
  all_goals cases hheed

theorem passes_of_more (hheed : calculator.heed progress token = .inr (calculator', progress'))
    (hreads : progress.Reads calculator.operands before) (hreadable : token.Readable) :
    Passes before token := by
  have hfits := step_fits calculator.memory.get hreads hreadable
  unfold heed at hheed
  split at hheed
  case h_1 hstep | h_2 hstep | h_3 hstep =>
    rw [hstep] at hfits
    exact hfits.1
  all_goals cases hheed

theorem quiet_or_reject_of_done (hheed : calculator.heed progress token = .inl result)
    (hreads : progress.Reads calculator.operands before) (hreadable : token.Readable) :
    Quiet calculator result.2 ∨
      ∃ rejection, Fault before token rejection ∧ result = calculator.reject rejection := by
  have hfits := step_fits calculator.memory.get hreads hreadable
  unfold heed at hheed
  split at hheed
  case h_4 value operands hstep =>
    cases hheed
    exact .inl ((quiet_operands _ operands).trans (quiet_store _ value))
  case h_5 rejection hstep =>
    cases hheed
    rw [hstep] at hfits
    exact .inr ⟨rejection, hfits, rfl⟩
  case h_6 =>
    cases hheed
    exact .inl ⟨[], .refl _, by simp⟩
  all_goals cases hheed

/-- An expression of which some tokens have been read is refused for a token after some more, and
this is the calculator that has just taken it. -/
structure RefusedFor (before : List Token) (calculator : Calculator σ) (progress : Progress)
    (more : List Token) (token : Token) (rejection : Rejection) (found : Calculator σ) : Prop where
  first : FirstFault (before ++ calculator.reader.ahead) (before ++ more) token rejection
  taken : calculator.takenBy progress = more ++ [token]
  place : found.reader.Coincide (calculator.reader.after (more.length + 1))
  quiet : Quiet calculator found
  result : calculator.advance progress = found.reject rejection

theorem RefusedFor.earlier {more : List Token} {token' : Token} {found : Calculator σ}
    (hnext : calculator.reader.next = (.ok token, reader))
    (hheed : { calculator with reader }.heed progress token = .inr (calculator', progress'))
    (h : RefusedFor (before ++ [token]) calculator' progress' more token' rejection found) :
    RefusedFor before calculator progress (token :: more) token' rejection found where
  first := by
    have hahead := Reader.Alike.lockstep.ahead (alike_of_more hheed)
    have hfirst := h.first
    rwa [hahead, ← List.append_cons, ← List.append_cons, ← Reader.ahead_of_token hnext] at hfirst
  taken := by rw [takenBy_of_more hnext hheed, h.taken, List.cons_append]
  place := by
    have hafter := Reader.Coincide.lockstep.after (coincide_of_more hheed) (more.length + 1)
    exact (h.place.trans hafter).after_next hnext
  quiet := ((quiet_of_token hnext).trans (quiet_of_more hheed)).trans h.quiet
  result := by rw [advance_of_more hnext hheed, h.result]

/-- Either nothing is said of a refusal, or the expression is refused for a token. -/
theorem quiet_or_refusedFor (calculator : Calculator σ) (progress : Progress) :
    ∀ before, progress.Reads calculator.operands before → AllPass before →
      Quiet calculator (calculator.advance progress).2 ∨
        ∃ more token rejection found,
          RefusedFor before calculator progress more token rejection found := by
  refine advance_induction (motive := fun calculator progress result =>
    ∀ before, progress.Reads calculator.operands before → AllPass before →
      Quiet calculator result.2 ∨ ∃ more token rejection found,
        RefusedFor before calculator progress more token rejection found)
    ?stop ?done ?more calculator progress
  case stop =>
    intro calculator progress cause reader hnext before hreads hpass
    exact .inl ⟨_, records_of_stop hnext, by simp⟩
  case done =>
    intro calculator progress token reader result hnext hheed before hreads hpass
    rcases quiet_or_reject_of_done hheed hreads (Reader.readable_of_next hnext) with
      hquiet | ⟨rejection, hfault, rfl⟩
    · exact .inl ((quiet_of_token hnext).trans hquiet)
    · refine .inr ⟨[], token, rejection, { calculator with reader }, ⟨?_, ?_, ?_⟩,
        takenBy_of_done hnext hheed, ?_, quiet_of_token hnext, advance_of_done hnext hheed⟩
      · exact ⟨reader.ahead, by simp [Reader.ahead_of_token hnext]⟩
      · rwa [List.append_nil]
      · rwa [List.append_nil]
      · exact (Reader.Coincide.refl reader).of_next hnext
  case more =>
    intro calculator progress token reader calculator' progress' hnext hheed ih before hreads hpass
    have hreadable := Reader.readable_of_next hnext
    rcases ih (before ++ [token]) (reads_of_more hheed hreads hreadable)
      (hpass.concat (passes_of_more hheed hreads hreadable)) with
      hquiet | ⟨more, token', rejection, found, hrefused⟩
    · exact .inl (((quiet_of_token hnext).trans (quiet_of_more hheed)).trans hquiet)
    · exact .inr ⟨_, token', rejection, found, hrefused.earlier hnext hheed⟩

/-- An evaluation refuses its expression for a token: it has taken the tokens up to this one, and
then begins the report. -/
structure RefusesAt (calculator : Calculator σ) (rejection : Rejection) (before : List Token)
    (token : Token) (found : Calculator σ) : Prop where
  first : FirstFault calculator.reader.ahead before token rejection
  taken : calculator.taken = before ++ [token]
  place : found.reader.Coincide (calculator.reader.after (before.length + 1))
  memory : found.memory = calculator.memory.assign (assigned? (before ++ [token]))
  report : calculator.evaluate = found.reject rejection

/-- There is such a place in every evaluation that refuses its expression. -/
theorem Refuses.exists_refusesAt (h : calculator.Refuses rejection) :
    ∃ before token found, calculator.RefusesAt rejection before token found := by
  rcases calculator.clear.quiet_or_refusedFor .fresh [] ⟨rfl, rfl⟩ allPass_nil with
    hquiet | ⟨before, token, rejection', found, hfirst, htaken, hplace, hquiet, hresult⟩
  · exact absurd h hquiet.of_clear.not_refuses
  obtain rfl := (refuses_reject_iff hresult hquiet.of_clear).1 h
  refine ⟨before, token, found, hfirst, htaken, hplace, ?_, hresult⟩
  have hmemory := calculator.memory_evaluate
  have hreport : calculator.evaluate = found.reject rejection := hresult
  rwa [hreport, memory_reject, Memory.keep_of_ne_value (reject_ne_value _ _),
    show calculator.taken = before ++ [token] from htaken] at hmemory

theorem RefusesAt.ahead_eq {found : Calculator σ}
    (h : calculator.RefusesAt rejection before token found) :
    calculator.reader.ahead = before ++ token ::
      (Token.scan found.reader.line.rest ++
        (calculator.reader.after (before.length + 1)).skipLine.ahead) := by
  obtain ⟨tokens, htokens⟩ := h.first.begins
  have hle := h.first.begins.length_le
  rw [List.length_append, List.length_singleton] at hle
  have hafter := Reader.ahead_after hle
  rw [Reader.ahead_eq_append, ← h.place.line, ← htokens] at hafter
  rw [← htokens, List.append_assoc, hafter, ← List.length_singleton (a := token),
    ← List.length_append, List.drop_left]
  rfl

end Calculator

end ReversePolish
