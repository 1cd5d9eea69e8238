import ReversePolish.Proofs.ExpressionFaults
import Mathlib.Data.Sum.Basic

/-!
# Evaluating token by token

The rest of an expression is evaluated by heeding one token after the other until one of them
settles the result or none is left. So a statement on evaluations is proved by what a single token
does. The tokens that an evaluation takes are those that its journal names, and they are the first
of those ahead.
-/

namespace ReversePolish

variable {σ : Type}

def Event.token? : Event → Option Token
  | .scanned token => some token
  | .started | .retargeted _ | .assignIgnored | .evaluated .. | .rejected .. | .ended _ => none

namespace Calculator

section

variable [Sink σ]

/-- What a calculator makes of a token: the result of the expression, or where it goes on. -/
def heed (calculator : Calculator σ) (progress : Progress) (token : Token) :
    (Except Stop Outcome × Calculator σ) ⊕ (Calculator σ × Progress) :=
  match progress.step calculator.memory.get calculator.operands token with
  | .more progress operands => .inr ({ calculator with operands }, progress)
  | .retarget name operands => .inr ({ calculator with operands }.retarget name, .assigned name)
  | .ignore operands => .inr ({ calculator with operands }.note .assignIgnored, .body)
  | .value value operands => .inl (.ok (.value value), { calculator with operands }.store value)
  | .reject rejection => .inl (calculator.reject rejection)
  | .exit => .inl (.error (.ended .exit), calculator)

variable {calculator calculator' : Calculator σ} {progress progress' : Progress} {token : Token}
  {reader : Reader σ} {result : Except Stop Outcome × Calculator σ}

theorem advance_eq_heed (hnext : calculator.reader.next = (.ok token, reader)) :
    calculator.advance progress =
      (({ calculator with reader } : Calculator σ).heed progress token).elim id
        fun next => next.1.advance next.2 := by
  rw [advance_of_token hnext, heed]
  dsimp only
  cases progress.step calculator.memory.get calculator.operands token <;> rfl

theorem advance_of_done (hnext : calculator.reader.next = (.ok token, reader))
    (hheed : { calculator with reader }.heed progress token = .inl result) :
    calculator.advance progress = result := by
  rw [advance_eq_heed hnext, hheed]
  rfl

theorem advance_of_more (hnext : calculator.reader.next = (.ok token, reader))
    (hheed : { calculator with reader }.heed progress token = .inr (calculator', progress')) :
    calculator.advance progress = calculator'.advance progress' := by
  rw [advance_eq_heed hnext, hheed]
  rfl

/-- A token that does not settle the expression changes the reader in nothing but its journal. -/
theorem alike_of_more (hheed : calculator.heed progress token = .inr (calculator', progress')) :
    calculator'.reader.Alike calculator.reader := by
  unfold heed at hheed
  split at hheed <;> cases hheed <;> exact ⟨rfl, rfl, rfl, rfl⟩

theorem reads_of_more {before : List Token}
    (hheed : calculator.heed progress token = .inr (calculator', progress'))
    (hreads : progress.Reads calculator.operands before) (hreadable : token.Readable) :
    progress'.Reads calculator'.operands (before ++ [token]) := by
  have hfits := step_fits calculator.memory.get hreads hreadable
  unfold heed at hheed
  split at hheed
  case h_1 hstep | h_2 hstep | h_3 hstep =>
    cases hheed
    rw [hstep] at hfits
    exact hfits.2
  all_goals cases hheed

/-- A statement on evaluations holds if it holds of those that find no token and of those that one
token settles, and is carried back over every token that does not. -/
theorem advance_induction
    {motive : Calculator σ → Progress → Except Stop Outcome × Calculator σ → Prop}
    (stop : ∀ calculator progress stop reader, calculator.reader.next = (.error stop, reader) →
      motive calculator progress (.error stop, { calculator with reader }))
    (done : ∀ calculator progress token reader result,
      calculator.reader.next = (.ok token, reader) →
      { calculator with reader }.heed progress token = .inl result →
      motive calculator progress result)
    (more : ∀ calculator progress token reader calculator' progress',
      calculator.reader.next = (.ok token, reader) →
      { calculator with reader }.heed progress token = .inr (calculator', progress') →
      motive calculator' progress' (calculator'.advance progress') →
      motive calculator progress (calculator'.advance progress'))
    (calculator : Calculator σ) (progress : Progress) :
    motive calculator progress (calculator.advance progress) := by
  cases hnext : calculator.reader.next with
  | mk answer reader =>
    cases answer with
    | error cause =>
      rw [advance_of_stop hnext]
      exact stop _ _ _ _ hnext
    | ok token =>
      cases hheed : heed { calculator with reader } progress token with
      | inl result =>
        rw [advance_of_done hnext hheed]
        exact done _ _ _ _ _ hnext hheed
      | inr next =>
        rw [advance_of_more hnext hheed]
        exact more _ _ _ _ _ _ hnext hheed (advance_induction stop done more next.1 next.2)
termination_by calculator.unread
decreasing_by
  obtain ⟨hline, -, hreplies, -⟩ := alike_of_more hheed
  have hless := Reader.unread_of_next hnext
  rw [unread, Reader.unread, hline, hreplies]
  exact hless

end

def tokens (calculator : Calculator σ) : List Token :=
  calculator.reader.channel.journal.reverse.filterMap Event.token?

theorem tokens_note (calculator : Calculator σ) {event : Event} (h : event.token? = none) :
    (calculator.note event).tokens = calculator.tokens := by
  change (event :: calculator.reader.channel.journal).reverse.filterMap Event.token? = _
  rw [List.reverse_cons, List.filterMap_append, List.filterMap_cons_none h, List.filterMap_nil,
    List.append_nil]
  rfl

variable [Sink σ]

theorem tokens_reject (calculator : Calculator σ) (rejection : Rejection) :
    (calculator.reject rejection).2.tokens = calculator.tokens := by
  rw [tokens, (calculator.records_reject rejection).journal, tokens]
  simp [Event.token?]

theorem tokens_next (calculator : Calculator σ) :
    tokens { calculator with reader := calculator.reader.next.2 } =
      calculator.tokens ++ calculator.reader.next.1.toOption.toList := by
  rw [tokens, calculator.reader.journal_next]
  cases calculator.reader.next.1 <;> simp [Except.toOption, Event.token?, tokens]

theorem tokens_heed (calculator : Calculator σ) (progress : Progress) (token : Token) :
    (calculator.heed progress token).elim (·.2.tokens) (·.1.tokens) = calculator.tokens := by
  unfold heed
  split
  · rfl
  · exact tokens_note _ rfl
  · exact tokens_note _ rfl
  · exact tokens_note _ rfl
  · exact tokens_reject _ _
  · rfl

variable {calculator calculator' : Calculator σ} {progress progress' : Progress} {token : Token}
  {reader : Reader σ} {result : Except Stop Outcome × Calculator σ}

theorem tokens_of_stop {cause : Stop} (hnext : calculator.reader.next = (.error cause, reader)) :
    tokens { calculator with reader } = calculator.tokens := by
  have htokens := calculator.tokens_next
  rw [hnext] at htokens
  exact htokens.trans (List.append_nil _)

theorem tokens_of_token (hnext : calculator.reader.next = (.ok token, reader)) :
    tokens { calculator with reader } = calculator.tokens ++ [token] := by
  have htokens := calculator.tokens_next
  rw [hnext] at htokens
  exact htokens

theorem tokens_of_done (hnext : calculator.reader.next = (.ok token, reader))
    (hheed : { calculator with reader }.heed progress token = .inl result) :
    result.2.tokens = calculator.tokens ++ [token] := by
  have htokens := tokens_heed { calculator with reader } progress token
  rw [hheed, tokens_of_token hnext] at htokens
  exact htokens

theorem tokens_of_more (hnext : calculator.reader.next = (.ok token, reader))
    (hheed : { calculator with reader }.heed progress token = .inr (calculator', progress')) :
    calculator'.tokens = calculator.tokens ++ [token] := by
  have htokens := tokens_heed { calculator with reader } progress token
  rw [hheed, tokens_of_token hnext] at htokens
  exact htokens

theorem tokens_prefix_advance (calculator : Calculator σ) (progress : Progress) :
    calculator.tokens <+: (calculator.advance progress).2.tokens := by
  refine advance_induction (motive := fun calculator _ result =>
    calculator.tokens <+: result.2.tokens) ?stop ?done ?more calculator progress
  case stop =>
    intro calculator progress cause reader hnext
    exact tokens_of_stop hnext ▸ List.prefix_rfl
  case done =>
    intro calculator progress token reader result hnext hheed
    rw [tokens_of_done hnext hheed]
    exact List.prefix_append _ _
  case more =>
    intro calculator progress token reader calculator' progress' hnext hheed ih
    rw [tokens_of_more hnext hheed] at ih
    exact (List.prefix_append _ _).trans ih

/-- The tokens that evaluating the rest of an expression takes. -/
def takenBy (calculator : Calculator σ) (progress : Progress) : List Token :=
  (calculator.advance progress).2.tokens.drop calculator.tokens.length

def taken (calculator : Calculator σ) : List Token := calculator.clear.takenBy .fresh

theorem tokens_advance (calculator : Calculator σ) (progress : Progress) :
    (calculator.advance progress).2.tokens =
      calculator.tokens ++ calculator.takenBy progress := by
  obtain ⟨later, hlater⟩ := calculator.tokens_prefix_advance progress
  rw [takenBy, ← hlater, List.drop_left]

theorem takenBy_of_stop {cause : Stop} (hnext : calculator.reader.next = (.error cause, reader)) :
    calculator.takenBy progress = [] := by
  rw [takenBy, advance_of_stop hnext, tokens_of_stop hnext, List.drop_length]

theorem takenBy_of_done (hnext : calculator.reader.next = (.ok token, reader))
    (hheed : { calculator with reader }.heed progress token = .inl result) :
    calculator.takenBy progress = [token] := by
  rw [takenBy, advance_of_done hnext hheed, tokens_of_done hnext hheed, List.drop_left]

theorem takenBy_of_more (hnext : calculator.reader.next = (.ok token, reader))
    (hheed : { calculator with reader }.heed progress token = .inr (calculator', progress')) :
    calculator.takenBy progress = token :: calculator'.takenBy progress' := by
  rw [takenBy, advance_of_more hnext hheed, tokens_advance, tokens_of_more hnext hheed,
    List.append_assoc, List.drop_left]
  rfl

/-- Tokens are taken from the front of those ahead. -/
theorem takenBy_prefix_ahead (calculator : Calculator σ) (progress : Progress) :
    calculator.takenBy progress <+: calculator.reader.ahead := by
  refine advance_induction (motive := fun calculator progress _ =>
    calculator.takenBy progress <+: calculator.reader.ahead) ?stop ?done ?more calculator progress
  case stop =>
    intro calculator progress cause reader hnext
    rw [takenBy_of_stop hnext]
    exact List.nil_prefix
  case done =>
    intro calculator progress token reader result hnext hheed
    rw [takenBy_of_done hnext hheed, Reader.ahead_of_token hnext]
    exact List.prefix_append [token] _
  case more =>
    intro calculator progress token reader calculator' progress' hnext hheed ih
    rw [takenBy_of_more hnext hheed, Reader.ahead_of_token hnext,
      ← Reader.Alike.lockstep.ahead (alike_of_more hheed)]
    exact List.cons_prefix_cons.2 ⟨rfl, ih⟩

end Calculator

end ReversePolish
