import ReversePolish.Proofs.ChannelUse
import ReversePolish.Proofs.WorksheetRun

/-!
# Sinks that are cut off

Two sessions that differ only in their sinks do the same until the first difference between what the
sinks answer. Where one sink fails at some point that the other one passes, the session on it breaks
off there with the reason, and nothing is written to it any more.
-/

namespace ReversePolish

variable {σ τ : Type}

namespace Calculator

variable [Sink σ] {calculator calculator' : Calculator σ}

theorem converse_of_ended {how : Ending}
    (h : calculator.evaluate = (.error (.ended how), calculator')) :
    calculator.converse = calculator'.close how :=
  calculator.converse_eq_resume.trans (resume_of_ended h)

theorem converse_of_failed {message : String}
    (h : calculator.evaluate = (.error (.failed message), calculator')) :
    calculator.converse = (.error message, calculator') :=
  calculator.converse_eq_resume.trans (resume_of_failed h)

theorem converse_of_ok {outcome : Outcome} (h : calculator.evaluate = (.ok outcome, calculator')) :
    calculator.converse = andThen (calculator'.say outcome.line) converse := by
  have hresume := calculator.converse_eq_resume
  rw [resume, show calculator.clear.advance .fresh = _ from h] at hresume
  dsimp only at hresume
  rw [hresume]
  obtain ⟨answer, said⟩ := calculator'.say outcome.line
  cases answer <;> rfl

end Calculator

/-- What works over a sink, and could go on over another one. -/
class OverSink (S : Type → Type) where
  sink {σ : Type} (state : S σ) : σ
  withSink {σ τ : Type} (state : S σ) (sink : τ) : S τ

export OverSink (withSink)

instance : OverSink Channel where
  sink channel := channel.sink
  withSink channel sink := ⟨channel.replies, sink, channel.calls, channel.journal⟩

instance : OverSink Reader where
  sink reader := reader.channel.sink
  withSink reader sink := ⟨withSink reader.channel sink, reader.prompt, reader.line⟩

instance : OverSink Calculator where
  sink calculator := calculator.reader.channel.sink
  withSink calculator sink :=
    ⟨withSink calculator.reader sink, calculator.memory, calculator.farewell, calculator.operands⟩

theorem Reader.channel_withSink (reader : Reader σ) (sink' : τ) :
    (withSink reader sink' : Reader τ).channel = withSink reader.channel sink' := rfl

theorem Reader.prompt_withSink (reader : Reader σ) (sink' : τ) :
    (withSink reader sink' : Reader τ).prompt = reader.prompt := rfl

theorem Reader.line_withSink (reader : Reader σ) (sink' : τ) :
    (withSink reader sink' : Reader τ).line = reader.line := rfl

theorem Calculator.reader_withSink (calculator : Calculator σ) (sink' : τ) :
    (withSink calculator sink' : Calculator τ).reader = withSink calculator.reader sink' := rfl

theorem Calculator.memory_withSink (calculator : Calculator σ) (sink' : τ) :
    (withSink calculator sink' : Calculator τ).memory = calculator.memory := rfl

theorem Calculator.operands_withSink (calculator : Calculator σ) (sink' : τ) :
    (withSink calculator sink' : Calculator τ).operands = calculator.operands := rfl

theorem Channel.note_withSink (channel : Channel σ) (sink' : τ) (event : Event) :
    (withSink channel sink' : Channel τ).note event = withSink (channel.note event) sink' := rfl

/-- Sinks of which the second does as the first until it is cut off, and then fails. What happens to
the first one afterwards keeps the two apart. -/
structure CutOff (σ τ : Type) [Sink σ] [Sink τ] where
  together : σ → τ → Prop
  apart : σ → τ → Prop
  message : String
  write {sink : σ} {sink' : τ} (h : together sink sink') (text : String) :
    ((Sink.write sink' text).1 = (Sink.write sink text).1 ∧
      together (Sink.write sink text).2 (Sink.write sink' text).2) ∨
    ((Sink.write sink' text).1 = .error message ∧
      apart (Sink.write sink text).2 (Sink.write sink' text).2)
  flush {sink : σ} {sink' : τ} (h : together sink sink') :
    ((Sink.flush sink').1 = (Sink.flush sink).1 ∧
      together (Sink.flush sink).2 (Sink.flush sink').2) ∨
    ((Sink.flush sink').1 = .error message ∧
      apart (Sink.flush sink).2 (Sink.flush sink').2)
  apart_write {sink : σ} {sink' : τ} (h : apart sink sink') (text : String) :
    apart (Sink.write sink text).2 sink'
  apart_flush {sink : σ} {sink' : τ} (h : apart sink sink') : apart (Sink.flush sink).2 sink'

variable [Sink σ] [Sink τ]

namespace CutOff

variable {S : Type → Type} [OverSink S] {ε α : Type}

/-- One operation on both sides: it does the same, or the second side breaks off. -/
def Follows (cut : CutOff σ τ) (failure : ε) (result : Except ε α × S σ)
    (result' : Except ε α × S τ) : Prop :=
  (∃ sink', cut.together (OverSink.sink result.2) sink' ∧
    result' = (result.1, withSink result.2 sink')) ∨
  ∃ state', cut.apart (OverSink.sink result.2) (OverSink.sink state') ∧
    result' = (.error failure, state')

variable (cut : CutOff σ τ)

theorem apart_of_leads {channel later : Channel σ} {sink' : τ} (h : channel.Leads later)
    (hapart : cut.apart channel.sink sink') : cut.apart later.sink sink' :=
  h.sink (cut.apart · sink') (fun _ text hsink => cut.apart_write hsink text)
    (fun _ hsink => cut.apart_flush hsink) hapart

variable {cut} {sink' : τ}

/-- What goes on the same on both sides as long as they are together still does so after an
operation. -/
theorem Follows.andThen {β : Type} {failure : ε} {first : Except ε Unit × S σ}
    {first' : Except ε Unit × S τ} {next : S σ → Except ε β × S σ} {next' : S τ → Except ε β × S τ}
    (h : cut.Follows failure first first')
    (hnext : ∀ state sink', first = (.ok (), state) → cut.together (OverSink.sink state) sink' →
      cut.Follows failure (next state) (next' (withSink state sink')))
    (hapart : ∀ state sink', cut.apart (OverSink.sink state) sink' →
      cut.apart (OverSink.sink (next state).2) sink') :
    cut.Follows failure (andThen first next) (andThen first' next') := by
  rcases h with ⟨sink', htogether, rfl⟩ | ⟨state', happart, rfl⟩
  · obtain ⟨answer, state⟩ := first
    cases answer with
    | ok => exact hnext state sink' rfl htogether
    | error => exact .inl ⟨sink', htogether, rfl⟩
  · refine .inr ⟨state', ?_, rfl⟩
    exact andThen_holds (fun state => cut.apart (OverSink.sink state) (OverSink.sink state'))
      happart fun state => hapart state _

theorem follows_write {channel : Channel σ} (h : cut.together channel.sink sink') (text : String) :
    cut.Follows cut.message (channel.write text)
      ((withSink channel sink' : Channel τ).write text) := by
  rcases cut.write h text with ⟨hsame, htogether⟩ | ⟨hfailed, hapart⟩
  · refine .inl ⟨_, htogether, Prod.ext hsame ?_⟩
    simp only [Channel.write, withSink, hsame]
  · exact .inr ⟨((withSink channel sink' : Channel τ).write text).2, hapart, Prod.ext hfailed rfl⟩

theorem follows_flush {channel : Channel σ} (h : cut.together channel.sink sink') :
    cut.Follows cut.message channel.flush (withSink channel sink' : Channel τ).flush := by
  rcases cut.flush h with ⟨hsame, htogether⟩ | ⟨hfailed, hapart⟩
  · refine .inl ⟨_, htogether, Prod.ext hsame ?_⟩
    simp only [Channel.flush, withSink, hsame]
  · exact .inr ⟨(withSink channel sink' : Channel τ).flush.2, hapart, Prod.ext hfailed rfl⟩

theorem follows_writeLines {channel : Channel σ} (h : cut.together channel.sink sink')
    (texts : List String) :
    cut.Follows cut.message (channel.writeLines texts)
      ((withSink channel sink' : Channel τ).writeLines texts) := by
  induction texts generalizing channel sink' with
  | nil => exact .inl ⟨sink', h, rfl⟩
  | cons text texts ih =>
    rw [Channel.writeLines_eq, Channel.writeLines_eq]
    exact (follows_write h (text ++ "\n")).andThen (fun _ _ _ htogether => ih htogether)
      fun written _ hapart => cut.apart_of_leads (written.leads_writeLines texts) hapart

theorem follows_ask {reader : Reader σ} (h : cut.together reader.channel.sink sink') :
    cut.Follows cut.message reader.ask (withSink reader sink' : Reader τ).ask := by
  rw [Reader.ask_eq, Reader.ask_eq, Reader.prompt_withSink, Reader.channel_withSink]
  split
  · exact follows_flush h
  · exact (follows_write h reader.prompt).andThen (fun _ _ _ htogether => follows_flush htogether)
      fun _ _ hapart => cut.apart_flush hapart

omit [Sink σ] [Sink τ] in
theorem readLine_withSink (channel : Channel σ) (sink' : τ) :
    (withSink channel sink' : Channel τ).readLine =
      (channel.readLine.1, withSink channel.readLine.2 sink') := by
  obtain ⟨replies, sink, calls, journal⟩ := channel
  cases replies <;> rfl

theorem follows_load {reader : Reader σ} (h : cut.together reader.channel.sink sink') :
    cut.Follows (.failed cut.message) reader.load (withSink reader sink' : Reader τ).load := by
  have hread := readLine_withSink reader.channel sink'
  have hsink : reader.channel.readLine.2.sink = reader.channel.sink := by
    unfold Channel.readLine
    split <;> rfl
  rw [← hsink] at h
  simp only [Reader.load, Reader.channel_withSink, hread]
  cases hreply : reader.channel.readLine with
  | mk reply channel =>
    rw [hreply] at h
    cases reply <;> exact .inl ⟨sink', h, rfl⟩

theorem follows_fetch {reader : Reader σ} (h : cut.together reader.channel.sink sink') :
    cut.Follows (.failed cut.message) reader.fetch (withSink reader sink' : Reader τ).fetch := by
  have hask : cut.Follows cut.message reader.skipLine.ask
      (withSink reader sink' : Reader τ).skipLine.ask := follows_ask h
  rcases hask with ⟨sink'', htogether, hask⟩ | ⟨state', hapart, hask⟩
  · have hasked : (withSink reader sink' : Reader τ).asked = withSink reader.asked sink'' := by
      rw [Reader.asked, hask]
      rfl
    cases hanswer : reader.skipLine.ask.1 with
    | ok =>
      rw [hanswer] at hask
      rw [Reader.fetch_of_ask_ok hanswer, Reader.fetch_of_ask_ok (congrArg Prod.fst hask), hasked]
      exact follows_load htogether
    | error message =>
      rw [hanswer] at hask
      rw [Reader.fetch_of_ask_error hanswer, Reader.fetch_of_ask_error (congrArg Prod.fst hask),
        hasked]
      exact .inl ⟨sink'', htogether, rfl⟩
  · have hasked : (withSink reader sink' : Reader τ).asked.channel = state' :=
      congrArg Prod.snd hask
    refine .inr ⟨(withSink reader sink' : Reader τ).asked, ?_,
      Reader.fetch_of_ask_error (congrArg Prod.fst hask)⟩
    have hlater := cut.apart_of_leads reader.leads_fetch_of_ask hapart
    rw [← hasked] at hlater
    exact hlater

theorem follows_next {reader : Reader σ} (h : cut.together reader.channel.sink sink') :
    cut.Follows (.failed cut.message) reader.next (withSink reader sink' : Reader τ).next := by
  fun_induction Reader.next reader generalizing sink' with
  | case1 reader token line hline =>
    have hline' : (withSink reader sink' : Reader τ).line.next? = some (token, line) := hline
    rw [Reader.next_of_token hline']
    exact .inl ⟨sink', h, rfl⟩
  | case2 reader hline fetched hfetch ih =>
    have hline' : (withSink reader sink' : Reader τ).line.next? = none := hline
    have hfollows := follows_fetch h
    rw [hfetch] at hfollows
    rcases hfollows with ⟨sink'', htogether, hfetch'⟩ | ⟨state', hapart, hfetch'⟩
    · rw [Reader.next_of_fetch hline' hfetch']
      exact ih htogether
    · -- The first side reads on alone; whatever it does keeps the two apart.
      rw [Reader.next_of_stop hline' hfetch']
      exact .inr ⟨state', cut.apart_of_leads fetched.leads_next hapart, rfl⟩
  | case3 reader hline stop fetched hfetch =>
    have hline' : (withSink reader sink' : Reader τ).line.next? = none := hline
    have hfollows := follows_fetch h
    rw [hfetch] at hfollows
    rcases hfollows with ⟨sink'', htogether, hfetch'⟩ | ⟨state', hapart, hfetch'⟩
    · rw [Reader.next_of_stop hline' hfetch']
      exact .inl ⟨sink'', htogether, rfl⟩
    · rw [Reader.next_of_stop hline' hfetch']
      exact .inr ⟨state', hapart, rfl⟩

theorem follows_reject {calculator : Calculator σ}
    (h : cut.together calculator.reader.channel.sink sink') (rejection : Rejection) :
    cut.Follows (.failed cut.message) (calculator.reject rejection)
      ((withSink calculator sink' : Calculator τ).reject rejection) := by
  have hnoted : cut.together
      (calculator.reader.channel.note
        (.rejected rejection calculator.reader.line.position)).sink sink' := h
  have hreport := follows_writeLines hnoted
    (rejection.report calculator.reader.line.text calculator.reader.line.position)
  dsimp only [Calculator.reject, Reader.note, Calculator.reader_withSink, Reader.channel_withSink,
    Reader.line_withSink, Channel.note_withSink]
  generalize (calculator.reader.channel.note _).writeLines _ = reported at hreport ⊢
  obtain ⟨answer, channel⟩ := reported
  rcases hreport with ⟨sink'', htogether, hreport⟩ | ⟨state', hapart, hreport⟩
  · rw [hreport]
    cases answer <;> exact .inl ⟨sink'', htogether, rfl⟩
  · rw [hreport]
    refine .inr ⟨⟨⟨state', calculator.reader.prompt, calculator.reader.line⟩, calculator.memory,
      calculator.farewell, calculator.operands.clear⟩, ?_, rfl⟩
    cases answer <;> exact hapart

theorem follows_advance {calculator : Calculator σ}
    (h : cut.together calculator.reader.channel.sink sink') (progress : Progress) :
    cut.Follows (.failed cut.message) (calculator.advance progress)
      ((withSink calculator sink' : Calculator τ).advance progress) := by
  induction hunread : calculator.unread using Nat.strongRecOn generalizing calculator progress sink'
    with
  | ind unread ih =>
    subst hunread
    have hlater := calculator.leads_advance_of_next progress
    rcases follows_next h with ⟨sink'', htogether, hnext'⟩ | ⟨state', hapart, hnext'⟩
    · change (withSink calculator sink' : Calculator τ).reader.next = _ at hnext'
      cases hnext : calculator.reader.next with
      | mk answer reader =>
        rw [hnext] at htogether hnext'
        cases answer with
        | error stop =>
          rw [Calculator.advance_of_stop hnext, Calculator.advance_of_stop hnext']
          exact .inl ⟨sink'', htogether, rfl⟩
        | ok token =>
          have hlt := Reader.unread_of_next hnext
          rw [Calculator.advance_of_token hnext, Calculator.advance_of_token hnext',
            Calculator.memory_withSink, Calculator.operands_withSink]
          cases progress.step calculator.memory.get calculator.operands token with
          | more progress' operands => exact ih _ hlt htogether progress' rfl
          | retarget name operands => exact ih _ hlt htogether (.assigned name) rfl
          | ignore operands => exact ih _ hlt htogether .body rfl
          | value value operands => exact .inl ⟨sink'', htogether, rfl⟩
          | reject rejection => exact follows_reject htogether rejection
          | exit => exact .inl ⟨sink'', htogether, rfl⟩
    · change (withSink calculator sink' : Calculator τ).reader.next = _ at hnext'
      rw [Calculator.advance_of_stop hnext']
      exact .inr ⟨_, cut.apart_of_leads hlater hapart, rfl⟩

theorem Follows.carry {result : Except ε α × Channel σ} {result' : Except ε α × Channel τ}
    {failure : ε} (h : cut.Follows failure result result') (calculator : Calculator σ)
    (sink' : τ) :
    let carried (channel : Channel τ) : Calculator τ :=
      { (withSink calculator sink' : Calculator τ) with
        reader := { (withSink calculator.reader sink' : Reader τ) with channel } }
    cut.Follows failure
      (result.1, { calculator with reader := { calculator.reader with channel := result.2 } })
      (result'.1, carried result'.2) := by
  rcases h with ⟨sink'', htogether, rfl⟩ | ⟨state', hapart, rfl⟩
  · exact .inl ⟨sink'', htogether, rfl⟩
  · exact .inr ⟨_, hapart, rfl⟩

theorem follows_evaluate {calculator : Calculator σ}
    (h : cut.together calculator.reader.channel.sink sink') :
    cut.Follows (.failed cut.message) calculator.evaluate
      (withSink calculator sink' : Calculator τ).evaluate := by
  have hcleared : cut.together calculator.clear.reader.channel.sink sink' := h
  exact follows_advance hcleared .fresh

theorem follows_say {calculator : Calculator σ}
    (h : cut.together calculator.reader.channel.sink sink') (text : String) :
    cut.Follows cut.message (calculator.say text)
      ((withSink calculator sink' : Calculator τ).say text) :=
  (follows_write h (text ++ "\n")).carry calculator sink'

theorem follows_pass {calculator : Calculator σ}
    (h : cut.together calculator.reader.channel.sink sink') :
    cut.Follows cut.message calculator.flush (withSink calculator sink' : Calculator τ).flush :=
  (follows_flush h).carry calculator sink'

theorem follows_close {calculator : Calculator σ}
    (h : cut.together calculator.reader.channel.sink sink') (how : Ending) :
    cut.Follows cut.message (calculator.close how)
      ((withSink calculator sink' : Calculator τ).close how) := by
  have hnoted : cut.together (calculator.note (.ended how)).reader.channel.sink sink' := h
  rw [Calculator.close_eq, Calculator.close_eq]
  refine (follows_say hnoted ("\n" ++ calculator.farewell)).andThen ?_ ?_
  · intro said sink'' _ htogether
    exact (follows_pass htogether).andThen (fun _ sink₃ _ htogether => .inl ⟨sink₃, htogether, rfl⟩)
      fun _ _ hapart => hapart
  · intro said sink'' hapart
    exact andThen_holds (fun flushed : Calculator σ => cut.apart flushed.reader.channel.sink sink'')
      (cut.apart_flush hapart) fun _ hapart => hapart

theorem follows_converse {calculator : Calculator σ}
    (h : cut.together calculator.reader.channel.sink sink') :
    cut.Follows cut.message calculator.converse
      (withSink calculator sink' : Calculator τ).converse := by
  induction hunread : calculator.unread using Nat.strongRecOn generalizing calculator sink' with
  | ind unread ih =>
    subst hunread
    have hlater := calculator.leads_converse_of_evaluate
    rcases follows_evaluate h with ⟨sink'', htogether, hevaluate'⟩ | ⟨state', hapart, hevaluate'⟩
    · cases hevaluate : calculator.evaluate with
      | mk result evaluated =>
        rw [hevaluate] at htogether hevaluate'
        match result with
        | .error (.ended how) =>
          rw [Calculator.converse_of_ended hevaluate, Calculator.converse_of_ended hevaluate']
          exact follows_close htogether how
        | .error (.failed message) =>
          rw [Calculator.converse_of_failed hevaluate, Calculator.converse_of_failed hevaluate']
          exact .inl ⟨sink'', htogether, rfl⟩
        | .ok outcome =>
          have hlt := Calculator.unread_of_evaluate hevaluate
          rw [Calculator.converse_of_ok hevaluate, Calculator.converse_of_ok hevaluate']
          refine (follows_say htogether outcome.line).andThen ?_ ?_
          · intro said sink₃ hsaid htogether
            have hunread := evaluated.unread_say outcome.line
            rw [hsaid] at hunread
            exact ih said.unread (hunread ▸ hlt) htogether rfl
          · intro said sink₃ hapart
            exact cut.apart_of_leads said.leads_converse hapart
    · rw [Calculator.converse_of_failed hevaluate']
      exact .inr ⟨state', cut.apart_of_leads hlater hapart, rfl⟩

variable (cut) in
/-- A session follows the same session on another sink until it is cut off. -/
theorem follows_run {calculator : Calculator σ}
    (h : cut.together calculator.reader.channel.sink sink') :
    cut.Follows cut.message calculator.run (withSink calculator sink' : Calculator τ).run := by
  have hnoted : cut.together (calculator.note .started).reader.channel.sink sink' := h
  exact follows_converse hnoted

end CutOff

end ReversePolish
