import ReversePolish.Calculator

/-!
# How a channel is used

A reader and a calculator use their channel through its operations only, whatever these come to. So
a session forgets no call that was made, and what every operation keeps true of a sink is true of it
at the end.
-/

namespace ReversePolish

def andThen {S ε β : Type} (first : Except ε Unit × S) (next : S → Except ε β × S) :
    Except ε β × S :=
  match first with
  | (.error failure, state) => (.error failure, state)
  | (.ok (), state) => next state

theorem andThen_holds {S ε β : Type} (Holds : S → Prop) {first : Except ε Unit × S}
    {next : S → Except ε β × S} (hfirst : Holds first.2)
    (hnext : ∀ state, Holds state → Holds (next state).2) : Holds (andThen first next).2 := by
  obtain ⟨answer, state⟩ := first
  cases answer with
  | ok => exact hnext state hfirst
  | error => exact hfirst

variable {σ : Type} [Sink σ]

theorem Channel.writeLines_eq (channel : Channel σ) (text : String) (texts : List String) :
    channel.writeLines (text :: texts) = andThen (channel.writeLine text) (·.writeLines texts) := by
  rw [writeLines]
  obtain ⟨answer, channel'⟩ := channel.writeLine text
  cases answer <;> rfl

theorem Reader.ask_eq (reader : Reader σ) :
    reader.ask = if reader.prompt = "" then reader.channel.flush
      else andThen (reader.channel.write reader.prompt) (·.flush) := by
  rw [ask]
  obtain ⟨answer, channel'⟩ := reader.channel.write reader.prompt
  cases answer <;> rfl

theorem Calculator.close_eq (calculator : Calculator σ) (how : Ending) :
    calculator.close how =
      andThen ((calculator.note (.ended how)).say ("\n" ++ calculator.farewell)) fun said =>
        andThen said.flush fun flushed => (.ok how, flushed) := by
  rw [close]
  obtain ⟨answer, said⟩ := (calculator.note (.ended how)).say ("\n" ++ calculator.farewell)
  cases answer with
  | error message => rfl
  | ok =>
    dsimp only [andThen]
    obtain ⟨answer, flushed⟩ := said.flush
    cases answer <;> rfl

namespace Channel

/-- A channel can become another one by being used. -/
inductive Leads (channel : Channel σ) : Channel σ → Prop
  | refl : Leads channel channel
  | write {later} (leads : Leads channel later) (text : String) :
      Leads channel (later.write text).2
  | flush {later} (leads : Leads channel later) : Leads channel later.flush.2
  | readLine {later} (leads : Leads channel later) : Leads channel later.readLine.2
  | note {later} (leads : Leads channel later) (event : Event) : Leads channel (later.note event)

theorem Leads.trans {channel later last : Channel σ} (h : channel.Leads later)
    (h' : later.Leads last) : channel.Leads last := by
  induction h' with
  | refl => exact h
  | write _ text ih => exact ih.write text
  | flush _ ih => exact ih.flush
  | readLine _ ih => exact ih.readLine
  | note _ event ih => exact ih.note event

/-- Calls are added to those made before. -/
theorem Leads.calls_suffix {channel later : Channel σ} (h : channel.Leads later) :
    channel.calls <:+ later.calls := by
  induction h with
  | refl => exact List.suffix_rfl
  | write _ text ih => exact ih.trans (List.suffix_cons _ _)
  | flush _ ih => exact ih.trans (List.suffix_cons _ _)
  | @readLine later _ ih =>
    refine ih.trans ?_
    unfold Channel.readLine
    split <;> exact List.suffix_cons _ _
  | note _ event ih => exact ih

/-- Replies are used up from the front. -/
theorem Leads.replies_suffix {channel later : Channel σ} (h : channel.Leads later) :
    later.replies <:+ channel.replies := by
  induction h with
  | refl => exact List.suffix_rfl
  | write _ text ih => exact ih
  | flush _ ih => exact ih
  | @readLine later _ ih =>
    refine List.IsSuffix.trans ?_ ih
    unfold Channel.readLine
    split
    · exact List.suffix_rfl
    · next hreplies =>
      rw [hreplies]
      exact List.suffix_cons _ _
  | note _ event ih => exact ih

/-- What writing and flushing keep true of a sink stays true of it. -/
theorem Leads.sink {channel later : Channel σ} (h : channel.Leads later) (Holds : σ → Prop)
    (hwrite : ∀ sink text, Holds sink → Holds (Sink.write sink text).2)
    (hflush : ∀ sink, Holds sink → Holds (Sink.flush sink).2) (hsink : Holds channel.sink) :
    Holds later.sink := by
  induction h with
  | refl => exact hsink
  | write _ text ih => exact hwrite _ text ih
  | flush _ ih => exact hflush _ ih
  | @readLine later _ ih =>
    unfold Channel.readLine
    split <;> exact ih
  | note _ event ih => exact ih

theorem leads_writeLines (channel : Channel σ) (texts : List String) :
    channel.Leads (channel.writeLines texts).2 := by
  induction texts generalizing channel with
  | nil => exact .refl
  | cons text texts ih =>
    rw [writeLines_eq]
    exact andThen_holds (channel.Leads ·) (Leads.refl.write _) fun later h => h.trans (ih later)

end Channel

namespace Reader

theorem leads_ask_of_write {reader : Reader σ} (h : reader.prompt ≠ "") :
    (reader.channel.write reader.prompt).2.Leads reader.ask.2 := by
  rw [ask_eq, if_neg h]
  exact andThen_holds ((reader.channel.write reader.prompt).2.Leads ·) .refl fun _ h => h.flush

theorem leads_ask (reader : Reader σ) : reader.channel.Leads reader.ask.2 := by
  by_cases h : reader.prompt = ""
  · rw [ask, if_pos h]
    exact Channel.Leads.refl.flush
  · exact (Channel.Leads.refl.write _).trans (leads_ask_of_write h)

theorem leads_load (reader : Reader σ) : reader.channel.Leads reader.load.2.channel := by
  have hread : reader.channel.Leads reader.channel.readLine.2 := Channel.Leads.refl.readLine
  unfold load
  split <;> next h => rw [h] at hread; exact hread

theorem leads_fetch_of_ask (reader : Reader σ) :
    reader.asked.channel.Leads reader.fetch.2.channel := by
  cases hask : reader.skipLine.ask.1 with
  | ok =>
    rw [fetch_of_ask_ok hask]
    exact reader.asked.leads_load
  | error message =>
    rw [fetch_of_ask_error hask]
    exact .refl

theorem leads_fetch (reader : Reader σ) : reader.channel.Leads reader.fetch.2.channel :=
  reader.skipLine.leads_ask.trans reader.leads_fetch_of_ask

theorem leads_of_fetch {reader reader' : Reader σ} {answer : Except Stop Unit}
    (h : reader.fetch = (answer, reader')) : reader.channel.Leads reader'.channel := by
  have hfetch := reader.leads_fetch
  rw [h] at hfetch
  exact hfetch

theorem leads_next (reader : Reader σ) : reader.channel.Leads reader.next.2.channel := by
  fun_induction next reader with
  | case1 reader token line hline => exact Channel.Leads.refl.note _
  | case2 reader hline reader' hfetch ih => exact (leads_of_fetch hfetch).trans ih
  | case3 reader hline stop reader' hfetch => exact leads_of_fetch hfetch

theorem leads_next_of_fetch {reader : Reader σ} (h : reader.line.next? = none) :
    reader.fetch.2.channel.Leads reader.next.2.channel := by
  cases hfetch : reader.fetch with
  | mk answer reader' =>
    cases answer with
    | ok =>
      rw [next_of_fetch h hfetch]
      exact reader'.leads_next
    | error stop =>
      rw [next_of_stop h hfetch]
      exact .refl

end Reader

namespace Calculator

/-- A report is written on the channel, and the line is kept or given up. -/
theorem channel_reject (calculator : Calculator σ) (rejection : Rejection) :
    (calculator.reject rejection).2.reader.channel =
      ((calculator.reader.channel.note
        (.rejected rejection calculator.reader.line.position)).writeLines
        (rejection.report calculator.reader.line.text calculator.reader.line.position)).2 := by
  dsimp only [reject, Reader.note]
  split <;> next h => exact (congrArg Prod.snd h).symm

theorem leads_reject (calculator : Calculator σ) (rejection : Rejection) :
    calculator.reader.channel.Leads (calculator.reject rejection).2.reader.channel := by
  rw [channel_reject]
  exact (Channel.Leads.refl.note _).trans (Channel.leads_writeLines _ _)

theorem leads_advance_of_next (calculator : Calculator σ) (progress : Progress) :
    calculator.reader.next.2.channel.Leads
      (calculator.advance progress).2.reader.channel := by
  fun_induction advance calculator progress with
  | case1 calculator progress stop reader hnext =>
    rw [hnext]
    exact .refl
  | case2 calculator progress token reader hnext progress' operands hstep ih =>
    rw [hnext]
    exact reader.leads_next.trans ih
  | case3 calculator progress token reader hnext name operands hstep ih =>
    rw [hnext]
    exact (Channel.Leads.refl.note _).trans ((Reader.leads_next _).trans ih)
  | case4 calculator progress token reader hnext operands hstep ih =>
    rw [hnext]
    exact (Channel.Leads.refl.note _).trans ((Reader.leads_next _).trans ih)
  | case5 calculator progress token reader hnext value operands hstep =>
    rw [hnext]
    exact Channel.Leads.refl.note _
  | case6 calculator progress token reader hnext rejection hstep =>
    rw [hnext]
    exact leads_reject { calculator with reader } rejection
  | case7 calculator progress token reader hnext hstep =>
    rw [hnext]
    exact .refl

theorem leads_advance (calculator : Calculator σ) (progress : Progress) :
    calculator.reader.channel.Leads (calculator.advance progress).2.reader.channel :=
  calculator.reader.leads_next.trans (calculator.leads_advance_of_next progress)

theorem leads_evaluate (calculator : Calculator σ) :
    calculator.reader.channel.Leads calculator.evaluate.2.reader.channel :=
  calculator.clear.leads_advance .fresh

theorem leads_say (calculator : Calculator σ) (text : String) :
    calculator.reader.channel.Leads (calculator.say text).2.reader.channel :=
  Channel.Leads.refl.write _

/-- What saying farewell brings about and every flush keeps is true of a session that is closed. -/
theorem close_holds (Holds : Calculator σ → Prop) {calculator : Calculator σ} {how : Ending}
    (hsay : Holds ((calculator.note (.ended how)).say ("\n" ++ calculator.farewell)).2)
    (hflush : ∀ said, Holds said → Holds said.flush.2) : Holds (calculator.close how).2 := by
  rw [close_eq]
  exact andThen_holds Holds hsay fun said hsaid =>
    andThen_holds Holds (hflush said hsaid) fun _ hflushed => hflushed

theorem leads_close (calculator : Calculator σ) (how : Ending) :
    calculator.reader.channel.Leads (calculator.close how).2.reader.channel :=
  close_holds (fun later => calculator.reader.channel.Leads later.reader.channel)
    ((Channel.Leads.refl.note _).write _) fun _ hsaid => hsaid.flush

theorem leads_converse_of_evaluate (calculator : Calculator σ) :
    calculator.evaluate.2.reader.channel.Leads calculator.converse.2.reader.channel := by
  fun_induction converse calculator with
  | case1 calculator how evaluated hevaluate =>
    rw [hevaluate]
    exact evaluated.leads_close how
  | case2 calculator message evaluated hevaluate =>
    rw [hevaluate]
    exact .refl
  | case3 calculator outcome evaluated hevaluate message said hsay =>
    have hline := evaluated.leads_say outcome.line
    rw [hsay] at hline
    rw [hevaluate]
    exact hline
  | case4 calculator outcome evaluated hevaluate said hsay ih =>
    have hline := evaluated.leads_say outcome.line
    rw [hsay] at hline
    rw [hevaluate]
    exact hline.trans (said.leads_evaluate.trans ih)

theorem leads_converse (calculator : Calculator σ) :
    calculator.reader.channel.Leads calculator.converse.2.reader.channel :=
  calculator.leads_evaluate.trans calculator.leads_converse_of_evaluate

/-- A relation of a calculator to a later one that is kept by everything that evaluations and
sessions consist of. -/
structure Stepwise (Related : Calculator σ → Calculator σ → Prop) : Prop where
  refl (calculator) : Related calculator calculator
  trans {earlier calculator later} : Related earlier calculator → Related calculator later →
    Related earlier later
  start (calculator) : Related calculator (calculator.note .started)
  next (calculator) : Related calculator { calculator with reader := calculator.reader.next.2 }
  operands (calculator) (operands : Operands) : Related calculator { calculator with operands }
  retarget (calculator) (name : String) : Related calculator (calculator.retarget name)
  ignore (calculator) : Related calculator (calculator.note .assignIgnored)
  store (calculator) (value : Binary64) : Related calculator (calculator.store value)
  reject (calculator) (rejection : Rejection) : Related calculator (calculator.reject rejection).2
  say (calculator) (outcome : Outcome) : Related calculator (calculator.say outcome.line).2
  close (calculator) (how : Ending) : Related calculator (calculator.close how).2

namespace Stepwise

variable {Related : Calculator σ → Calculator σ → Prop}

theorem of_next (stepwise : Stepwise Related) {calculator : Calculator σ} {reader : Reader σ}
    {answer : Except Stop Token} (h : calculator.reader.next = (answer, reader)) :
    Related calculator { calculator with reader } := by
  have hnext := stepwise.next calculator
  rw [h] at hnext
  exact hnext

theorem of_token (stepwise : Stepwise Related) {calculator : Calculator σ} {reader : Reader σ}
    {answer : Except Stop Token} (h : calculator.reader.next = (answer, reader))
    (operands : Operands) : Related calculator { calculator with reader, operands } :=
  stepwise.trans (stepwise.of_next h) (stepwise.operands _ operands)

theorem advance (stepwise : Stepwise Related) (calculator : Calculator σ) (progress : Progress) :
    Related calculator (calculator.advance progress).2 := by
  fun_induction Calculator.advance calculator progress with
  | case1 calculator progress stop reader hnext => exact stepwise.of_next hnext
  | case2 calculator progress token reader hnext progress' operands hstep ih =>
    exact stepwise.trans (stepwise.of_token hnext operands) ih
  | case3 calculator progress token reader hnext name operands hstep ih =>
    exact stepwise.trans (stepwise.of_token hnext operands)
      (stepwise.trans (stepwise.retarget _ name) ih)
  | case4 calculator progress token reader hnext operands hstep ih =>
    exact stepwise.trans (stepwise.of_token hnext operands) (stepwise.trans (stepwise.ignore _) ih)
  | case5 calculator progress token reader hnext value operands hstep =>
    exact stepwise.trans (stepwise.of_token hnext operands) (stepwise.store _ value)
  | case6 calculator progress token reader hnext rejection hstep =>
    exact stepwise.trans (stepwise.of_next hnext) (stepwise.reject _ rejection)
  | case7 calculator progress token reader hnext hstep => exact stepwise.of_next hnext

theorem evaluate (stepwise : Stepwise Related) (calculator : Calculator σ) :
    Related calculator calculator.evaluate.2 :=
  stepwise.trans (stepwise.operands _ _) (stepwise.advance calculator.clear .fresh)

theorem of_evaluate (stepwise : Stepwise Related) {calculator evaluated : Calculator σ}
    {result : Except Stop Outcome} (h : calculator.evaluate = (result, evaluated)) :
    Related calculator evaluated := by
  have hevaluate := stepwise.evaluate calculator
  rw [h] at hevaluate
  exact hevaluate

theorem of_say (stepwise : Stepwise Related) {calculator said : Calculator σ} {outcome : Outcome}
    {answer : Except String Unit} (h : calculator.say outcome.line = (answer, said)) :
    Related calculator said := by
  have hsay := stepwise.say calculator outcome
  rw [h] at hsay
  exact hsay

theorem converse (stepwise : Stepwise Related) (calculator : Calculator σ) :
    Related calculator calculator.converse.2 := by
  fun_induction Calculator.converse calculator with
  | case1 calculator how evaluated hevaluate =>
    exact stepwise.trans (stepwise.of_evaluate hevaluate) (stepwise.close evaluated how)
  | case2 calculator message evaluated hevaluate => exact stepwise.of_evaluate hevaluate
  | case3 calculator outcome evaluated hevaluate message said hsay =>
    exact stepwise.trans (stepwise.of_evaluate hevaluate) (stepwise.of_say hsay)
  | case4 calculator outcome evaluated hevaluate said hsay ih =>
    have hsaid := stepwise.trans (stepwise.of_evaluate hevaluate) (stepwise.of_say hsay)
    exact stepwise.trans hsaid ih

theorem run (stepwise : Stepwise Related) (calculator : Calculator σ) :
    Related calculator calculator.run.2 :=
  stepwise.trans (stepwise.start calculator) (stepwise.converse _)

end Stepwise

end Calculator

end ReversePolish
