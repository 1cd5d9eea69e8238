import Mathlib.Data.Nat.Find
import ReversePolish.Proofs.PairedSessions
import ReversePolish.Proofs.SessionJournal
import ReversePolish.Proofs.SessionTranscript

/-!
# Outcomes that are not said

If the line of an outcome cannot be written, the session breaks off with the expression evaluated
and nothing else begun. Running the calculator again goes on with the next expression. However many
of these lines fail, the session comes to what it would have come to, and only they are missing.
-/

namespace ReversePolish

/-- The texts that are left, the latest first, if writes of some numbers fail. -/
def kept (failing : Nat → Bool) : List String → List String
  | [] => []
  | text :: earlier =>
    if failing earlier.length then kept failing earlier else text :: kept failing earlier

def Paper.without (paper : Paper) (failing : Nat → Bool) : Paper := ⟨kept failing paper.texts⟩

structure FaultySink.Mirrors (failing : Nat → Bool) (paper : Paper) (sink : FaultySink) :
    Prop where
  failingWrites : sink.failingWrites = failing
  failingFlushes : sink.failingFlushes = fun _ => false
  writes : sink.writes = paper.texts.length
  paper : sink.paper = paper.without failing

/-- The first number from a count on of a write that fails, if there is one. -/
structure NextFailure (failing : Nat → Bool) (count : Nat) (limit : Option Nat) : Prop where
  fails : ∀ number ∈ limit, count ≤ number ∧ failing number
  first : ∀ number, count ≤ number → failing number → ∃ first ∈ limit, first ≤ number

theorem exists_nextFailure (failing : Nat → Bool) (count : Nat) :
    ∃ limit, NextFailure failing count limit := by
  by_cases h : ∃ number, count ≤ number ∧ failing number
  · classical
    refine ⟨some (Nat.find h), fun number hnumber => ?_, fun number hle hfails => ?_⟩
    · obtain rfl := Option.some.inj hnumber
      exact Nat.find_spec h
    · exact ⟨Nat.find h, rfl, Nat.find_min' h ⟨hle, hfails⟩⟩
  · exact ⟨none, nofun, fun number hle hfails => absurd ⟨number, hle, hfails⟩ h⟩

namespace FaultySink

variable {failing : Nat → Bool} {paper : Paper} {sink : FaultySink}

theorem write_fst (sink : FaultySink) (text : String) :
    (Sink.write sink text).1 = if sink.failingWrites sink.writes then
      .error ("write " ++ toString sink.writes ++ " failed") else .ok () := by
  dsimp only [Sink.write]
  split <;> rfl

theorem Mirrors.write (h : sink.Mirrors failing paper) (text : String) :
    (Sink.write sink text).2.Mirrors failing (paper.add text) := by
  obtain ⟨rfl, hflushes, hwrites, hpaper⟩ := h
  have hkept : (paper.add text).without sink.failingWrites =
      if sink.failingWrites paper.texts.length then paper.without sink.failingWrites
      else (paper.without sink.failingWrites).add text := by
    dsimp only [Paper.without, Paper.add, kept]
    split <;> rfl
  dsimp only [Sink.write]
  rw [← hwrites, ← hpaper] at hkept
  split
  · next hfails =>
    rw [if_pos hfails] at hkept
    exact ⟨rfl, hflushes, congrArg (· + 1) hwrites, hkept.symm⟩
  · next hfails =>
    rw [if_neg hfails] at hkept
    exact ⟨rfl, hflushes, congrArg (· + 1) hwrites, hkept.symm⟩

theorem Mirrors.flush (h : sink.Mirrors failing paper) :
    (Sink.flush sink).1 = .ok () ∧ (Sink.flush sink).2.Mirrors failing paper := by
  have hok : sink.failingFlushes sink.flushes = false := congrFun h.failingFlushes _
  dsimp only [Sink.flush]
  rw [hok]
  exact ⟨rfl, h.failingWrites, h.failingFlushes, h.writes, h.paper⟩

def cutOff (failing : Nat → Bool) (limit : Option Nat) : CutOff Paper FaultySink where
  together paper sink :=
    sink.Mirrors failing paper ∧ NextFailure failing paper.texts.length limit
  apart paper _ := ∃ number ∈ limit, number < paper.texts.length
  message := "write " ++ toString (limit.getD 0) ++ " failed"
  write {paper sink} h text := by
    obtain ⟨hmirrors, hnext⟩ := h
    rw [write_fst, hmirrors.failingWrites, hmirrors.writes]
    by_cases hfails : failing paper.texts.length
    · obtain ⟨number, hnumber, hle⟩ := hnext.first _ (Nat.le_refl _) hfails
      obtain rfl := Nat.le_antisymm hle (hnext.fails number hnumber).1
      refine .inr ⟨?_, _, hnumber, Nat.lt_succ_self _⟩
      rw [if_pos hfails, Option.mem_def.1 hnumber]
      rfl
    · refine .inl ⟨if_neg hfails, hmirrors.write text, fun number hnumber => ?_,
        fun number hle => hnext.first number (Nat.le_of_succ_le hle)⟩
      obtain ⟨hle, hnumber'⟩ := hnext.fails number hnumber
      refine ⟨Nat.lt_of_le_of_ne hle ?_, hnumber'⟩
      rintro rfl
      exact hfails hnumber'
  flush h := .inl ⟨h.1.flush.1, h.1.flush.2, h.2⟩
  apart_write h text := by
    obtain ⟨number, hnumber, hlt⟩ := h
    exact ⟨number, hnumber, Nat.lt_succ_of_lt hlt⟩
  apart_flush h := h

end FaultySink

/-- Channels on which a session goes on alike. Their calls may differ, and how often a session has
been started. -/
structure Channel.Alike {σ : Type} (channel channel' : Channel σ) : Prop where
  replies : channel.replies = channel'.replies
  sink : channel.sink = channel'.sink
  events : channel.journal.filter (· ≠ .started) = channel'.journal.filter (· ≠ .started)

theorem Channel.Alike.steady {σ : Type} [Sink σ] (prompt : String) :
    Channel.Steady prompt prompt (Channel.Alike (σ := σ)) where
  replies h := h.replies
  note h event := ⟨h.replies, h.sink, by simp only [Channel.note, List.filter_cons, h.events]⟩
  write h text := by
    refine ⟨h.replies, ?_, h.events⟩
    dsimp only [Channel.write]
    rw [h.sink]
  flush h := by
    refine ⟨h.replies, ?_, h.events⟩
    dsimp only [Channel.flush]
    rw [h.sink]
  answered {channel channel'} h reply replies := by
    let reader : Reader σ := { channel, prompt }
    let reader' : Reader σ := { channel := channel', prompt }
    have halike : reader.Alike reader' := ⟨rfl, rfl, h.replies, h.sink⟩
    refine ⟨rfl, halike.asked.2.sink, ?_⟩
    change (channel.prompted prompt).journal.filter _ = (channel'.prompted prompt).journal.filter _
    rw [Channel.prompted, Channel.prompted, Reader.journal_ask, Reader.journal_ask, h.events]

namespace Calculator

/-- Running a calculator again after every failure comes to an ending. -/
inductive RunsAgain {σ : Type} [Sink σ] :
    Except String Ending × Calculator σ → Ending → Calculator σ → Prop
  | done (how : Ending) (last : Calculator σ) : RunsAgain (.ok how, last) how last
  | again {message : String} {broken last : Calculator σ} {how : Ending}
      (later : RunsAgain broken.run how last) : RunsAgain (.error message, broken) how last

def count (calculator : Calculator Paper) : Nat := calculator.reader.channel.sink.texts.length

/-- The numbers of the writes by which a session says its outcomes. -/
def outcomeWrites (calculator : Calculator Paper) : List Nat :=
  match _h : calculator.evaluate with
  | (.ok outcome, evaluated) => evaluated.count :: outcomeWrites (evaluated.say outcome.line).2
  | (.error _, _) => []
termination_by calculator.unread
decreasing_by
  rw [unread_say]
  exact unread_of_evaluate _h

/-- A session of which outcomes were not said has come to the same as a complete one, and on its
paper only these writes are missing. -/
structure Spared (failing : Nat → Bool) (complete : Calculator Paper)
    (last : Calculator FaultySink) : Prop where
  memory : last.memory = complete.memory
  replies : last.reader.channel.replies = complete.reader.channel.replies
  paper : last.reader.channel.sink.paper = complete.reader.channel.sink.without failing
  events : last.reader.channel.journal.filter (· ≠ .started) =
    complete.reader.channel.journal.filter (· ≠ .started)

theorem outcomeWrites_of_ok {calculator evaluated : Calculator Paper} {outcome : Outcome}
    (h : calculator.evaluate = (.ok outcome, evaluated)) :
    calculator.outcomeWrites = evaluated.count :: (evaluated.say outcome.line).2.outcomeWrites := by
  rw [outcomeWrites]
  split
  · next h' =>
    rw [h] at h'
    obtain ⟨houtcome, rfl⟩ := Prod.mk.inj h'
    rw [Except.ok.inj houtcome]
  · next h' => simp [h] at h'

theorem outcomeWrites_of_stop {calculator evaluated : Calculator Paper} {stop : Stop}
    (h : calculator.evaluate = (.error stop, evaluated)) : calculator.outcomeWrites = [] := by
  rw [outcomeWrites]
  split
  · next h' => simp [h] at h'
  · rfl

theorem count_le_of_leads {calculator later : Calculator Paper}
    (h : calculator.reader.channel.Leads later.reader.channel) :
    calculator.count ≤ later.count :=
  h.sink (fun paper => calculator.count ≤ paper.texts.length)
    (fun _ _ hle => Nat.le_succ_of_le hle) (fun _ hle => hle) (Nat.le_refl _)

theorem count_le_of_evaluate {calculator evaluated : Calculator Paper}
    {result : Except Stop Outcome} (h : calculator.evaluate = (result, evaluated)) :
    calculator.count ≤ evaluated.count := by
  have hleads := calculator.leads_evaluate
  rw [h] at hleads
  exact count_le_of_leads hleads

theorem count_le_of_mem_outcomeWrites {calculator : Calculator Paper} {number : Nat}
    (h : number ∈ calculator.outcomeWrites) : calculator.count ≤ number := by
  fun_induction outcomeWrites calculator with
  | case1 calculator outcome evaluated hevaluate ih =>
    have hle := count_le_of_evaluate hevaluate
    rcases List.mem_cons.1 h with rfl | hlater
    · exact hle
    · exact Nat.le_trans hle (Nat.le_of_succ_le (ih hlater))
  | case2 => simp at h

/-- Nothing but the lines of the outcomes of a session is bound to fail. -/
def FailsOnlyOutcomes (failing : Nat → Bool) (calculator : Calculator Paper) : Prop :=
  ∀ number, calculator.count ≤ number → failing number → number ∈ calculator.outcomeWrites

section

variable {failing : Nat → Bool} {prompt : String} {calculator calculator' : Calculator Paper}
  {sink' : FaultySink}

/-- An outcome is evaluated before anything fails, and the same holds behind its line. -/
theorem FailsOnlyOutcomes.of_ok {evaluated : Calculator Paper} {outcome : Outcome}
    (h : FailsOnlyOutcomes failing calculator)
    (hevaluate : calculator.evaluate = (.ok outcome, evaluated)) :
    (∀ number, calculator.count ≤ number → failing number → evaluated.count ≤ number) ∧
      FailsOnlyOutcomes failing (evaluated.say outcome.line).2 := by
  have hevaluated := count_le_of_evaluate hevaluate
  have hcount : (evaluated.say outcome.line).2.count = evaluated.count + 1 := rfl
  rw [FailsOnlyOutcomes, outcomeWrites_of_ok hevaluate] at h
  constructor
  · intro number hle hfails
    rcases List.mem_cons.1 (h number hle hfails) with rfl | hlater
    · exact Nat.le_refl _
    · have hle' := count_le_of_mem_outcomeWrites hlater
      omega
  · intro number hle hfails
    refine (List.mem_cons.1 (h number (by omega) hfails)).resolve_left ?_
    omega

/-- Whether the line of an outcome is written or not, the session stands behind it. -/
theorem Paired.say_faulty (h : Paired prompt prompt Channel.Alike calculator calculator')
    (hmirrors : sink'.Mirrors failing calculator.reader.channel.sink) (text : String) :
    ∃ answer said' sink'',
      (withSink calculator' sink' : Calculator FaultySink).say text =
        (answer, withSink said' sink'') ∧
      Paired prompt prompt Channel.Alike (calculator.say text).2 said' ∧
      sink''.Mirrors failing (calculator.say text).2.reader.channel.sink := by
  obtain ⟨answer, hanswer⟩ : ∃ answer, answer = (Sink.write sink' (text ++ "\n")).1 := ⟨_, rfl⟩
  refine ⟨answer, ⟨⟨⟨calculator'.reader.channel.replies,
    calculator'.reader.channel.sink.add (text ++ "\n"),
    .write (text ++ "\n") answer.isOk :: calculator'.reader.channel.calls,
    calculator'.reader.channel.journal⟩, calculator'.reader.prompt, calculator'.reader.line⟩,
    calculator'.memory, calculator'.farewell, calculator'.operands⟩,
    (Sink.write sink' (text ++ "\n")).2, ?_, ?_, ?_⟩
  · rw [hanswer]
    rfl
  · refine ⟨⟨h.reader.prompt, h.reader.prompt', h.reader.line, h.reader.channel.replies, ?_,
      h.reader.channel.events⟩, h.memory, h.farewell, h.operands⟩
    exact congrArg (fun paper : Paper => paper.add (text ++ "\n")) h.reader.channel.sink
  · exact hmirrors.write (text ++ "\n")

theorem Paired.together {limit : Option Nat}
    (h : Paired prompt prompt Channel.Alike calculator calculator')
    (hmirrors : sink'.Mirrors failing calculator.reader.channel.sink)
    (hnext : NextFailure failing calculator.count limit) :
    (FaultySink.cutOff failing limit).together calculator'.reader.channel.sink sink' := by
  rw [← h.reader.channel.sink]
  exact ⟨hmirrors, hnext⟩

/-- Where no write fails any more before a number, an evaluation that has written less is not
disturbed. -/
theorem Paired.evaluate_faulty {limit : Option Nat}
    (h : Paired prompt prompt Channel.Alike calculator calculator')
    (hmirrors : sink'.Mirrors failing calculator.reader.channel.sink)
    (hnext : NextFailure failing calculator.count limit) {result : Except Stop Outcome}
    {evaluated : Calculator Paper} (hevaluate : calculator.evaluate = (result, evaluated))
    (hlimit : ∀ number ∈ limit, evaluated.count ≤ number) :
    ∃ evaluated' sink'',
      (withSink calculator' sink' : Calculator FaultySink).evaluate =
        (result, withSink evaluated' sink'') ∧
      Paired prompt prompt Channel.Alike evaluated evaluated' ∧
      sink''.Mirrors failing evaluated.reader.channel.sink ∧
      NextFailure failing evaluated.count limit := by
  obtain ⟨evaluated', hevaluate', hpaired⟩ :=
    (Paired.lockstep (Channel.Alike.steady prompt)).of_evaluate h hevaluate
  have hsink := hpaired.reader.channel.sink
  have hfollows : (FaultySink.cutOff failing limit).Follows _ calculator'.evaluate
      (withSink calculator' sink' : Calculator FaultySink).evaluate :=
    CutOff.follows_evaluate (h.together hmirrors hnext)
  rw [hevaluate'] at hfollows
  rcases hfollows with ⟨sink'', ⟨hmirrors', hnext'⟩, hsame⟩ | ⟨-, ⟨number, hnumber, hlt⟩, -⟩
  · change sink''.Mirrors failing evaluated'.reader.channel.sink at hmirrors'
    change NextFailure failing evaluated'.reader.channel.sink.texts.length limit at hnext'
    rw [← hsink] at hmirrors' hnext'
    exact ⟨evaluated', sink'', hsame, hpaired, hmirrors', hnext'⟩
  · change number < evaluated'.reader.channel.sink.texts.length at hlt
    rw [← hsink] at hlt
    exact absurd (hlimit number hnumber) (Nat.not_le_of_lt hlt)

/-- Where no write fails any more, a farewell is not disturbed. -/
theorem Paired.close_faulty (h : Paired prompt prompt Channel.Alike calculator calculator')
    (hmirrors : sink'.Mirrors failing calculator.reader.channel.sink)
    (hnext : NextFailure failing calculator.count none) (how : Ending) :
    ∃ closed' sink'',
      (withSink calculator' sink' : Calculator FaultySink).close how =
        (.ok how, withSink closed' sink'') ∧
      Paired prompt prompt Channel.Alike (calculator.closed how) closed' ∧
      sink''.Mirrors failing (calculator.closed how).reader.channel.sink := by
  have hclosed := h.closed (Channel.Alike.steady prompt) how
  have hfollows := CutOff.follows_close (h.together hmirrors hnext) how
  rw [close_ok] at hfollows
  rcases hfollows with ⟨sink'', ⟨hmirrors', -⟩, hclose⟩ | ⟨-, ⟨number, hnumber, -⟩, -⟩
  · refine ⟨_, sink'', hclose, hclosed, ?_⟩
    rw [hclosed.reader.channel.sink]
    exact hmirrors'
  · simp at hnumber

theorem Paired.restart (h : Paired prompt prompt Channel.Alike calculator calculator') :
    Paired prompt prompt Channel.Alike calculator (calculator'.note .started) := by
  have hreader := h.reader
  refine ⟨⟨hreader.prompt, hreader.prompt', hreader.line, hreader.channel.replies,
    hreader.channel.sink, hreader.channel.events.trans ?_⟩, h.memory, h.farewell, h.operands⟩
  exact (List.filter_cons_of_neg (by decide)).symm

theorem Paired.spared {complete complete' : Calculator Paper} {sink'' : FaultySink}
    (h : Paired prompt prompt Channel.Alike complete complete')
    (hmirrors : sink''.Mirrors failing complete.reader.channel.sink) :
    Spared failing complete (withSink complete' sink'') where
  memory := h.memory.symm
  replies := h.reader.channel.replies.symm
  paper := hmirrors.paper
  events := h.reader.channel.events.symm

theorem Paired.runsAgain_of_ended (h : Paired prompt prompt Channel.Alike calculator calculator')
    (hmirrors : sink'.Mirrors failing calculator.reader.channel.sink)
    (hfailing : FailsOnlyOutcomes failing calculator) {how : Ending}
    {evaluated : Calculator Paper}
    (hevaluate : calculator.evaluate = (.error (.ended how), evaluated)) :
    ∃ last, RunsAgain (withSink calculator' sink' : Calculator FaultySink).converse how last ∧
      Spared failing (evaluated.closed how) last := by
  obtain ⟨limit, hnext⟩ := exists_nextFailure failing calculator.count
  rw [FailsOnlyOutcomes, outcomeWrites_of_stop hevaluate] at hfailing
  have hnone : ∀ number, number ∉ limit := fun number hnumber =>
    absurd (hfailing number (hnext.fails number hnumber).1 (hnext.fails number hnumber).2)
      List.not_mem_nil
  obtain rfl := Option.eq_none_iff_forall_not_mem.2 hnone
  obtain ⟨evaluated', sink'', hevaluate', hpaired, hmirrors', hnext'⟩ :=
    h.evaluate_faulty hmirrors hnext hevaluate nofun
  obtain ⟨closed', sink₃, hclose, hpaired', hmirrors''⟩ :=
    hpaired.close_faulty hmirrors' hnext' how
  rw [converse_of_ended hevaluate', hclose]
  exact ⟨_, .done how _, hpaired'.spared hmirrors''⟩

/-- If nothing fails from here on but the lines of outcomes, the session comes to its ending when it
is run again after each of them. -/
theorem Paired.runsAgain (h : Paired prompt prompt Channel.Alike calculator calculator')
    (hmirrors : sink'.Mirrors failing calculator.reader.channel.sink)
    (hfailing : FailsOnlyOutcomes failing calculator) {how : Ending} {complete : Calculator Paper}
    (hcomplete : calculator.converse = (.ok how, complete)) :
    ∃ last, RunsAgain (withSink calculator' sink' : Calculator FaultySink).converse how last ∧
      Spared failing complete last := by
  fun_induction converse calculator generalizing calculator' sink' with
  | case1 calculator how' evaluated hevaluate =>
    rw [close_ok] at hcomplete
    obtain ⟨hhow, rfl⟩ := Prod.mk.inj hcomplete
    obtain rfl := Except.ok.inj hhow
    exact h.runsAgain_of_ended hmirrors hfailing hevaluate
  | case2 => simp at hcomplete
  | case3 => simp at hcomplete
  | case4 calculator outcome evaluated hevaluate said hsay ih =>
    obtain rfl : (evaluated.say outcome.line).2 = said := congrArg Prod.snd hsay
    obtain ⟨limit, hnext⟩ := exists_nextFailure failing calculator.count
    obtain ⟨hbefore, hlater⟩ := hfailing.of_ok hevaluate
    obtain ⟨evaluated', sink'', hevaluate', hpaired, hmirrors', -⟩ :=
      h.evaluate_faulty hmirrors hnext hevaluate fun number hnumber =>
        hbefore number (hnext.fails number hnumber).1 (hnext.fails number hnumber).2
    obtain ⟨answer, said', sink₃, hsay', hpaired', hmirrors''⟩ :=
      hpaired.say_faulty hmirrors' outcome.line
    rw [converse_of_ok hevaluate', hsay']
    cases answer with
    | ok => exact ih hpaired' hmirrors'' hlater hcomplete
    | error message =>
      obtain ⟨last, hagain, hspared⟩ := ih hpaired'.restart hmirrors'' hlater hcomplete
      exact ⟨last, .again hagain, hspared⟩

end

/-- A line of an outcome that could not be written neither undoes nor repeats an evaluation. If only
such lines fail, running the calculator again after each failure comes to the ending, the memory and
the events of the session in which nothing fails, and just these lines are missing. -/
theorem run_again_spares (settings : Settings) (lines : List String) (failing : Nat → Bool) :
    let undisturbed : Calculator Paper :=
      .start settings { replies := lines.map .line, sink := {} }
    let disturbed : Calculator FaultySink := .start settings
      { replies := lines.map .line,
        sink := { failingWrites := failing, failingFlushes := fun _ => false } }
    (∀ number, failing number → number ∈ (undisturbed.note .started).outcomeWrites) →
      ∃ how complete last, undisturbed.run = (.ok how, complete) ∧
        RunsAgain disturbed.run how last ∧ Spared failing complete last := by
  intro undisturbed disturbed hfailing
  have hconcludes := run_concludes Paper.keeps_written settings lines {}
  obtain ⟨how, hhow⟩ : ∃ how, undisturbed.run.1 = .ok how := ⟨_, hconcludes.ending⟩
  have hrun : undisturbed.run = (.ok how, undisturbed.run.2) := Prod.ext hhow rfl
  have hpaired : Paired settings.prompt settings.prompt Channel.Alike
      (undisturbed.note .started) (undisturbed.note .started) :=
    ⟨⟨rfl, rfl, rfl, rfl, rfl, rfl⟩, rfl, rfl, rfl⟩
  have hmirrors : disturbed.reader.channel.sink.Mirrors failing {} := ⟨rfl, rfl, rfl, rfl⟩
  obtain ⟨last, hagain, hspared⟩ :=
    hpaired.runsAgain hmirrors (fun number _ => hfailing number) hrun
  exact ⟨how, undisturbed.run.2, last, hrun, hagain, hspared⟩

/-- Of four outcomes a value and a "no value" cannot be written. -/
theorem run_again_spares_two_of_four :
    let lines := ["1 @ 2 @", "+ @ x = 5 @", "x = 3 @"]
    let disturbed : Calculator FaultySink := .start {}
      { replies := lines.map .line,
        sink := { failingWrites := (· ∈ [2, 7]), failingFlushes := fun _ => false } }
    ∃ last, RunsAgain disturbed.run .endOfInput last ∧
      last.memory = ⟨[("x", .ofBits 0x4008000000000000), ("it", .ofBits 0x4000000000000000)], "x"⟩ ∧
      last.reader.channel.sink.paper.written =
        ">> 1\n>> Not enough operands\n+ @ x = 5 @\n^\n>> 3\n>> \nBye\n" := by
  intro lines disturbed
  let undisturbed : Calculator Paper := .start {} { replies := lines.map .line, sink := {} }
  have hwrites : (undisturbed.note .started).outcomeWrites = [1, 2, 7, 9] := by decide +kernel
  have hfailing : ∀ number, decide (number ∈ [2, 7]) →
      number ∈ (undisturbed.note .started).outcomeWrites := by
    intro number hfails
    have hsubset : ∀ number ∈ [2, 7], number ∈ [1, 2, 7, 9] := by decide
    rw [hwrites]
    exact hsubset number (of_decide_eq_true hfails)
  obtain ⟨how, complete, last, hrun, hagain, hspared⟩ :=
    run_again_spares {} lines (· ∈ [2, 7]) hfailing
  have hfacts : undisturbed.run.1 = .ok .endOfInput ∧
      undisturbed.run.2.memory =
        ⟨[("x", .ofBits 0x4008000000000000), ("it", .ofBits 0x4000000000000000)], "x"⟩ ∧
      (undisturbed.run.2.reader.channel.sink.without (· ∈ [2, 7])).written =
        ">> 1\n>> Not enough operands\n+ @ x = 5 @\n^\n>> 3\n>> \nBye\n" := by
    decide +kernel
  obtain ⟨hended, hmemory, hpaper⟩ := hfacts
  change undisturbed.run = _ at hrun
  rw [hrun] at hended hmemory hpaper
  obtain rfl := Except.ok.inj hended
  refine ⟨last, hagain, hspared.memory.trans hmemory, ?_⟩
  rw [hspared.paper]
  exact hpaper

end Calculator

end ReversePolish
