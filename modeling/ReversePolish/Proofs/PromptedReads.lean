import ReversePolish.Proofs.FailingRequests

/-!
# Prompted reads

Whatever is asked of a calculator and whatever fails, it takes a line only right after a flush that
succeeded, and flushes there only right after the prompt has been written, unless there is none. So
nothing waits for input while output is held back, and there is one prompt for every attempt.
-/

namespace ReversePolish

def promptCalls (prompt : String) : List Call :=
  if prompt = "" then [] else [.write prompt true]

/-- The calls of one attempt to read a line, the latest first. -/
inductive Attempt (prompt : String) : List Call → Prop
  | unprompted (h : prompt ≠ "") : Attempt prompt [.write prompt false]
  | unflushed : Attempt prompt (.flush false :: promptCalls prompt)
  | answered (reply : Reply) :
      Attempt prompt (.readLine reply :: .flush true :: promptCalls prompt)

/-- The calls that belong together in a session, the latest first. -/
inductive Turn (prompt farewell : String) : List Call → Prop
  | attempt {calls} (attempt : Attempt prompt calls) : Turn prompt farewell calls
  | reported {rejection : Rejection} {source : String} {position : Nat} {text : String}
      (line : text ∈ rejection.report source position) (succeeded : Bool) :
      Turn prompt farewell [.write (text ++ "\n") succeeded]
  | said (outcome : Outcome) (succeeded : Bool) :
      Turn prompt farewell [.write (outcome.line ++ "\n") succeeded]
  | unclosed : Turn prompt farewell [.write ("\n" ++ farewell ++ "\n") false]
  | closed (flushed : Bool) :
      Turn prompt farewell [.flush flushed, .write ("\n" ++ farewell ++ "\n") true]

/-- Calls that are made up of parts of some kind. -/
def MadeOf (Part : List Call → Prop) (calls : List Call) : Prop :=
  ∃ parts : List (List Call), (∀ part ∈ parts, Part part) ∧ parts.flatten = calls

namespace MadeOf

variable {Part Part' : List Call → Prop} {calls calls' : List Call}

theorem nil : MadeOf Part [] := ⟨[], by simp, rfl⟩

theorem single (h : Part calls) : MadeOf Part calls := ⟨[calls], by simpa using h, by simp⟩

theorem append (h : MadeOf Part calls) (h' : MadeOf Part calls') :
    MadeOf Part (calls ++ calls') := by
  obtain ⟨parts, hparts, rfl⟩ := h
  obtain ⟨parts', hparts', rfl⟩ := h'
  refine ⟨parts ++ parts', fun part hpart => ?_, List.flatten_append⟩
  exact (List.mem_append.1 hpart).elim (hparts part) (hparts' part)

theorem mono (h : MadeOf Part calls) (hparts : ∀ part, Part part → Part' part) :
    MadeOf Part' calls := by
  obtain ⟨parts, hpart, hcalls⟩ := h
  exact ⟨parts, fun part hmem => hparts part (hpart part hmem), hcalls⟩

end MadeOf

variable {σ : Type}

def Channel.Adds (Part : List Call → Prop) (earlier later : Channel σ) : Prop :=
  ∃ calls, MadeOf Part calls ∧ later.calls = calls ++ earlier.calls

namespace Channel.Adds

variable {Part : List Call → Prop} {earlier channel later : Channel σ}

theorem of_eq (h : later.calls = earlier.calls) : Adds Part earlier later := ⟨[], .nil, h⟩

theorem trans (h : Adds Part earlier channel) (h' : Adds Part channel later) :
    Adds Part earlier later := by
  obtain ⟨calls, hcalls, heq⟩ := h
  obtain ⟨calls', hcalls', heq'⟩ := h'
  refine ⟨calls' ++ calls, hcalls'.append hcalls, ?_⟩
  rw [heq', heq, List.append_assoc]

theorem single {calls : List Call} (h : Part calls)
    (hlater : later.calls = calls ++ earlier.calls) : Adds Part earlier later :=
  ⟨calls, .single h, hlater⟩

end Channel.Adds

/-- Every line that has been taken was asked for. -/
def Prompted (prompt : String) (calls : List Call) : Prop :=
  ∀ later reply earlier, calls = later ++ .readLine reply :: earlier →
    .flush true :: promptCalls prompt <+: earlier

namespace Prompted

variable {prompt farewell : String} {calls : List Call}

theorem nil : Prompted prompt [] := by
  intro later reply earlier h
  simp at h

theorem read (h : Prompted prompt calls) (reply : Reply)
    (hasked : .flush true :: promptCalls prompt <+: calls) :
    Prompted prompt (.readLine reply :: calls) := by
  intro later reply' earlier heq
  cases later with
  | nil =>
    obtain ⟨-, rfl⟩ := List.cons.inj heq
    exact hasked
  | cons call later => exact h later reply' earlier (List.cons.inj heq).2

theorem other {call : Call} (h : Prompted prompt calls) (hcall : ∀ reply, call ≠ .readLine reply) :
    Prompted prompt (call :: calls) := by
  intro later reply earlier heq
  cases later with
  | nil => exact absurd (List.cons.inj heq).1 (hcall reply)
  | cons call' later => exact h later reply earlier (List.cons.inj heq).2

theorem write (h : Prompted prompt calls) (text : String) (succeeded : Bool) :
    Prompted prompt (.write text succeeded :: calls) :=
  h.other (by simp)

theorem flush (h : Prompted prompt calls) (succeeded : Bool) :
    Prompted prompt (.flush succeeded :: calls) :=
  h.other (by simp)

theorem asked (h : Prompted prompt calls) : Prompted prompt (promptCalls prompt ++ calls) := by
  unfold promptCalls
  split
  · exact h
  · exact h.write prompt true

theorem turn {turn : List Call} (h : Prompted prompt calls) (hturn : Turn prompt farewell turn) :
    Prompted prompt (turn ++ calls) := by
  cases hturn with
  | attempt attempt =>
    cases attempt with
    | unprompted => exact h.write prompt false
    | unflushed => exact h.asked.flush false
    | answered reply => exact (h.asked.flush true).read reply (List.prefix_append _ calls)
  | reported line succeeded => exact h.write _ succeeded
  | said outcome succeeded => exact h.write _ succeeded
  | unclosed => exact h.write _ false
  | closed flushed => exact (h.write _ true).flush flushed

theorem of_turns (h : MadeOf (Turn prompt farewell) calls) : Prompted prompt calls := by
  obtain ⟨turns, hturns, rfl⟩ := h
  induction turns with
  | nil => exact .nil
  | cons turn turns ih =>
    obtain ⟨hturn, hlater⟩ := List.forall_mem_cons.1 hturns
    exact (ih hlater).turn hturn

end Prompted

variable [Sink σ]

theorem Channel.calls_flush (channel : Channel σ) :
    channel.flush.2.calls = .flush channel.flush.1.isOk :: channel.calls := rfl

theorem Channel.calls_write (channel : Channel σ) (text : String) :
    (channel.write text).2.calls = .write text (channel.write text).1.isOk :: channel.calls := rfl

namespace Reader

theorem calls_flush {reader : Reader σ} {channel : Channel σ}
    (h : channel.calls = promptCalls reader.prompt ++ reader.channel.calls) :
    if channel.flush.1.isOk then
      channel.flush.2.calls = .flush true :: promptCalls reader.prompt ++ reader.channel.calls
    else Channel.Adds (Attempt reader.prompt) reader.channel channel.flush.2 := by
  rw [Channel.calls_flush, h]
  split
  · next hok => rw [hok]; rfl
  · next hok =>
    refine .single .unflushed ?_
    rw [Channel.calls_flush, h, eq_false_of_ne_true hok]
    rfl

/-- A request for a line is an attempt that only the reply is missing from, or it has failed. -/
theorem calls_ask (reader : Reader σ) :
    if reader.ask.1.isOk then
      reader.ask.2.calls = .flush true :: promptCalls reader.prompt ++ reader.channel.calls
    else Channel.Adds (Attempt reader.prompt) reader.channel reader.ask.2 := by
  rw [ask_eq]
  split
  · next hprompt => exact calls_flush (by simp [promptCalls, hprompt])
  · next hprompt =>
    have hcalls := reader.channel.calls_write reader.prompt
    cases hwrite : reader.channel.write reader.prompt with
    | mk answer channel =>
      rw [hwrite] at hcalls
      cases answer with
      | ok =>
        refine calls_flush (hcalls.trans ?_)
        rw [promptCalls, if_neg hprompt]
        rfl
      | error message => exact .single (.unprompted hprompt) hcalls

omit [Sink σ] in
theorem calls_load (reader : Reader σ) :
    ∃ reply, reader.load.2.channel.calls = .readLine reply :: reader.channel.calls := by
  unfold load
  cases hreplies : reader.channel.replies with
  | nil => exact ⟨.ended, by simp [Channel.readLine, hreplies]⟩
  | cons reply replies =>
    refine ⟨reply, ?_⟩
    cases reply <;> simp [Channel.readLine, hreplies]

theorem attempt_fetch (reader : Reader σ) :
    Channel.Adds (Attempt reader.prompt) reader.channel reader.fetch.2.channel := by
  have hask := reader.skipLine.calls_ask
  cases hanswer : reader.skipLine.ask.1 with
  | ok =>
    rw [fetch_of_ask_ok hanswer]
    rw [hanswer] at hask
    obtain ⟨reply, hload⟩ := reader.asked.calls_load
    refine .single (.answered reply) (hload.trans ?_)
    exact congrArg _ hask
  | error message =>
    rw [fetch_of_ask_error hanswer]
    rw [hanswer] at hask
    exact hask

/-- A request for a token makes attempts and no other calls. -/
theorem attempts_next (reader : Reader σ) :
    Channel.Adds (Attempt reader.prompt) reader.channel reader.next.2.channel := by
  fun_induction next reader with
  | case1 reader token line hline => exact .of_eq rfl
  | case2 reader hline fetched hfetch ih =>
    have hattempt := reader.attempt_fetch
    rw [hfetch] at hattempt
    rw [prompt_of_fetch hfetch] at ih
    exact hattempt.trans ih
  | case3 reader hline stop fetched hfetch =>
    have hattempt := reader.attempt_fetch
    rw [hfetch] at hattempt
    exact hattempt

end Reader

namespace Channel.Adds

variable {prompt farewell : String} {earlier later : Channel σ}

omit [Sink σ] in
theorem turns (h : Adds (Attempt prompt) earlier later) :
    Adds (Turn prompt farewell) earlier later := by
  obtain ⟨calls, hcalls, heq⟩ := h
  exact ⟨calls, hcalls.mono fun _ => .attempt, heq⟩

end Channel.Adds

namespace Calculator

structure Proceeds (earlier later : Calculator σ) : Prop where
  prompt : later.reader.prompt = earlier.reader.prompt
  farewell : later.farewell = earlier.farewell
  turns : Channel.Adds (Turn earlier.reader.prompt earlier.farewell) earlier.reader.channel
    later.reader.channel

namespace Proceeds

variable {earlier calculator later : Calculator σ}

omit [Sink σ] in
theorem refl (calculator : Calculator σ) : Proceeds calculator calculator :=
  ⟨rfl, rfl, .of_eq rfl⟩

omit [Sink σ] in
theorem trans (h : Proceeds earlier calculator) (h' : Proceeds calculator later) :
    Proceeds earlier later where
  prompt := h'.prompt.trans h.prompt
  farewell := h'.farewell.trans h.farewell
  turns := by
    have hturns := h'.turns
    rw [h.prompt, h.farewell] at hturns
    exact h.turns.trans hturns

end Proceeds

theorem proceeds_next (calculator : Calculator σ) :
    Proceeds calculator { calculator with reader := calculator.reader.next.2 } :=
  ⟨calculator.reader.prompt_next, rfl, calculator.reader.attempts_next.turns⟩

/-- Each line of a report is a turn, up to the first that fails. -/
theorem turns_writeLines (prompt farewell : String) (channel : Channel σ) {rejection : Rejection}
    {source : String} {position : Nat} {texts : List String}
    (h : ∀ text ∈ texts, text ∈ rejection.report source position) :
    Channel.Adds (Turn prompt farewell) channel (channel.writeLines texts).2 := by
  induction texts generalizing channel with
  | nil => exact .of_eq rfl
  | cons text texts ih =>
    obtain ⟨htext, htexts⟩ := List.forall_mem_cons.1 h
    have hline : Channel.Adds (Turn prompt farewell) channel (channel.writeLine text).2 :=
      .single (.reported htext _) (channel.calls_write _)
    rw [Channel.writeLines_eq]
    exact andThen_holds (Channel.Adds _ channel ·) hline fun later hlater =>
      hlater.trans (ih later htexts)

theorem proceeds_reject (calculator : Calculator σ) (rejection : Rejection) :
    Proceeds calculator (calculator.reject rejection).2 := by
  have hreport := turns_writeLines calculator.reader.prompt calculator.farewell
    (calculator.reader.channel.note (.rejected rejection calculator.reader.line.position))
    fun text (h : text ∈ rejection.report calculator.reader.line.text
      calculator.reader.line.position) => h
  dsimp only [reject, Reader.note]
  split <;> next h => rw [h] at hreport; exact ⟨rfl, rfl, hreport⟩

theorem calls_say (calculator : Calculator σ) (text : String) :
    (calculator.say text).2.reader.channel.calls =
      .write (text ++ "\n") (calculator.say text).1.isOk :: calculator.reader.channel.calls := rfl

theorem calls_flush (calculator : Calculator σ) :
    calculator.flush.2.reader.channel.calls =
      .flush calculator.flush.1.isOk :: calculator.reader.channel.calls := rfl

/-- A farewell is flushed if it has been written, and the session has ended if that succeeded. -/
theorem calls_close (calculator : Calculator σ) (how : Ending) :
    let farewell := "\n" ++ calculator.farewell ++ "\n"
    let result := calculator.close how
    ∃ calls, result.2.reader.channel.calls = calls ++ calculator.reader.channel.calls ∧
      (result.1.isOk ∧ calls = [.flush true, .write farewell true] ∨
        ¬result.1.isOk ∧ calls = [.flush false, .write farewell true] ∨
        ¬result.1.isOk ∧ calls = [.write farewell false]) := by
  have hsay := (calculator.note (.ended how)).calls_say ("\n" ++ calculator.farewell)
  dsimp only
  rw [close_eq]
  cases hsaid : (calculator.note (.ended how)).say ("\n" ++ calculator.farewell) with
  | mk answer said =>
    rw [hsaid] at hsay
    cases answer with
    | error message => exact ⟨[_], hsay, .inr (.inr ⟨nofun, rfl⟩)⟩
    | ok =>
      have hflush := said.calls_flush
      rw [hsay] at hflush
      dsimp only [andThen]
      cases hflushed : said.flush with
      | mk answer flushed =>
        rw [hflushed] at hflush
        cases answer with
        | error message => exact ⟨[_, _], hflush, .inr (.inl ⟨nofun, rfl⟩)⟩
        | ok => exact ⟨[_, _], hflush, .inl ⟨rfl, rfl⟩⟩

theorem proceeds_close (calculator : Calculator σ) (how : Ending) :
    Proceeds calculator (calculator.close how).2 := by
  have hprompt : (calculator.close how).2.reader.prompt = calculator.reader.prompt :=
    close_holds (fun later => later.reader.prompt = calculator.reader.prompt) rfl fun _ h => h
  have hfarewell : (calculator.close how).2.farewell = calculator.farewell :=
    close_holds (fun later => later.farewell = calculator.farewell) rfl fun _ h => h
  obtain ⟨calls, hcalls, hcases⟩ := calculator.calls_close how
  refine ⟨hprompt, hfarewell, .single ?_ hcalls⟩
  rcases hcases with ⟨-, rfl⟩ | ⟨-, rfl⟩ | ⟨-, rfl⟩
  · exact .closed true
  · exact .closed false
  · exact .unclosed

theorem proceeds_say (calculator : Calculator σ) (outcome : Outcome) :
    Proceeds calculator (calculator.say outcome.line).2 :=
  ⟨rfl, rfl, .single (.said outcome _) (calculator.reader.channel.calls_write _)⟩

theorem stepwise_proceeds : Stepwise (Proceeds (σ := σ)) where
  refl := .refl
  trans := .trans
  start _ := ⟨rfl, rfl, .of_eq rfl⟩
  next := proceeds_next
  operands _ _ := ⟨rfl, rfl, .of_eq rfl⟩
  retarget _ _ := ⟨rfl, rfl, .of_eq rfl⟩
  ignore _ := ⟨rfl, rfl, .of_eq rfl⟩
  store _ _ := ⟨rfl, rfl, .of_eq rfl⟩
  reject := proceeds_reject
  say := proceeds_say
  close := proceeds_close

inductive Operation where
  | next
  | skipLine
  | evaluate
  | run
  deriving DecidableEq

def perform (calculator : Calculator σ) : Operation → Calculator σ
  | .next => { calculator with reader := calculator.reader.next.2 }
  | .skipLine => { calculator with reader := calculator.reader.skipLine }
  | .evaluate => calculator.evaluate.2
  | .run => calculator.run.2

/-- What every step keeps and giving up a line keeps too is kept whatever is asked. -/
theorem Stepwise.operations {Related : Calculator σ → Calculator σ → Prop}
    (stepwise : Stepwise Related)
    (hskip : ∀ calculator : Calculator σ, Related calculator (calculator.perform .skipLine))
    (calculator : Calculator σ) (operations : List Operation) :
    Related calculator (operations.foldl perform calculator) := by
  induction operations generalizing calculator with
  | nil => exact stepwise.refl calculator
  | cons operation operations ih =>
    refine stepwise.trans ?_ (ih (calculator.perform operation))
    cases operation with
    | next => exact stepwise.next calculator
    | skipLine => exact hskip calculator
    | evaluate => exact stepwise.evaluate calculator
    | run => exact stepwise.run calculator

theorem proceeds_operations (calculator : Calculator σ) (operations : List Operation) :
    Proceeds calculator (operations.foldl perform calculator) :=
  stepwise_proceeds.operations (fun _ => ⟨rfl, rfl, .of_eq rfl⟩) calculator operations

/-- A session that comes to its end has just said farewell and flushed. -/
theorem calls_of_converse_ok {calculator : Calculator σ} {how : Ending}
    (h : calculator.converse.1 = .ok how) :
    [.flush true, .write ("\n" ++ calculator.farewell ++ "\n") true] <+:
      calculator.converse.2.reader.channel.calls := by
  fun_induction converse calculator with
  | case1 calculator how' evaluated hevaluate =>
    obtain ⟨calls, hcalls, hcases⟩ := evaluated.calls_close how'
    rw [(stepwise_proceeds.of_evaluate hevaluate).farewell, h] at hcases
    obtain ⟨-, rfl⟩ := hcases.resolve_right (by simp [Except.isOk, Except.toBool])
    exact ⟨_, hcalls.symm⟩
  | case2 => simp at h
  | case3 => simp at h
  | case4 calculator outcome evaluated hevaluate said hsay ih =>
    have hsaid := (stepwise_proceeds.of_evaluate hevaluate).trans (stepwise_proceeds.of_say hsay)
    rw [← hsaid.farewell]
    exact ih h

/-- Whatever is asked of a calculator, in any order, on any channel and any sink: a line is taken
only right after a flush that succeeded and, unless there is no prompt, that right after the prompt
has been written. All calls belong to turns, and those of a request for a token to attempts to read
a line, each with one prompt. A session that comes to its end has made the farewell and a flush its
last two calls. -/
theorem reads_prompted (settings : Settings) (replies : List Reply) (sink : σ)
    (operations : List Operation) :
    let calculator := operations.foldl perform (start settings { replies, sink })
    let calls := calculator.reader.channel.calls
    (∀ later reply earlier, calls = later ++ .readLine reply :: earlier →
      .flush true :: promptCalls settings.prompt <+: earlier) ∧
    MadeOf (Turn settings.prompt settings.farewell) calls ∧
    (∃ attempts, MadeOf (Attempt settings.prompt) attempts ∧
      calculator.reader.next.2.channel.calls = attempts ++ calls) ∧
    calculator.reader.skipLine.channel.calls = calls ∧
    ∀ how, calculator.run.1 = .ok how →
      [.flush true, .write ("\n" ++ settings.farewell ++ "\n") true] <+:
        calculator.run.2.reader.channel.calls := by
  intro calculator calls
  have hproceeds : Proceeds _ calculator := proceeds_operations _ operations
  obtain ⟨turns, hturns, hcalls⟩ := hproceeds.turns
  have hall : MadeOf (Turn settings.prompt settings.farewell) calls := by
    rw [show calls = _ from hcalls.trans (List.append_nil turns)]
    exact hturns
  refine ⟨Prompted.of_turns hall, hall, ?_, rfl, fun how hrun => ?_⟩
  · have hattempts := calculator.reader.attempts_next
    rw [hproceeds.prompt] at hattempts
    exact hattempts
  · have hlast := calls_of_converse_ok hrun
    rw [show (calculator.note .started).farewell = _ from hproceeds.farewell] at hlast
    exact hlast

/-- The first flush fails, so the prompt is written again before the line is taken. -/
theorem reads_prompted_after_failed_flush :
    let start : Calculator FaultySink := .start {}
      { replies := [.line "1 @ #", .line "2 @"],
        sink := { failingWrites := fun _ => false, failingFlushes := (· = 0) } }
    let calculator := [.next, .evaluate, .skipLine].foldl perform start
    calculator.reader.channel.calls =
      [.readLine (.line "1 @ #"), .flush true, .write ">> " true, .flush false,
        .write ">> " true] ∧
    [.flush true, .write "\nBye\n" true] <+: calculator.run.2.reader.channel.calls := by
  intro start calculator
  have hall := reads_prompted {} start.reader.channel.replies start.reader.channel.sink
    [.next, .evaluate, .skipLine]
  exact ⟨by decide +kernel, hall.2.2.2.2 .endOfInput (by decide +kernel)⟩

end Calculator

end ReversePolish
