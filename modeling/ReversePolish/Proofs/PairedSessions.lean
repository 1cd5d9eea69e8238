import ReversePolish.Proofs.SideBySide
import ReversePolish.Proofs.WorksheetRun

/-!
# Sessions on two channels

On sinks that never fail, two calculators come to the same all along if what they do on their
channels keeps the channels related: they note events, write and flush, and are answered after a
prompt, which need not be the same one.
-/

namespace ReversePolish

variable {σ τ : Type} [Sink σ] [Sink τ] {prompt prompt' : String}
  {Related : Channel σ → Channel τ → Prop}

/-- A relation of channels with the same replies to come that is kept by all that calculators do on
their channels, each with its own prompt. -/
structure Channel.Steady (prompt prompt' : String) (Related : Channel σ → Channel τ → Prop) :
    Prop where
  replies {channel channel'} : Related channel channel' → channel.replies = channel'.replies
  note {channel channel'} : Related channel channel' → ∀ event,
    Related (channel.note event) (channel'.note event)
  write {channel channel'} : Related channel channel' → ∀ text,
    Related (channel.write text).2 (channel'.write text).2
  flush {channel channel'} : Related channel channel' → Related channel.flush.2 channel'.flush.2
  answered {channel channel'} : Related channel channel' → ∀ reply replies,
    Related ((channel.prompted prompt).answered reply replies)
      ((channel'.prompted prompt').answered reply replies)

/-- Readers at the same place on the same line, each with its own prompt, on related channels. -/
structure Reader.Paired (prompt prompt' : String) (Related : Channel σ → Channel τ → Prop)
    (reader : Reader σ) (reader' : Reader τ) : Prop where
  prompt : reader.prompt = prompt
  prompt' : reader'.prompt = prompt'
  line : reader.line = reader'.line
  channel : Related reader.channel reader'.channel

structure Calculator.Paired (prompt prompt' : String) (Related : Channel σ → Channel τ → Prop)
    (calculator : Calculator σ) (calculator' : Calculator τ) : Prop where
  reader : calculator.reader.Paired prompt prompt' Related calculator'.reader
  memory : calculator.memory = calculator'.memory
  farewell : calculator.farewell = calculator'.farewell
  operands : calculator.operands = calculator'.operands

theorem Reader.Paired.answered (steady : Channel.Steady prompt prompt' Related)
    {reader : Reader σ} {reader' : Reader τ}
    (h : reader.Paired prompt prompt' Related reader') (reply : Reply) (replies : List Reply) :
    Related (reader.asked.channel.answered reply replies)
      (reader'.asked.channel.answered reply replies) := by
  have hanswered := steady.answered h.channel reply replies
  rw [← h.prompt, ← h.prompt'] at hanswered
  exact hanswered

namespace Calculator.Paired

variable {calculator : Calculator σ} {calculator' : Calculator τ}

theorem note (steady : Channel.Steady prompt prompt' Related)
    (h : Paired prompt prompt' Related calculator calculator') (event : Event) :
    Paired prompt prompt' Related (calculator.note event) (calculator'.note event) :=
  ⟨⟨h.reader.prompt, h.reader.prompt', h.reader.line, steady.note h.reader.channel event⟩,
    h.memory, h.farewell, h.operands⟩

omit [Sink σ] [Sink τ] in
theorem remember (h : Paired prompt prompt' Related calculator calculator')
    (f : Memory → Memory) :
    Paired prompt prompt' Related { calculator with memory := f calculator.memory }
      { calculator' with memory := f calculator'.memory } :=
  ⟨h.reader, congrArg f h.memory, h.farewell, h.operands⟩

theorem say (steady : Channel.Steady prompt prompt' Related)
    (h : Paired prompt prompt' Related calculator calculator') (text : String) :
    Paired prompt prompt' Related (calculator.say text).2 (calculator'.say text).2 :=
  ⟨⟨h.reader.prompt, h.reader.prompt', h.reader.line, steady.write h.reader.channel _⟩, h.memory,
    h.farewell, h.operands⟩

theorem closed (steady : Channel.Steady prompt prompt' Related)
    (h : Paired prompt prompt' Related calculator calculator') (how : Ending) :
    Paired prompt prompt' Related (calculator.closed how) (calculator'.closed how) := by
  have hsaid := (h.note steady (.ended how)).say steady ("\n" ++ calculator.farewell)
  rw [Calculator.closed, Calculator.closed, ← h.farewell]
  exact ⟨⟨hsaid.reader.prompt, hsaid.reader.prompt', hsaid.reader.line,
    steady.flush hsaid.reader.channel⟩, hsaid.memory, hsaid.farewell, hsaid.operands⟩

end Calculator.Paired

variable [Sink.Reliable σ] [Sink.Reliable τ]

namespace Channel.Steady

theorem writeLines (steady : Steady prompt prompt' Related) {channel : Channel σ}
    {channel' : Channel τ} (h : Related channel channel') (texts : List String) :
    Related (channel.writeLines texts).2 (channel'.writeLines texts).2 := by
  induction texts generalizing channel channel' with
  | nil => exact h
  | cons text texts ih =>
    rw [writeLines_cons, writeLines_cons]
    exact ih (steady.write h _)

end Channel.Steady

namespace Reader.Paired

variable {reader : Reader σ} {reader' : Reader τ}

theorem fetch (steady : Channel.Steady prompt prompt' Related)
    (h : reader.Paired prompt prompt' Related reader') :
    reader.fetch.1 = reader'.fetch.1 ∧
      reader.fetch.2.Paired prompt prompt' Related reader'.fetch.2 := by
  have hexhaust := congrArg Line.exhaust h.line
  rw [fetch_eq_load, fetch_eq_load, load, load]
  cases hreplies : reader.channel.replies with
  | nil =>
    have hreplies' := steady.replies h.channel ▸ hreplies
    rw [Channel.readLine_nil (by simpa using hreplies),
      Channel.readLine_nil (by simpa using hreplies')]
    exact ⟨rfl, h.prompt, h.prompt', hexhaust, h.answered steady _ _⟩
  | cons reply replies =>
    have hreplies' := steady.replies h.channel ▸ hreplies
    rw [Channel.readLine_cons (by simpa using hreplies),
      Channel.readLine_cons (by simpa using hreplies')]
    cases reply with
    | line text => exact ⟨rfl, h.prompt, h.prompt', rfl, h.answered steady _ _⟩
    | ended | failed message =>
      exact ⟨rfl, h.prompt, h.prompt', hexhaust, h.answered steady _ _⟩

theorem lockstep (steady : Channel.Steady prompt prompt' Related) :
    Lockstep (Paired prompt prompt' Related) where
  line h := h.line
  token h _ event := ⟨h.prompt, h.prompt', rfl, steady.note h.channel event⟩
  fetch h := h.fetch steady

end Reader.Paired

namespace Calculator.Paired

variable {calculator : Calculator σ} {calculator' : Calculator τ}

theorem rejected (steady : Channel.Steady prompt prompt' Related)
    (h : Paired prompt prompt' Related calculator calculator') (rejection : Rejection) :
    Paired prompt prompt' Related (calculator.rejected rejection)
      (calculator'.rejected rejection) := by
  have hwritten (position : Nat) (source : String) :=
    steady.writeLines (steady.note h.reader.channel (.rejected rejection position))
      (rejection.report source position)
  refine ⟨⟨h.reader.prompt, h.reader.prompt', congrArg Line.exhaust h.reader.line, ?_⟩,
    h.memory, h.farewell, rfl⟩
  have hposition := congrArg Line.position h.reader.line
  have hsource := congrArg Line.text h.reader.line
  dsimp only [Calculator.rejected, Reader.skipLine, Reader.note]
  rw [← hposition, ← hsource]
  exact hwritten _ _

theorem lockstep (steady : Channel.Steady prompt prompt' Related) :
    Lockstep (Paired prompt prompt' Related) where
  memory h := h.memory
  operands h := h.operands
  hold h _ := ⟨h.reader, h.memory, h.farewell, rfl⟩
  start h := h.note steady .started
  next h := by
    obtain ⟨hanswer, hreader⟩ := (Reader.Paired.lockstep steady).next h.reader
    exact ⟨hanswer, hreader, h.memory, h.farewell, h.operands⟩
  retarget h name := (h.remember (·.retarget name)).note steady (.retargeted name)
  ignore h := h.note steady .assignIgnored
  store {calculator calculator'} h value := by
    have hstored :=
      (h.remember (·.store value)).note steady (.evaluated calculator.memory.target value)
    rw [← h.memory] at hstored
    rw [store, store, ← h.memory]
    exact hstored
  reject h rejection := by
    rw [reject_ok, reject_ok]
    exact ⟨rfl, h.rejected steady rejection⟩
  say h outcome := by
    refine ⟨?_, h.say steady outcome.line⟩
    rw [congrArg Prod.fst (say_ok _ _), congrArg Prod.fst (say_ok _ _)]
  close h how := by
    rw [close_ok, close_ok]
    exact ⟨rfl, h.closed steady how⟩

end Calculator.Paired

end ReversePolish
