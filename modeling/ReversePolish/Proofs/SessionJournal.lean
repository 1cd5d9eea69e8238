import ReversePolish.Proofs.ChannelUse

/-!
# What the journal tells

The channel itself notes nothing. A reader notes the tokens that it delivers, and a calculator notes
every change of its target and every value that it stores. So whatever a calculator does, its memory
afterwards is the one before with the events applied that it has noted in between.
-/

namespace ReversePolish

variable {σ : Type}

def Event.apply (memory : Memory) : Event → Memory
  | .retargeted name => memory.retarget name
  | .evaluated _ value => memory.store value
  | .started | .scanned _ | .assignIgnored | .rejected .. | .ended _ => memory

namespace Channel

@[simp] theorem journal_note (channel : Channel σ) (event : Event) :
    (channel.note event).journal = event :: channel.journal := rfl

@[simp] theorem journal_readLine (channel : Channel σ) :
    channel.readLine.2.journal = channel.journal := by
  unfold readLine
  split <;> rfl

variable [Sink σ]

@[simp] theorem journal_write (channel : Channel σ) (text : String) :
    (channel.write text).2.journal = channel.journal := rfl

@[simp] theorem journal_flush (channel : Channel σ) :
    channel.flush.2.journal = channel.journal := rfl

@[simp] theorem journal_writeLines (channel : Channel σ) (texts : List String) :
    (channel.writeLines texts).2.journal = channel.journal := by
  induction texts generalizing channel with
  | nil => rfl
  | cons text texts ih =>
    rw [writeLines_eq]
    exact andThen_holds (fun later : Channel σ => later.journal = channel.journal) rfl
      fun later h => (ih later).trans h

end Channel

namespace Reader

theorem journal_load (reader : Reader σ) :
    reader.load.2.channel.journal = reader.channel.journal := by
  have hread := reader.channel.journal_readLine
  unfold load
  split <;> next h => rw [h] at hread; exact hread

variable [Sink σ]

theorem journal_ask (reader : Reader σ) : reader.ask.2.journal = reader.channel.journal := by
  rw [ask_eq]
  split
  · rfl
  · exact andThen_holds (fun later : Channel σ => later.journal = reader.channel.journal) rfl
      fun _ h => h

theorem journal_fetch (reader : Reader σ) :
    reader.fetch.2.channel.journal = reader.channel.journal := by
  have hasked : reader.asked.channel.journal = reader.channel.journal :=
    reader.skipLine.journal_ask
  cases hask : reader.skipLine.ask.1 with
  | ok =>
    rw [fetch_of_ask_ok hask, journal_load]
    exact hasked
  | error message =>
    rw [fetch_of_ask_error hask]
    exact hasked

/-- A request notes the token that it delivers, and nothing if it fails. -/
theorem journal_next (reader : Reader σ) :
    reader.next.2.channel.journal =
      reader.next.1.toOption.toList.map Event.scanned ++ reader.channel.journal := by
  fun_induction next reader with
  | case1 reader token line hline => rfl
  | case2 reader hline fetched hfetch ih =>
    have hjournal := reader.journal_fetch
    rw [hfetch] at hjournal
    rw [ih]
    exact congrArg _ hjournal
  | case3 reader hline stop fetched hfetch =>
    have hjournal := reader.journal_fetch
    rw [hfetch] at hjournal
    exact hjournal

end Reader

namespace Calculator

/-- From an earlier calculator to a later one some events have been noted, and they account for its
memory. -/
structure Records (earlier later : Calculator σ) (events : List Event) : Prop where
  journal : later.reader.channel.journal = events.reverse ++ earlier.reader.channel.journal
  memory : later.memory = events.foldl Event.apply earlier.memory

namespace Records

variable {earlier calculator later : Calculator σ} {events events' : List Event}

theorem refl (calculator : Calculator σ) : Records calculator calculator [] := ⟨rfl, rfl⟩

theorem trans (h : Records earlier calculator events) (h' : Records calculator later events') :
    Records earlier later (events ++ events') where
  journal := by rw [h'.journal, h.journal, List.reverse_append, List.append_assoc]
  memory := by rw [h'.memory, h.memory, List.foldl_append]

theorem unique (h : Records earlier later events) (h' : Records earlier later events') :
    events = events' :=
  List.reverse_inj.1 (List.append_cancel_right (h.journal.symm.trans h'.journal))

end Records

theorem records_note (calculator : Calculator σ) {event : Event}
    (h : event.apply calculator.memory = calculator.memory) :
    Records calculator (calculator.note event) [event] :=
  ⟨rfl, h.symm⟩

theorem records_operands (calculator : Calculator σ) (operands : Operands) :
    Records calculator { calculator with operands } [] :=
  ⟨rfl, rfl⟩

variable [Sink σ]

theorem records_of_token {calculator : Calculator σ} {token : Token} {reader : Reader σ}
    {operands : Operands} (h : calculator.reader.next = (.ok token, reader)) :
    Records calculator { calculator with reader, operands } [.scanned token] := by
  have hjournal := calculator.reader.journal_next
  rw [h] at hjournal
  exact ⟨hjournal, rfl⟩

theorem records_of_stop {calculator : Calculator σ} {stop : Stop} {reader : Reader σ}
    (h : calculator.reader.next = (.error stop, reader)) :
    Records calculator { calculator with reader } [] := by
  have hjournal := calculator.reader.journal_next
  rw [h] at hjournal
  exact ⟨hjournal, rfl⟩

theorem records_next (calculator : Calculator σ) :
    ∃ events, Records calculator { calculator with reader := calculator.reader.next.2 } events := by
  cases hnext : calculator.reader.next with
  | mk answer reader =>
    cases answer with
    | ok token => exact ⟨_, records_of_token hnext⟩
    | error stop => exact ⟨_, records_of_stop hnext⟩

/-- A report is noted before it is written, and nothing after that. -/
theorem records_reject (calculator : Calculator σ) (rejection : Rejection) :
    Records calculator (calculator.reject rejection).2
      [.rejected rejection calculator.reader.line.position] := by
  have hreport := (calculator.reader.channel.note
    (.rejected rejection calculator.reader.line.position)).journal_writeLines
    (rejection.report calculator.reader.line.text calculator.reader.line.position)
  dsimp only [reject, Reader.note]
  split <;> next h => rw [h] at hreport; exact ⟨hreport, rfl⟩

theorem records_say (calculator : Calculator σ) (text : String) :
    Records calculator (calculator.say text).2 [] := ⟨rfl, rfl⟩

theorem records_close (calculator : Calculator σ) (how : Ending) :
    Records calculator (calculator.close how).2 [.ended how] :=
  close_holds (Records calculator · [.ended how]) ⟨rfl, rfl⟩
    fun _ hsaid => ⟨hsaid.journal, hsaid.memory⟩

/-- Every part of a session records what it does. -/
theorem stepwise_records :
    Stepwise fun earlier later : Calculator σ => ∃ events, Records earlier later events where
  refl calculator := ⟨_, .refl calculator⟩
  trans := by
    rintro earlier calculator later ⟨events, h⟩ ⟨events', h'⟩
    exact ⟨_, h.trans h'⟩
  start calculator := ⟨_, calculator.records_note rfl⟩
  next calculator := calculator.records_next
  operands calculator operands := ⟨_, calculator.records_operands operands⟩
  retarget _ name := ⟨[.retargeted name], rfl, rfl⟩
  ignore calculator := ⟨_, calculator.records_note rfl⟩
  store calculator value := ⟨[.evaluated calculator.memory.target value], rfl, rfl⟩
  reject calculator rejection := ⟨_, calculator.records_reject rejection⟩
  say calculator outcome := ⟨_, calculator.records_say outcome.line⟩
  close calculator how := ⟨_, calculator.records_close how⟩

/-- The memory that a session leaves is the one that its journal tells. -/
theorem records_run (calculator : Calculator σ) :
    ∃ events, Records calculator calculator.run.2 events :=
  stepwise_records.run calculator

end Calculator

end ReversePolish
