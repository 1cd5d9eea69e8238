import ReversePolish.Calculator

/-!
# Sinks that never fail

On such a sink every write and every flush succeeds, so a reader asks for a line without ever being
kept from it, and what a fetch comes to is decided by the replies alone. A calculator finishes every
report and every farewell that it begins.
-/

namespace ReversePolish

/-- A sink whose operations all succeed, in every state that it can be in. -/
class Sink.Reliable (σ : Type) [Sink σ] : Prop where
  write_ok (sink : σ) (text : String) : (Sink.write sink text).1 = .ok ()
  flush_ok (sink : σ) : (Sink.flush sink).1 = .ok ()

instance : Sink.Reliable Paper where
  write_ok _ _ := rfl
  flush_ok _ := rfl

variable {σ : Type}

namespace Channel

def answered (channel : Channel σ) (reply : Reply) (replies : List Reply) : Channel σ :=
  { channel with replies, calls := .readLine reply :: channel.calls }

theorem readLine_nil {channel : Channel σ} (h : channel.replies = []) :
    channel.readLine = (.ended, channel.answered .ended []) := by
  obtain ⟨replies, sink, calls, journal⟩ := channel
  cases h
  rfl

theorem readLine_cons {channel : Channel σ} {reply : Reply} {replies : List Reply}
    (h : channel.replies = reply :: replies) :
    channel.readLine = (reply, channel.answered reply replies) := by
  simp only [readLine, h, answered]

end Channel

variable [Sink σ] [Sink.Reliable σ]

namespace Channel

theorem write_ok (channel : Channel σ) (text : String) :
    channel.write text = (.ok (), (channel.write text).2) :=
  Prod.ext (Sink.Reliable.write_ok channel.sink text) rfl

theorem writeLine_ok (channel : Channel σ) (text : String) :
    channel.writeLine text = (.ok (), (channel.writeLine text).2) :=
  channel.write_ok (text ++ "\n")

theorem flush_ok (channel : Channel σ) : channel.flush = (.ok (), channel.flush.2) :=
  Prod.ext (Sink.Reliable.flush_ok channel.sink) rfl

theorem writeLines_cons (channel : Channel σ) (text : String) (texts : List String) :
    channel.writeLines (text :: texts) = (channel.writeLine text).2.writeLines texts := by
  rw [writeLines, writeLine_ok]

theorem writeLines_append (channel : Channel σ) (texts texts' : List String) :
    channel.writeLines (texts ++ texts') = (channel.writeLines texts).2.writeLines texts' := by
  induction texts generalizing channel with
  | nil => rfl
  | cons text texts ih => rw [List.cons_append, writeLines_cons, writeLines_cons, ih]

theorem writeLines_ok (channel : Channel σ) (texts : List String) :
    channel.writeLines texts = (.ok (), (channel.writeLines texts).2) := by
  induction texts generalizing channel with
  | nil => rfl
  | cons text texts ih =>
    rw [writeLines_cons]
    exact ih _

end Channel

namespace Reader

theorem ask_ok (reader : Reader σ) : reader.ask = (.ok (), reader.ask.2) := by
  rw [ask]
  split
  · exact reader.channel.flush_ok
  · rw [reader.channel.write_ok]
    exact Channel.flush_ok _

/-- Nothing keeps a reader from its next reply. -/
theorem fetch_eq_load (reader : Reader σ) : reader.fetch = reader.asked.load :=
  fetch_of_ask_ok (congrArg Prod.fst reader.skipLine.ask_ok)

theorem fetch_nil {reader : Reader σ} (h : reader.channel.replies = []) :
    reader.fetch = (.error (.ended .endOfInput),
      { reader.asked with channel := reader.asked.channel.answered .ended [] }) := by
  rw [fetch_eq_load, load, Channel.readLine_nil (by simp [h])]

theorem fetch_failed {reader : Reader σ} {message : String} {replies : List Reply}
    (h : reader.channel.replies = .failed message :: replies) :
    reader.fetch = (.error (.failed message), { reader.asked with
      channel := reader.asked.channel.answered (.failed message) replies }) := by
  rw [fetch_eq_load, load, Channel.readLine_cons (by simpa using h)]

theorem fetch_line {reader : Reader σ} {text : String} {replies : List Reply}
    (h : reader.channel.replies = .line text :: replies) :
    reader.fetch = (.ok (), { reader.asked with
      channel := reader.asked.channel.answered (.line text) replies, line := .load text }) := by
  rw [fetch_eq_load, load, Channel.readLine_cons (by simpa using h)]

end Reader

namespace Calculator

def rejected (calculator : Calculator σ) (rejection : Rejection) : Calculator σ :=
  let reader := calculator.reader.note (.rejected rejection calculator.reader.line.position)
  let report := rejection.report reader.line.text reader.line.position
  let reported := { reader with channel := (reader.channel.writeLines report).2 }
  { calculator.clear with reader := reported.skipLine }

theorem reject_ok (calculator : Calculator σ) (rejection : Rejection) :
    calculator.reject rejection = (.ok (.rejected rejection), calculator.rejected rejection) := by
  dsimp only [reject]
  rw [Channel.writeLines_ok]
  rfl

theorem say_ok (calculator : Calculator σ) (text : String) :
    calculator.say text = (.ok (), (calculator.say text).2) := by
  rw [say, Channel.writeLine_ok]

theorem flush_ok (calculator : Calculator σ) :
    calculator.flush = (.ok (), calculator.flush.2) := by
  rw [flush, Channel.flush_ok]

omit [Sink.Reliable σ] in
def closed (calculator : Calculator σ) (how : Ending) : Calculator σ :=
  ((calculator.note (.ended how)).say ("\n" ++ calculator.farewell)).2.flush.2

theorem close_ok (calculator : Calculator σ) (how : Ending) :
    calculator.close how = (.ok how, calculator.closed how) := by
  rw [close, say_ok]
  dsimp only
  rw [flush_ok]
  rfl

end Calculator

end ReversePolish
