import ReversePolish.Proofs.ChannelUse
import ReversePolish.Proofs.ReliableSink
import ReversePolish.Proofs.TokensAhead

/-!
# Writes that are taken

A sink is offered texts one after the other until it fails on one of them. Those before that one
have been written, and those after it are never offered. A channel keeps the calls that were made
for them and is otherwise left as it was. This is how the lines of a report are written.
-/

namespace ReversePolish

variable {σ : Type} [Sink σ]

namespace Sink

def Takes (sink : σ) : List String → Prop
  | [] => True
  | text :: texts => (Sink.write sink text).1 = .ok () ∧ Takes (Sink.write sink text).2 texts

def offered (sink : σ) : List String → σ
  | [] => sink
  | text :: texts => offered (Sink.write sink text).2 texts

/-- The calls that offer some texts to the sink, up to the first one that it fails on. -/
def tries (sink : σ) : List String → List Call
  | [] => []
  | text :: texts =>
    match Sink.write sink text with
    | (.ok (), later) => .write text true :: tries later texts
    | (.error _, _) => [.write text false]

structure FailsAfter (sink : σ) (taken : List String) (text message : String) : Prop where
  takes : Takes sink taken
  fails : (Sink.write (offered sink taken) text).1 = .error message

theorem takes_of_reliable [Sink.Reliable σ] (sink : σ) (texts : List String) :
    Takes sink texts := by
  induction texts generalizing sink with
  | nil => trivial
  | cons text texts ih => exact ⟨Sink.Reliable.write_ok sink text, ih _⟩

/-- Unless it takes all of some texts, there is a first one that it fails on. -/
theorem takes_or_failsAfter (sink : σ) (texts : List String) :
    Takes sink texts ∨ ∃ taken text rest message, texts = taken ++ text :: rest ∧
      FailsAfter sink taken text message := by
  induction texts generalizing sink with
  | nil => exact .inl trivial
  | cons first texts ih =>
    cases hwrite : (Sink.write sink first).1 with
    | error message => exact .inr ⟨[], first, texts, message, rfl, trivial, hwrite⟩
    | ok =>
      rcases ih (Sink.write sink first).2 with htakes | ⟨taken, text, rest, message, htexts, hfails⟩
      · exact .inl ⟨hwrite, htakes⟩
      · exact .inr ⟨first :: taken, text, rest, message, congrArg _ htexts,
          ⟨hwrite, hfails.takes⟩, hfails.fails⟩

end Sink

theorem andThen_ok {S ε β : Type} {first : Except ε Unit × S} {next : S → Except ε β × S}
    {state : S} (h : first = (.ok (), state)) : andThen first next = next state := by
  rw [h]
  rfl

theorem andThen_error {S ε β : Type} {first : Except ε Unit × S} {next : S → Except ε β × S}
    {state : S} {failure : ε} (h : first = (.error failure, state)) :
    andThen first next = (.error failure, state) := by
  rw [h]
  rfl

namespace Channel

def hasWritten (channel : Channel σ) (texts : List String) : Channel σ :=
  { channel with
    sink := Sink.offered channel.sink texts
    calls := (texts.map (Call.write · true)).reverse ++ channel.calls }

variable {channel : Channel σ} {text : String}

theorem writeLine_of_write {answer : Except String Unit}
    (h : (Sink.write channel.sink (text ++ "\n")).1 = answer) :
    channel.writeLine text = (answer, (channel.write (text ++ "\n")).2) :=
  Prod.ext h rfl

theorem hasWritten_cons (h : (Sink.write channel.sink text).1 = .ok ()) (texts : List String) :
    (channel.write text).2.hasWritten texts = channel.hasWritten (text :: texts) := by
  simp [hasWritten, write, Sink.offered, h, Except.isOk, Except.toBool]

theorem writeLines_of_takes {lines : List String}
    (h : Sink.Takes channel.sink (lines.map (· ++ "\n"))) :
    channel.writeLines lines = (.ok (), channel.hasWritten (lines.map (· ++ "\n"))) := by
  induction lines generalizing channel with
  | nil => rfl
  | cons line lines ih =>
    obtain ⟨hwrite, hlater⟩ := h
    rw [writeLines_eq, andThen_ok (writeLine_of_write hwrite), ih hlater, hasWritten_cons hwrite]
    rfl

/-- What is to be written after a text that the sink fails on makes no difference. -/
theorem writeLines_of_failsAfter {lines taken rest : List String} {message : String}
    (h : Sink.FailsAfter channel.sink taken text message)
    (hlines : lines.map (· ++ "\n") = taken ++ text :: rest) :
    channel.writeLines lines = (.error message, ((channel.hasWritten taken).write text).2) := by
  induction taken generalizing channel lines with
  | nil =>
    obtain ⟨line, lines, rfl, rfl, -⟩ := List.map_eq_cons_iff.1 hlines
    rw [writeLines_eq, andThen_error (writeLine_of_write h.fails)]
    rfl
  | cons first taken ih =>
    obtain ⟨line, lines, rfl, rfl, hmore⟩ := List.map_eq_cons_iff.1 hlines
    obtain ⟨⟨hwrite, hlater⟩, hfails⟩ := h
    rw [writeLines_eq, andThen_ok (writeLine_of_write hwrite), ih ⟨hlater, hfails⟩ hmore,
      hasWritten_cons hwrite]

/-- The lines are offered to the sink, and no other call is made. -/
theorem calls_writeLines (channel : Channel σ) (lines : List String) :
    (channel.writeLines lines).2.calls =
      (Sink.tries channel.sink (lines.map (· ++ "\n"))).reverse ++ channel.calls := by
  induction lines generalizing channel with
  | nil => rfl
  | cons line lines ih =>
    rw [writeLines_eq, List.map_cons, Sink.tries]
    cases hwrite : Sink.write channel.sink (line ++ "\n") with
    | mk answer later =>
      cases answer with
      | ok =>
        rw [andThen_ok (writeLine_of_write (congrArg Prod.fst hwrite)), ih]
        simp [write, hwrite, Except.isOk, Except.toBool]
      | error message =>
        rw [andThen_error (writeLine_of_write (congrArg Prod.fst hwrite))]
        simp [write, hwrite, Except.isOk, Except.toBool]

theorem calls_write_of_error {message : String}
    (h : (Sink.write channel.sink text).1 = .error message) :
    (channel.write text).2.calls = .write text false :: channel.calls := by
  simp [write, h, Except.isOk, Except.toBool]

end Channel

def Rejection.linesAt {σ : Type} (rejection : Rejection) (place : Reader σ) : List String :=
  (rejection.report place.line.text place.line.position).map (· ++ "\n")

theorem Reader.Alike.linesAt {σ : Type} {reader reader' : Reader σ} (h : reader.Alike reader')
    (rejection : Rejection) : rejection.linesAt reader = rejection.linesAt reader' := by
  rw [Rejection.linesAt, h.line, Rejection.linesAt]

/-- A rejection is reported by these lines and by no other call. -/
theorem Calculator.calls_reject (calculator : Calculator σ) (rejection : Rejection) :
    (calculator.reject rejection).2.reader.channel.calls =
      (Sink.tries calculator.reader.channel.sink (rejection.linesAt calculator.reader)).reverse ++
        calculator.reader.channel.calls := by
  rw [channel_reject, Channel.calls_writeLines]
  rfl

end ReversePolish
