import ReversePolish.Journal
import ReversePolish.Sink
import ReversePolish.Text.Lines

/-!
# Channels

A channel is all that a calculator sees of the outside: replies to its requests for a line, a sink
for its text, and a journal. It keeps the calls made on it, the latest first. Once the replies are
used up, every further request finds the input ended.
-/

namespace ReversePolish

inductive Reply where
  | line (text : String)
  | ended
  | failed (message : String)
  deriving DecidableEq

inductive Call where
  | write (text : String) (succeeded : Bool)
  | flush (succeeded : Bool)
  | readLine (reply : Reply)
  deriving DecidableEq

/-- A two-way connection with a sink of type `σ`. -/
structure Channel (σ : Type) where
  replies : List Reply
  sink : σ
  calls : List Call := []
  journal : List Event := []

namespace Channel

variable {σ : Type}

def note (channel : Channel σ) (event : Event) : Channel σ :=
  { channel with journal := event :: channel.journal }

def readLine (channel : Channel σ) : Reply × Channel σ :=
  match channel.replies with
  | [] => (.ended, { channel with calls := .readLine .ended :: channel.calls })
  | reply :: replies => (reply, { channel with replies, calls := .readLine reply :: channel.calls })

@[simp] theorem replies_note (channel : Channel σ) (event : Event) :
    (channel.note event).replies = channel.replies := rfl

/-- A line is answered only by using up a reply. -/
theorem replies_of_readLine_line {channel channel' : Channel σ} {text : String}
    (h : channel.readLine = (.line text, channel')) :
    channel.replies = .line text :: channel'.replies := by
  unfold readLine at h
  split at h
  · simp at h
  · next hreplies =>
    obtain ⟨rfl, rfl⟩ := Prod.mk.inj h
    exact hreplies

variable [Sink σ]

def write (channel : Channel σ) (text : String) : Except String Unit × Channel σ :=
  let (outcome, sink) := Sink.write channel.sink text
  (outcome, { channel with sink, calls := .write text outcome.isOk :: channel.calls })

def writeLine (channel : Channel σ) (text : String) : Except String Unit × Channel σ :=
  channel.write (text ++ "\n")

/-- Writes lines up to the first that fails. -/
def writeLines (channel : Channel σ) : List String → Except String Unit × Channel σ
  | [] => (.ok (), channel)
  | text :: texts =>
    match channel.writeLine text with
    | (.ok (), channel) => channel.writeLines texts
    | failure => failure

def flush (channel : Channel σ) : Except String Unit × Channel σ :=
  let (outcome, sink) := Sink.flush channel.sink
  (outcome, { channel with sink, calls := .flush outcome.isOk :: channel.calls })

@[simp] theorem replies_write (channel : Channel σ) (text : String) :
    (channel.write text).2.replies = channel.replies := rfl

@[simp] theorem replies_writeLine (channel : Channel σ) (text : String) :
    (channel.writeLine text).2.replies = channel.replies := rfl

@[simp] theorem replies_flush (channel : Channel σ) :
    channel.flush.2.replies = channel.replies := rfl

@[simp] theorem replies_writeLines (channel : Channel σ) (texts : List String) :
    (channel.writeLines texts).2.replies = channel.replies := by
  induction texts generalizing channel with
  | nil => rfl
  | cons text texts ih =>
    have hline := channel.replies_writeLine text
    unfold writeLines
    split
    · next h => rw [ih, ← hline, h]
    · exact hline

end Channel

def repliesOfBytes (bytes : List UInt8) : List Reply := (linesOfBytes bytes).map .line

/-- The replies of a byte stream that fails where it would end. Of a line that is cut short by the
failure nothing is delivered. -/
def repliesUntilFailure (bytes : List UInt8) (message : String) : List Reply :=
  repliesOfBytes (wholeLines bytes) ++ [.failed message]

end ReversePolish
