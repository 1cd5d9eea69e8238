/-!
# Sinks

A sink takes text and may be told to pass on what it holds. Either can fail, with a message that
says why; the sink is usable afterwards, in whatever state the failure left it.
-/

namespace ReversePolish

class Sink (σ : Type) where
  write : σ → String → Except String Unit × σ
  flush : σ → Except String Unit × σ

/-- A sink that takes everything: the texts written to it, the latest first. -/
structure Paper where
  texts : List String := []
  deriving DecidableEq

namespace Paper

def written (paper : Paper) : String := paper.texts.foldr (fun text earlier => earlier ++ text) ""

def add (paper : Paper) (text : String) : Paper := ⟨text :: paper.texts⟩

@[simp] theorem written_add (paper : Paper) (text : String) :
    (paper.add text).written = paper.written ++ text := rfl

instance : Sink Paper where
  write paper text := (.ok (), paper.add text)
  flush paper := (.ok (), paper)

end Paper

/-- A sink that takes only so many bytes. It fails as soon as it has been offered more. -/
structure BoundedSink where
  capacity : Nat
  offered : Paper := {}
  deriving DecidableEq

namespace BoundedSink

def written (sink : BoundedSink) : List UInt8 :=
  sink.offered.written.toUTF8.toList.take sink.capacity

instance : Sink BoundedSink where
  write sink text :=
    let sink := { sink with offered := sink.offered.add text }
    if text = "" ∨ sink.offered.written.utf8ByteSize ≤ sink.capacity then (.ok (), sink)
    else (.error "sink full", sink)
  flush sink := (.ok (), sink)

end BoundedSink

/-- A sink whose operations are numbered from zero, some of them bound to fail without effect. -/
structure FaultySink where
  failingWrites : Nat → Bool
  failingFlushes : Nat → Bool
  writes : Nat := 0
  flushes : Nat := 0
  paper : Paper := {}

instance : Sink FaultySink where
  write sink text :=
    let next := { sink with writes := sink.writes + 1 }
    if sink.failingWrites sink.writes then
      (.error ("write " ++ toString sink.writes ++ " failed"), next)
    else (.ok (), { next with paper := sink.paper.add text })
  flush sink :=
    let next := { sink with flushes := sink.flushes + 1 }
    if sink.failingFlushes sink.flushes then
      (.error ("flush " ++ toString sink.flushes ++ " failed"), next)
    else (.ok (), next)

end ReversePolish
