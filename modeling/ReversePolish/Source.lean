import ReversePolish.Channel

/-!
# Sources of bytes

A source holds some bytes and ends after them, or it fails there. A line is taken byte by byte up to
its newline. What has been taken of a line when the source fails is lost.
-/

namespace ReversePolish

/-- Bytes to be read, and why no more can be read after them unless the stream ends there. -/
structure Source where
  bytes : List UInt8
  failure : Option String := none
  deriving DecidableEq

/-- The text of a line that has been taken with its newline, if it has one. -/
def lineOfBytes (taken : List UInt8) : String :=
  String.ofList (decodeUtf8
    (if taken.getLast? = some newlineByte then dropLastReturn taken.dropLast else taken))

namespace Source

def takeLine (failure : Option String) : List UInt8 → Except String (List UInt8) × List UInt8
  | [] => (match failure with
    | none => .ok []
    | some message => .error message, [])
  | byte :: bytes =>
    if byte = newlineByte then (.ok [byte], bytes)
    else
      let (taken, rest) := takeLine failure bytes
      (taken.map (byte :: ·), rest)

def readLine (source : Source) : Reply × Source :=
  let (taken, bytes) := takeLine source.failure source.bytes
  let reply := match taken with
    | .ok [] => .ended
    | .ok taken => .line (lineOfBytes taken)
    | .error message => .failed message
  (reply, { source with bytes })

theorem length_takeLine (failure : Option String) (bytes : List UInt8) :
    (takeLine failure bytes).2.length ≤ bytes.length := by
  induction bytes with
  | nil => exact Nat.le_refl 0
  | cons byte bytes ih =>
    rw [takeLine]
    split
    · exact Nat.le_succ _
    · exact Nat.le_succ_of_le ih

/-- A line takes at least one byte. -/
theorem length_of_readLine {source later : Source} {text : String}
    (h : source.readLine = (.line text, later)) : later.bytes.length < source.bytes.length := by
  obtain ⟨bytes, failure⟩ := source
  obtain ⟨hreply, rfl⟩ := Prod.mk.inj h
  cases bytes with
  | nil => cases failure <;> cases hreply
  | cons byte bytes =>
    dsimp only [takeLine]
    split
    · exact Nat.lt_succ_self _
    · exact Nat.lt_succ_of_le (length_takeLine failure bytes)

/-- The replies to requests for lines, up to the first that delivers none. -/
def replies (source : Source) : List Reply :=
  match _h : source.readLine with
  | (.line text, later) => .line text :: later.replies
  | (.ended, _) => []
  | (.failed message, _) => [.failed message]
termination_by source.bytes.length
decreasing_by exact length_of_readLine _h

end Source

end ReversePolish
