import ReversePolish.Text.Utf8

/-!
# Lines of a byte stream

A line ends with a newline byte or with the stream. Its text is decoded on its own, without the
newline and without one carriage return before it. A stream that ends with a newline has no empty
last line.
-/

namespace ReversePolish

def newlineByte : UInt8 := 0x0a

def returnByte : UInt8 := 0x0d

def dropLastReturn (bytes : List UInt8) : List UInt8 :=
  if bytes.getLast? = some returnByte then bytes.dropLast else bytes

/-- The text of the first line and the bytes after it, or nothing if no byte is left. -/
def nextLine? (bytes : List UInt8) : Option (String × List UInt8) :=
  if bytes = [] then none
  else
    let line := bytes.takeWhile (· ≠ newlineByte)
    match bytes.dropWhile (· ≠ newlineByte) with
    | [] => some (String.ofList (decodeUtf8 line), [])
    | _ :: rest => some (String.ofList (decodeUtf8 (dropLastReturn line)), rest)

theorem nextLine?_length_lt {bytes rest : List UInt8} {line : String}
    (h : nextLine? bytes = some (line, rest)) : rest.length < bytes.length := by
  have hdrop := (List.dropWhile_suffix (l := bytes) (· ≠ newlineByte)).length_le
  unfold nextLine? at h
  split at h
  · simp at h
  · next hne =>
    have hpos := List.length_pos_iff.2 hne
    split at h
    · obtain ⟨-, rfl⟩ := Prod.mk.inj (Option.some.inj h)
      exact hpos
    · next htail =>
      obtain ⟨-, rfl⟩ := Prod.mk.inj (Option.some.inj h)
      rw [htail] at hdrop
      exact hdrop

def linesOfBytes (bytes : List UInt8) : List String :=
  match _h : nextLine? bytes with
  | none => []
  | some (line, rest) => line :: linesOfBytes rest
termination_by bytes.length
decreasing_by exact nextLine?_length_lt _h

/-- The bytes up to the last newline, which a line that is cut short does not reach. -/
def wholeLines (bytes : List UInt8) : List UInt8 :=
  (bytes.reverse.dropWhile (· ≠ newlineByte)).reverse

end ReversePolish
