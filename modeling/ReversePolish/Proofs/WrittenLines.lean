import ReversePolish.Proofs.StreamLines
import ReversePolish.Proofs.TakenWrites
import ReversePolish.Proofs.TextBytes

/-!
# Lines that are written and read again

A line can be written in any number of pieces, of which the last one ends it with a newline. If the
lines have no newline in them and no carriage return at their ends, reading the bytes that have been
written delivers them again: each character is decoded from the bytes it was written in, and only
the newlines after the lines end a line.
-/

namespace ReversePolish

/-- A line as the pieces that it is written in, a newline after the last one. -/
structure WrittenLine where
  pieces : List String
  last : String

namespace WrittenLine

def text (line : WrittenLine) : String := line.pieces.foldr (· ++ ·) line.last

def texts (line : WrittenLine) : List String := line.pieces ++ [line.last ++ "\n"]

/-- The line can be told from what is written before and after it. -/
def Plain (line : WrittenLine) : Prop :=
  '\n' ∉ line.text.toList ∧ line.text.toList.getLast? ≠ some '\r'

instance : DecidablePred Plain := fun _ => inferInstanceAs (Decidable (_ ∧ _))

end WrittenLine

variable {σ : Type} [Sink σ]

/-- What the sink takes without failing is appended to what it holds. -/
def Sink.Collects (written : σ → String) : Prop :=
  ∀ sink text, (Sink.write sink text).1 = .ok () →
    written (Sink.write sink text).2 = written sink ++ text

theorem Paper.collects_written : Sink.Collects Paper.written := fun _ _ _ => rfl

namespace Channel

def writePieces (channel : Channel σ) : List String → Except String Unit × Channel σ
  | [] => (.ok (), channel)
  | piece :: pieces => andThen (channel.write piece) (·.writePieces pieces)

def writeInPieces (channel : Channel σ) (line : WrittenLine) : Except String Unit × Channel σ :=
  andThen (channel.writePieces line.pieces) (·.writeLine line.last)

def writeAllInPieces (channel : Channel σ) : List WrittenLine → Except String Unit × Channel σ
  | [] => (.ok (), channel)
  | line :: lines => andThen (channel.writeInPieces line) (·.writeAllInPieces lines)

omit [Sink σ] in
def reads (channel : Channel σ) : Nat → List Reply
  | 0 => []
  | count + 1 => channel.readLine.1 :: channel.readLine.2.reads count

omit [Sink σ] in
/-- The replies come in order, and after them the end of the input for ever. -/
theorem reads_eq (channel : Channel σ) (count : Nat) :
    channel.reads count = (List.range count).map fun i => channel.replies[i]?.getD .ended := by
  induction count generalizing channel with
  | zero => rfl
  | succ count ih =>
    rw [List.range_succ_eq_map, List.map_cons, List.map_map, reads, ih]
    cases hreplies : channel.replies with
    | nil =>
      rw [readLine_nil hreplies]
      rfl
    | cons reply replies =>
      rw [readLine_cons hreplies]
      rfl

variable {written : σ → String} (hcollects : Sink.Collects written)

include hcollects

theorem write_taken {channel : Channel σ} {text : String} {more : List String}
    (htakes : Sink.Takes channel.sink (text :: more)) :
    channel.write text = (.ok (), (channel.write text).2) ∧
      written (channel.write text).2.sink = written channel.sink ++ text ∧
      Sink.Takes (channel.write text).2.sink more :=
  ⟨Prod.ext htakes.1 rfl, hcollects channel.sink text htakes.1, htakes.2⟩

theorem writePieces_taken {channel : Channel σ} {pieces more : List String}
    (htakes : Sink.Takes channel.sink (pieces ++ more)) :
    ∃ later, channel.writePieces pieces = (.ok (), later) ∧
      (∀ last, written later.sink ++ last =
        written channel.sink ++ pieces.foldr (· ++ ·) last) ∧
      Sink.Takes later.sink more := by
  induction pieces generalizing channel with
  | nil => exact ⟨channel, rfl, fun _ => rfl, htakes⟩
  | cons piece pieces ih =>
    obtain ⟨hwrite, hwritten, hmore⟩ := write_taken hcollects htakes
    obtain ⟨later, hlater, htext, htakes'⟩ := ih hmore
    refine ⟨later, ?_, fun last => ?_, htakes'⟩
    · rw [writePieces, andThen_ok hwrite, hlater]
    · rw [htext, hwritten, String.append_assoc]
      rfl

theorem writeInPieces_taken {channel : Channel σ} {line : WrittenLine} {more : List String}
    (htakes : Sink.Takes channel.sink (line.texts ++ more)) :
    ∃ later, channel.writeInPieces line = (.ok (), later) ∧
      written later.sink = written channel.sink ++ (line.text ++ "\n") ∧
      Sink.Takes later.sink more := by
  rw [WrittenLine.texts, List.append_assoc] at htakes
  obtain ⟨later, hlater, htext, hlast⟩ := writePieces_taken hcollects htakes
  obtain ⟨hwrite, hwritten, hmore⟩ := write_taken hcollects hlast
  refine ⟨(later.writeLine line.last).2, ?_, ?_, hmore⟩
  · rw [writeInPieces, andThen_ok hlater]
    exact hwrite
  · refine hwritten.trans ?_
    rw [← String.append_assoc, htext, String.append_assoc]
    rfl

/-- The bytes that are written are the lines with a newline byte after each. -/
theorem writeAllInPieces_taken {channel : Channel σ} {lines : List WrittenLine}
    (htakes : Sink.Takes channel.sink (lines.flatMap WrittenLine.texts)) :
    ∃ later text, channel.writeAllInPieces lines = (.ok (), later) ∧
      written later.sink = written channel.sink ++ text ∧
      text.toUTF8.toList = joinLines (lines.map fun line => line.text.toUTF8.toList) := by
  induction lines generalizing channel with
  | nil => exact ⟨channel, "", rfl, String.append_empty.symm, toList_toUTF8_eq_flatMap ""⟩
  | cons line lines ih =>
    rw [List.flatMap_cons] at htakes
    obtain ⟨said, hsaid, hline, hmore⟩ := writeInPieces_taken hcollects htakes
    obtain ⟨later, text, hlater, htext, hbytes⟩ := ih hmore
    refine ⟨later, line.text ++ "\n" ++ text, ?_, ?_, ?_⟩
    · rw [writeAllInPieces, andThen_ok hsaid, hlater]
    · rw [htext, hline, String.append_assoc]
    · have hnewline : "\n".toUTF8.toList = [newlineByte] := toList_toUTF8_eq_flatMap "\n"
      rw [toList_toUTF8_append, toList_toUTF8_append, hbytes, hnewline, List.map_cons,
        joinLines_cons, List.append_assoc]
      rfl

end Channel

theorem newline_not_mem_toUTF8 {text : String} (h : '\n' ∉ text.toList) :
    newlineByte ∉ text.toUTF8.toList :=
  fun hmem => h (mem_of_mem_toUTF8 hmem (by decide))

/-- A line without a carriage return at its end is read as it was written. -/
theorem lineText_toUTF8 {text : String} (h : text.toList.getLast? ≠ some '\r') :
    lineText text.toUTF8.toList = text := by
  have hreturn : text.toUTF8.toList.getLast? ≠ some returnByte := fun hlast =>
    h (getLast?_of_getLast?_toUTF8 hlast (by decide))
  rw [lineText, dropLastReturn, if_neg hreturn, decodeUtf8_toUTF8, String.ofList_toList]

theorem WrittenLine.linesOfBytes_joinLines {lines : List WrittenLine}
    (h : ∀ line ∈ lines, line.Plain) :
    linesOfBytes (joinLines (lines.map fun line => line.text.toUTF8.toList)) =
      lines.map WrittenLine.text := by
  have hbodies : ∀ body ∈ lines.map fun line => line.text.toUTF8.toList, newlineByte ∉ body := by
    intro body hbody
    obtain ⟨line, hline, rfl⟩ := List.mem_map.1 hbody
    exact newline_not_mem_toUTF8 (h line hline).1
  rw [linesOfBytes_joined hbodies, List.map_map]
  exact List.map_congr_left fun line hline => lineText_toUTF8 (h line hline).2

/-- Lines without newlines in them or carriage returns at their ends are written one after the
other, each in any number of pieces, to a sink that fails on none of them. Then every write
succeeds, and whoever asks for the lines of the bytes that have been written gets these lines in
order and after them nothing for ever, whether from the bytes themselves or over a channel. -/
theorem Channel.reads_what_is_written {written : σ → String} (hcollects : Sink.Collects written)
    (channel : Channel σ) (lines : List WrittenLine) (hplain : ∀ line ∈ lines, line.Plain)
    (htakes : Sink.Takes channel.sink (lines.flatMap WrittenLine.texts)) :
    ∃ later text, channel.writeAllInPieces lines = (.ok (), later) ∧
      written later.sink = written channel.sink ++ text ∧
      (∀ count, (requests count text.toUTF8.toList).1 =
        (List.range count).map ((lines.map WrittenLine.text)[·]?)) ∧
      ∀ (τ : Type) (sink : τ) (count : Nat),
        reads { replies := repliesOfBytes text.toUTF8.toList, sink } count =
          (List.range count).map fun i => ((lines.map WrittenLine.text)[i]?).elim .ended .line := by
  obtain ⟨later, text, hlater, htext, hbytes⟩ := writeAllInPieces_taken hcollects htakes
  have hlines := WrittenLine.linesOfBytes_joinLines hplain
  rw [← hbytes] at hlines
  refine ⟨later, text, hlater, htext, fun count => ?_, fun τ sink count => ?_⟩
  · rw [requests_answers, hlines]
  · rw [reads_eq, repliesOfBytes, hlines]
    refine List.map_congr_left fun i _ => ?_
    rw [List.getElem?_map]
    cases (lines.map WrittenLine.text)[i]? <;> rfl

/-- An empty line, a carriage return at the end of a piece but not of its line, characters of two,
three and four bytes, and a replacement character that replaces nothing. -/
theorem Channel.reads_four_lines :
    let lines : List WrittenLine :=
      [⟨[], ""⟩, ⟨["a\r", "", "b"], ""⟩, ⟨["\ufffd"], "é€😀"⟩, ⟨["\r"], "\r\u0085"⟩]
    ∃ later text, writeAllInPieces { replies := [], sink := ({} : Paper) } lines = (.ok (), later) ∧
      later.sink.written = text ∧
      (requests 5 text.toUTF8.toList).1 =
        [some "", some "a\rb", some "\ufffdé€😀", some "\r\r\u0085", none] := by
  intro lines
  obtain ⟨later, text, hlater, htext, hrequests, -⟩ :=
    reads_what_is_written Paper.collects_written { replies := [], sink := ({} : Paper) } lines
      (by decide) (Sink.takes_of_reliable _ _)
  exact ⟨later, text, hlater, htext.trans String.empty_append, hrequests 5⟩

end ReversePolish
