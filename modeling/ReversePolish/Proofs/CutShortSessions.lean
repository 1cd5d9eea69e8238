import ReversePolish.Proofs.CutOffSink
import ReversePolish.Proofs.SessionTranscript
import ReversePolish.Proofs.SourceLines
import ReversePolish.Proofs.TextBytes

/-!
# Sessions that are cut short

A sink that is full and an input that fails put an early end to a session, and that is all they do.
What has been written until then is the beginning of what the session would have written.
-/

namespace ReversePolish

theorem BoundedSink.write_eq (sink : BoundedSink) (text : String) :
    Sink.write sink text =
      (if text = "" ∨ (sink.offered.add text).written.utf8ByteSize ≤ sink.capacity then .ok ()
        else .error "sink full", { sink with offered := sink.offered.add text }) := by
  dsimp only [Sink.write]
  split <;> rfl

/-- A bounded sink does as paper does for as long as there is room. -/
def BoundedSink.cutOff (capacity : Nat) : CutOff Paper BoundedSink where
  together paper sink := sink = ⟨capacity, paper⟩ ∧ paper.written.utf8ByteSize ≤ capacity
  apart paper sink := sink.capacity = capacity ∧ capacity < sink.offered.written.utf8ByteSize ∧
    ∃ later, paper.written = sink.offered.written ++ later
  message := "sink full"
  write {paper sink} h text := by
    obtain ⟨rfl, hroom⟩ := h
    rw [write_eq]
    by_cases hfits : text = "" ∨ (paper.add text).written.utf8ByteSize ≤ capacity
    · refine .inl ⟨if_pos hfits, rfl, ?_⟩
      rcases hfits with rfl | hfits
      · change (paper.add "").written.utf8ByteSize ≤ capacity
        rw [Paper.written_add, String.append_empty]
        exact hroom
      · exact hfits
    · refine .inr ⟨if_neg hfits, rfl, ?_, "", String.append_empty.symm⟩
      exact Nat.lt_of_not_le fun hfits' => hfits (.inr hfits')
  flush h := .inl ⟨rfl, h⟩
  apart_write {paper sink} h text := by
    obtain ⟨hcapacity, hfull, later, hlater⟩ := h
    refine ⟨hcapacity, hfull, later ++ text, ?_⟩
    change paper.written ++ text = _
    rw [hlater, String.append_assoc]
  apart_flush h := h

namespace Calculator

/-- On a sink that takes only so many bytes a session is the same if they are enough, and breaks off
where the room ends if they are not. -/
theorem run_bounded (settings : Settings) (replies : List Reply) (capacity : Nat) :
    let free := CommandLine.session settings replies
    let bounded := (Calculator.start settings
      { replies, sink := ({ capacity } : BoundedSink) }).run
    let bytes := free.2.reader.channel.sink.written.toUTF8.toList
    (bytes.length ≤ capacity →
      bounded.1 = free.1 ∧ bounded.2.reader.channel.sink.written = bytes) ∧
    (capacity < bytes.length → bounded.1 = .error "sink full" ∧
      bounded.2.reader.channel.sink.written = bytes.take capacity) := by
  intro free bounded bytes
  have hfollows : (BoundedSink.cutOff capacity).Follows "sink full" free bounded :=
    (BoundedSink.cutOff capacity).follows_run ⟨rfl, Nat.zero_le capacity⟩
  have hlength : bytes.length = free.2.reader.channel.sink.written.utf8ByteSize :=
    length_toList_toUTF8 _
  rcases hfollows with ⟨_, ⟨rfl, hroom⟩, hbounded⟩ | ⟨broken, ⟨hcapacity, hfull, hlater⟩, hbounded⟩
  · -- Together to the end: there has been room for everything.
    have hall : bytes.length ≤ capacity := hlength ▸ hroom
    refine ⟨fun _ => ?_, fun hlt => absurd hall (Nat.not_le_of_lt hlt)⟩
    rw [hbounded]
    exact ⟨rfl, List.take_of_length_le hall⟩
  · -- Cut off: what had been offered by then begins what is written in the end.
    obtain ⟨later, hlater⟩ := hlater
    have hbytes : bytes =
        broken.reader.channel.sink.offered.written.toUTF8.toList ++ later.toUTF8.toList :=
      (congrArg (fun text : String => text.toUTF8.toList) hlater).trans (toList_toUTF8_append _ _)
    have hfull' : capacity < broken.reader.channel.sink.offered.written.toUTF8.toList.length := by
      rw [length_toList_toUTF8]
      exact hfull
    have hlt : capacity < bytes.length := by
      rw [hbytes, List.length_append]
      exact Nat.lt_add_right _ hfull'
    refine ⟨fun hle => absurd hle (Nat.not_le_of_lt hlt), fun _ => ?_⟩
    rw [hbounded, hbytes, List.take_append_of_le_length (Nat.le_of_lt hfull')]
    exact ⟨rfl, congrArg (List.take · _) hcapacity⟩

end Calculator

section Failing

variable {σ : Type} [Sink σ] [Sink.Reliable σ] {written : σ → String}

/-- A session whose input fails after some lines has ended on one of them, or it breaks off at the
next prompt. -/
theorem Calculator.run_until_failure (hkeeps : Sink.Keeps written) (settings : Settings)
    (lines : List String) (message : String) (sink : σ) :
    let transcript := (Worksheet.start settings).transcript settings.prompt lines
    let result := (Calculator.start settings
      { replies := lines.map .line ++ [.failed message], sink }).run
    let text := written result.2.reader.channel.sink
    (transcript.ending = .exit → result.1 = .ok .exit ∧
      text = written sink ++ transcript.text ++ "\n" ++ settings.farewell ++ "\n") ∧
    (transcript.ending = .endOfInput → result.1 = .error message ∧
      text = written sink ++ transcript.text) := by
  intro transcript result text
  have hlines : ∃ channel' last, Worksheet.Arrives settings channel' result last ∧
      transcript.Left written settings.prompt [.failed message]
        { replies := lines.map .line ++ [.failed message], sink } channel' last := by
    dsimp only [result]
    rw [run_start]
    exact Worksheet.goOn_lines hkeeps rfl rfl
  obtain ⟨channel', last, harrives, hleft⟩ := hlines
  cases last with
  | none =>
    obtain ⟨line, memory, operands, hresult⟩ := harrives
    obtain ⟨hending, -, hwritten⟩ := hleft
    refine ⟨fun _ => ?_, fun hend => ?_⟩
    · dsimp only [text]
      rw [hresult, close_ok]
      refine ⟨rfl, (hkeeps.closed _ _).trans ?_⟩
      dsimp only
      rw [hwritten]
    · rw [hending] at hend
      simp at hend
  | some sheet =>
    obtain ⟨line, hline, hresult⟩ := harrives
    obtain ⟨hending, -, hreplies, hwritten⟩ := hleft
    refine ⟨fun hexit => ?_, fun _ => ?_⟩
    · rw [hending] at hexit
      simp at hexit
    · dsimp only [text]
      rw [hresult, Worksheet.goOn_of_failure hline hreplies]
      exact ⟨rfl, (hkeeps.prompted _ _).trans hwritten⟩

end Failing

namespace Calculator

/-- A full sink and a failing input cut a session short and change nothing else. On a sink with room
for so many bytes the session writes these of its bytes and breaks off, if there are more. If the
input fails where it would end, the session is that over its whole lines; it breaks off instead of
saying farewell, unless it has ended before. -/
theorem run_cut_short (settings : Settings) :
    (∀ replies capacity,
      let free := CommandLine.session settings replies
      let bounded := (Calculator.start settings
        { replies, sink := ({ capacity } : BoundedSink) }).run
      let bytes := free.2.reader.channel.sink.written.toUTF8.toList
      (bytes.length ≤ capacity →
        bounded.1 = free.1 ∧ bounded.2.reader.channel.sink.written = bytes) ∧
      (capacity < bytes.length → bounded.1 = .error "sink full" ∧
        bounded.2.reader.channel.sink.written = bytes.take capacity)) ∧
    ∀ bytes message,
      let whole := wholeLines bytes
      let complete := CommandLine.session settings (repliesOfBytes whole)
      let broken :=
        CommandLine.session settings ({ bytes, failure := some message } : Source).replies
      let text := fun result : Except String Ending × Calculator Paper =>
        result.2.reader.channel.sink.written
      (whole <+: bytes ∧ EndsLine whole ∧
        ∀ front, front <+: bytes → EndsLine front → front <+: whole) ∧
      (complete.1 = .ok .exit → broken.1 = .ok .exit ∧ text broken = text complete) ∧
      (complete.1 ≠ .ok .exit → broken.1 = .error message ∧
        text complete = text broken ++ "\n" ++ settings.farewell ++ "\n") := by
  refine ⟨run_bounded settings, fun bytes message => ?_⟩
  rw [Source.replies_failing]
  intro whole complete broken text
  have hcomplete : Concludes Paper.written settings.farewell complete _ :=
    run_concludes Paper.keeps_written settings (linesOfBytes whole) {}
  obtain ⟨hexit, hend⟩ :=
    run_until_failure Paper.keeps_written settings (linesOfBytes whole) message {}
  refine ⟨⟨wholeLines_isPrefix bytes, endsLine_wholeLines bytes, fun front => prefix_wholeLines⟩,
    fun h => ?_, fun h => ?_⟩
  · have hending := Except.ok.inj (hcomplete.ending.symm.trans h)
    exact ⟨(hexit hending).1, (hexit hending).2.trans hcomplete.text.symm⟩
  · have hending : ((Worksheet.start settings).transcript settings.prompt
        (linesOfBytes whole)).ending = .endOfInput := by
      cases h' : ((Worksheet.start settings).transcript settings.prompt
        (linesOfBytes whole)).ending with
      | exit => exact absurd (hcomplete.ending.trans (congrArg _ h')) h
      | endOfInput => rfl
    obtain ⟨hfailed, htext⟩ := hend hending
    refine ⟨hfailed, hcomplete.text.trans ?_⟩
    exact congrArg (· ++ "\n" ++ settings.farewell ++ "\n") htext.symm

/-- Room for the prompt and the value but not for the newline, and an input that fails on its second
line. -/
theorem run_cut_short_twice :
    let bytes := "1 2 + @\n3".toUTF8.toList
    let bounded := (Calculator.start {}
      { replies := repliesOfBytes bytes, sink := ({ capacity := 4 } : BoundedSink) }).run
    let broken := CommandLine.session {} ({ bytes, failure := some "gone" } : Source).replies
    bounded.1 = .error "sink full" ∧
      bounded.2.reader.channel.sink.written = ">> 3".toUTF8.toList ∧
      broken.1 = .error "gone" ∧ broken.2.reader.channel.sink.written = ">> 3\n>> " := by
  intro bytes bounded broken
  have hlines : (Worksheet.start {}).transcript ">> " (linesOfBytes bytes) =
      ⟨">> 3\n>> >> ", .endOfInput, []⟩ := by decide +kernel
  have hwhole : (Worksheet.start {}).transcript ">> " (linesOfBytes (wholeLines bytes)) =
      ⟨">> 3\n>> ", .endOfInput, []⟩ := by decide +kernel
  have hfree := run_concludes Paper.keeps_written {} (linesOfBytes bytes) {}
  have hcomplete : Concludes Paper.written _
      (CommandLine.session {} (repliesOfBytes (wholeLines bytes))) _ :=
    run_concludes Paper.keeps_written {} (linesOfBytes (wholeLines bytes)) {}
  rw [hlines] at hfree
  rw [hwhole] at hcomplete
  obtain ⟨hroom, hinput⟩ := run_cut_short {}
  obtain ⟨-, hfull⟩ := hroom (repliesOfBytes bytes) 4
  obtain ⟨-, -, hfailed⟩ := hinput bytes "gone"
  rw [show (CommandLine.session {} (repliesOfBytes bytes)).2.reader.channel.sink.written = _ from
    hfree.text] at hfull
  obtain ⟨hbounded, htaken⟩ := hfull (by decide +kernel)
  obtain ⟨hbroken, htext⟩ := hfailed (by rw [hcomplete.ending]; simp)
  refine ⟨hbounded, htaken.trans (by decide +kernel), hbroken, ?_⟩
  have htail := htext.symm.trans hcomplete.text
  simp only [String.append_left_inj] at htail
  exact htail

end Calculator

end ReversePolish
