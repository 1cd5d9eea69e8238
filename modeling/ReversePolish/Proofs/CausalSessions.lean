import ReversePolish.Proofs.ByteLines
import ReversePolish.Proofs.SessionTranscript

/-!
# Sessions read no further than they need

What a session writes about some lines does not depend on the lines after them. If it ends on one of
the lines, none of the later ones is ever read; if it does not, they add to what has been written.
-/

namespace ReversePolish

namespace Worksheet

variable {prompt : String} {sheet : Worksheet} {lines : List String}

theorem prompt_prefix_transcript (prompt : String) (sheet : Worksheet) (lines : List String) :
    ∃ rest, (sheet.transcript prompt lines).text = prompt ++ rest := by
  cases lines with
  | nil => exact ⟨"", String.append_empty.symm⟩
  | cons line lines =>
    rw [transcript]
    split
    · exact ⟨_, rfl⟩
    · exact ⟨_, String.append_assoc⟩

theorem transcript_append_of_exit (h : (sheet.transcript prompt lines).ending = .exit)
    (more : List String) :
    sheet.transcript prompt (lines ++ more) =
      { sheet.transcript prompt lines with
        unread := (sheet.transcript prompt lines).unread ++ more } := by
  induction lines generalizing sheet with
  | nil => simp [transcript] at h
  | cons line lines ih =>
    rw [transcript] at h
    rw [List.cons_append, transcript, transcript]
    split at h
    · rfl
    · rw [ih h]

/-- A session that goes on after some lines adds to what it has written up to its next prompt. -/
theorem transcript_append_of_endOfInput
    (h : (sheet.transcript prompt lines).ending = .endOfInput) (more : List String) :
    ∃ rest, (sheet.transcript prompt (lines ++ more)).text =
      (sheet.transcript prompt lines).text ++ rest := by
  induction lines generalizing sheet with
  | nil => exact prompt_prefix_transcript prompt sheet more
  | cons line lines ih =>
    rw [transcript] at h
    rw [List.cons_append, transcript, transcript]
    split at h
    · simp at h
    · obtain ⟨rest, hrest⟩ := ih h
      refine ⟨rest, ?_⟩
      dsimp only
      rw [hrest, ← String.append_assoc]

/-- A session that ends by the exit word leaves unread what comes after one line, the first on which
it ends. -/
theorem exists_line_of_exit (h : (sheet.transcript prompt lines).ending = .exit) :
    ∃ before line, lines = before ++ line :: (sheet.transcript prompt lines).unread ∧
      (sheet.transcript prompt before).ending = .endOfInput ∧
      (sheet.transcript prompt (before ++ [line])).ending = .exit := by
  induction lines generalizing sheet with
  | nil => simp [transcript] at h
  | cons line lines ih =>
    rw [transcript] at h ⊢
    split at h
    · next deeds htake =>
      refine ⟨[], line, rfl, rfl, ?_⟩
      rw [List.nil_append, transcript, htake]
    · next deeds sheet' htake =>
      obtain ⟨before, last, hlines, hbefore, hlast⟩ := ih h
      refine ⟨line :: before, last, congrArg (line :: ·) hlines, ?_, ?_⟩
      · rw [transcript, htake]
        exact hbefore
      · rw [List.cons_append, transcript, htake]
        exact hlast

end Worksheet

/-- In a byte stream the line with the exit word comes after some lines. On it an expression begins
with that word, and on the lines before it none does. -/
structure ExitsAfter (sheet : Worksheet) (before line : List UInt8) : Prop where
  before_ends : EndsLine before
  is_line : ∃ body, newlineByte ∉ body ∧ line = body ++ [newlineByte]
  not_opens : ¬∃ token, sheet.OpensOn (linesOfBytes before) token ∧ token.IsExit
  opens : ∃ token, sheet.OpensOn (linesOfBytes (before ++ line)) token ∧ token.IsExit

theorem exists_exitsAfter {prompt : String} {sheet : Worksheet} {front : List UInt8}
    (hfront : EndsLine front)
    (h : (sheet.transcript prompt (linesOfBytes front)).ending = .exit) :
    ∃ before line after, front = before ++ line ++ after ∧ ExitsAfter sheet before line ∧
      EndsLine after ∧
      (sheet.transcript prompt (linesOfBytes front)).unread = linesOfBytes after := by
  obtain ⟨bodies, rfl, hall⟩ := exists_joinLines hfront
  obtain ⟨before, line, hlines, hbefore, hlast⟩ := Worksheet.exists_line_of_exit h
  rw [linesOfBytes_joined hall, List.map_eq_append_iff] at hlines
  obtain ⟨bodies₁, bodies₂, rfl, rfl, hmap⟩ := hlines
  rw [List.map_eq_cons_iff] at hmap
  obtain ⟨body, bodies₃, rfl, rfl, hunread⟩ := hmap
  have hbodies := hall
  rw [List.forall_mem_append, List.forall_mem_cons] at hbodies
  have hline : joinLines bodies₁ ++ (body ++ [newlineByte]) = joinLines (bodies₁ ++ [body]) := by
    rw [joinLines_append, joinLines_cons]
    rfl
  have hlast' : ∀ body' ∈ bodies₁ ++ [body], newlineByte ∉ body' := by
    rw [List.forall_mem_append, List.forall_mem_singleton]
    exact ⟨hbodies.1, hbodies.2.1⟩
  refine ⟨joinLines bodies₁, body ++ [newlineByte], joinLines bodies₃, ?_,
    ⟨endsLine_joinLines bodies₁, ⟨body, hbodies.2.1, rfl⟩, ?_, ?_⟩, endsLine_joinLines bodies₃, ?_⟩
  · rw [joinLines_append, joinLines_cons, List.append_assoc, List.append_assoc]
    rfl
  · rw [← Worksheet.transcript_ending_eq_exit_iff prompt, linesOfBytes_joined hbodies.1, hbefore]
    nofun
  · rw [← Worksheet.transcript_ending_eq_exit_iff prompt, hline, linesOfBytes_joined hlast',
      List.map_append]
    exact hlast
  · rw [linesOfBytes_joined hall, linesOfBytes_joined hbodies.2.2, hunread]

namespace Calculator

variable {σ : Type} [Sink σ] [Sink.Reliable σ] {written : σ → String}

/-- On a sink that never fails every session comes to an end, and what it does about some whole
lines does not depend on the bytes after them. If the lines end it, nothing after the line with the
exit word is read; if they do not, all that it has written before the farewell is written as
before. -/
theorem run_causal (hkeeps : Sink.Keeps written) (settings : Settings) {front : List UInt8}
    (hfront : EndsLine front) (more : List UInt8) (sink : σ) :
    let session := fun bytes =>
      (Calculator.start settings { replies := repliesOfBytes bytes, sink }).run
    let text := fun bytes => written (session bytes).2.reader.channel.sink
    (∀ bytes, ∃ how, (session bytes).1 = .ok how) ∧
    ((session front).1 = .ok .exit →
      (session (front ++ more)).1 = .ok .exit ∧ text (front ++ more) = text front ∧
      ∃ before line after, front = before ++ line ++ after ∧
        ExitsAfter (.start settings) before line ∧
        (session (front ++ more)).2.reader.channel.replies = repliesOfBytes (after ++ more)) ∧
    ((session front).1 = .ok .endOfInput →
      ∃ said rest, text front = written sink ++ said ++ "\n" ++ settings.farewell ++ "\n" ∧
        text (front ++ more) = written sink ++ said ++ rest) := by
  intro session text
  have hends (bytes : List UInt8) : Concludes written settings.farewell (session bytes) _ :=
    run_concludes hkeeps settings (linesOfBytes bytes) sink
  have hshort := hends front
  have hlong := hends (front ++ more)
  rw [linesOfBytes_append hfront] at hlong
  refine ⟨fun bytes => ⟨_, (hends bytes).ending⟩, ?_, ?_⟩
  · intro hexit
    have hending := Except.ok.inj (hshort.ending.symm.trans hexit)
    obtain ⟨before, line, after, heq, hexits, hafter, hunread⟩ := exists_exitsAfter hfront hending
    rw [Worksheet.transcript_append_of_exit hending] at hlong
    refine ⟨hlong.ending.trans (congrArg _ hending), hlong.text.trans hshort.text.symm,
      before, line, after, heq, hexits, hlong.unread.trans ?_⟩
    rw [repliesOfBytes, linesOfBytes_append hafter, ← hunread]
  · intro hend
    have hending := Except.ok.inj (hshort.ending.symm.trans hend)
    obtain ⟨rest, hrest⟩ := Worksheet.transcript_append_of_endOfInput hending (linesOfBytes more)
    refine ⟨_, rest ++ "\n" ++ settings.farewell ++ "\n", hshort.text, ?_⟩
    refine hlong.text.trans ?_
    dsimp only
    rw [hrest]
    simp only [String.append_assoc]

/-- A cut after the line with the exit word, and a cut inside an expression. -/
theorem run_causal_at_two_cuts :
    let session := fun bytes => CommandLine.session {} (repliesOfBytes bytes)
    let written := fun bytes => (session bytes).2.reader.channel.sink.written
    let ended := "1 @ exit 2\n".toUTF8.toList
    let opened := "1 @ 2\n".toUTF8.toList
    let more := "3 @".toUTF8.toList
    (session (ended ++ more)).1 = .ok .exit ∧ written (ended ++ more) = ">> 1\n\nBye\n" ∧
      ∃ rest, written (opened ++ more) = ">> 1\n>> " ++ rest := by
  intro session written ended opened more
  have hended : (Worksheet.start {}).transcript ">> " (linesOfBytes ended) =
      ⟨">> 1\n", .exit, []⟩ := by decide +kernel
  have hopened : (Worksheet.start {}).transcript ">> " (linesOfBytes opened) =
      ⟨">> 1\n>> ", .endOfInput, []⟩ := by decide +kernel
  have hexit := run_concludes Paper.keeps_written {} (linesOfBytes ended) {}
  have hend := run_concludes Paper.keeps_written {} (linesOfBytes opened) {}
  rw [hended] at hexit
  rw [hopened] at hend
  obtain ⟨hending, htext, -⟩ :=
    (run_causal Paper.keeps_written {} (.inr (by decide +kernel)) more {}).2.1 hexit.ending
  obtain ⟨said, rest, hsaid, hrest⟩ :=
    (run_causal Paper.keeps_written {} (.inr (by decide +kernel)) more {}).2.2 hend.ending
  have htail := hsaid.symm.trans hend.text
  simp only [String.append_left_inj] at htail
  exact ⟨hending, htext.trans hexit.text, rest, hrest.trans (congrArg (· ++ rest) htail)⟩

end Calculator

end ReversePolish
