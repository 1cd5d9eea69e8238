import ReversePolish.Proofs.SessionDeeds
import ReversePolish.Proofs.SpacedText

/-!
# Sessions over respaced text

As long as nothing is rejected, a session is decided by the tokens of its text and not by the lines
that they come on. So two sessions over lines whose texts differ only in the blanks and newlines
between words do the same, and neither rejects anything if the other does not.
-/

namespace ReversePolish

namespace Worksheet

/-- What some tokens bring about, wherever the lines end, if none of them is rejected. -/
inductive Consumes : Worksheet → List Token → List Deed → Option Worksheet → Prop
  | nil {sheet} : Consumes sheet [] [] (some sheet)
  | goesOn {sheet sheet' token tokens deeds last} (hafter : sheet.after? token = some sheet')
      (later : Consumes sheet' tokens deeds last) :
      Consumes sheet (token :: tokens) (sheet.does token ++ deeds) last
  | ended {sheet token tokens}
      (hstep : sheet.progress.step sheet.memory.get sheet.operands token = .exit) :
      Consumes sheet (token :: tokens) [.note (.scanned token)] none

namespace Consumes

variable {sheet sheet' : Worksheet} {tokens more : List Token} {deeds deeds' : List Deed}
  {last : Option Worksheet}

theorem append_of_none (h : Consumes sheet tokens deeds none) (more : List Token) :
    Consumes sheet (tokens ++ more) deeds none := by
  generalize hlast : none = last at h
  induction h with
  | nil => simp at hlast
  | goesOn hafter later ih => exact .goesOn hafter (ih hlast)
  | ended hstep => exact .ended hstep

theorem append (h : Consumes sheet tokens deeds (some sheet'))
    (hmore : Consumes sheet' more deeds' last) :
    Consumes sheet (tokens ++ more) (deeds ++ deeds') last := by
  generalize hsheet : some sheet' = next at h
  induction h with
  | nil =>
    obtain rfl := Option.some.inj hsheet
    exact hmore
  | goesOn hafter later ih =>
    rw [List.cons_append, List.append_assoc]
    exact .goesOn hafter (ih hsheet)
  | ended => simp at hsheet

/-- Tokens are consumed in two parts, unless the session ends on the first one. -/
theorem split (h : Consumes sheet (tokens ++ more) deeds last) :
    (Consumes sheet tokens deeds none ∧ last = none) ∨
      ∃ sheet' front back, Consumes sheet tokens front (some sheet') ∧
        Consumes sheet' more back last ∧ deeds = front ++ back := by
  induction tokens generalizing sheet deeds with
  | nil => exact .inr ⟨sheet, [], deeds, .nil, h, rfl⟩
  | cons token tokens ih =>
    cases h with
    | goesOn hafter later =>
      rcases ih later with ⟨hnone, hlast⟩ | ⟨sheet', front, back, hfront, hback, rfl⟩
      · exact .inl ⟨.goesOn hafter hnone, hlast⟩
      · refine .inr ⟨sheet', _, back, .goesOn hafter hfront, hback, ?_⟩
        rw [List.append_assoc]
    | ended hstep => exact .inl ⟨.ended hstep, rfl⟩

end Consumes

variable {sheet : Worksheet} {line : Line} {deeds deeds' : List Deed}
  {last last' : Option Worksheet}

theorem Works.consumes (h : Works sheet line deeds last)
    (haccepted : ∀ rejection position, .rejected rejection position ∉ Deed.events deeds) :
    Consumes sheet (Token.scan line.rest) deeds last := by
  induction h with
  | blank hnext =>
    rw [Line.scan_of_none hnext]
    exact .nil
  | goesOn hnext hafter later ih =>
    rw [Line.scan_of_next? hnext]
    refine .goesOn hafter (ih fun rejection position hmem => ?_)
    exact haccepted rejection position (by simp [hmem])
  | @refused sheet line line' token rejection hnext hstep =>
    exact absurd (by simp [Deed.events, Deed.event?]) (haccepted rejection line'.position)
  | ended hnext hstep =>
    rw [Line.scan_of_next? hnext]
    exact .ended hstep

/-- Tokens that are consumed decide what their line brings about. -/
theorem Works.eq_of_consumes (h : Works sheet line deeds last)
    (hconsumes : Consumes sheet (Token.scan line.rest) deeds' last') :
    deeds = deeds' ∧ last = last' := by
  induction h generalizing deeds' with
  | blank hnext =>
    rw [Line.scan_of_none hnext] at hconsumes
    cases hconsumes
    exact ⟨rfl, rfl⟩
  | goesOn hnext hafter later ih =>
    rw [Line.scan_of_next? hnext] at hconsumes
    cases hconsumes with
    | goesOn hafter' later' =>
      obtain rfl := Option.some.inj (hafter.symm.trans hafter')
      obtain ⟨rfl, rfl⟩ := ih later'
      exact ⟨rfl, rfl⟩
    | ended hstep => simp [after?, hstep] at hafter
  | refused hnext hstep =>
    rw [Line.scan_of_next? hnext] at hconsumes
    cases hconsumes with
    | goesOn hafter => simp [after?, hstep] at hafter
    | ended hstep' => simp [hstep] at hstep'
  | ended hnext hstep =>
    rw [Line.scan_of_next? hnext] at hconsumes
    cases hconsumes with
    | goesOn hafter => simp [after?, hstep] at hafter
    | ended => exact ⟨rfl, rfl⟩

theorem takeAll_consumes (sheet : Worksheet) (lines : List String)
    (haccepted : ∀ rejection position,
      .rejected rejection position ∉ Deed.events (sheet.takeAll lines).1) :
    Consumes sheet (lines.flatMap fun line => Token.scan line.toList) (sheet.takeAll lines).1
      (sheet.takeAll lines).2 := by
  induction lines generalizing sheet with
  | nil => exact .nil
  | cons line lines ih =>
    have hworks := sheet.works_take line
    rw [List.flatMap_cons, ← Line.scan_load]
    rcases sheet.takeAll_cons line lines with ⟨deeds, htake, hall⟩ | ⟨deeds, next, htake, hall⟩
    · rw [htake] at hworks
      rw [hall] at haccepted ⊢
      exact (hworks.consumes haccepted).append_of_none _
    · rw [htake] at hworks
      rw [hall] at haccepted ⊢
      simp only [Deed.events_append, List.mem_append, not_or, forall_and] at haccepted
      exact (hworks.consumes haccepted.1).append (ih next haccepted.2)

/-- Tokens that are consumed decide what the lines bring about that they come on. -/
theorem takeAll_of_consumes {lines : List String}
    (h : Consumes sheet (lines.flatMap fun line => Token.scan line.toList) deeds last) :
    sheet.takeAll lines = (deeds, last) := by
  induction lines generalizing sheet deeds with
  | nil =>
    cases h
    rfl
  | cons line lines ih =>
    have hworks := sheet.works_take line
    rw [List.flatMap_cons, ← Line.scan_load] at h
    rcases h.split with ⟨hnone, rfl⟩ | ⟨sheet', front, back, hfront, hback, rfl⟩
    · obtain ⟨hdeeds, hlast⟩ := hworks.eq_of_consumes hnone
      exact takeAll_of_none (Prod.ext hdeeds hlast) lines
    · obtain ⟨hdeeds, hlast⟩ := hworks.eq_of_consumes hfront
      rw [takeAll_of_some (Prod.ext hdeeds hlast), ih hback]

/-- Respacing changes nothing of what some lines bring about if they reject nothing. -/
theorem takeAll_respaced {lines lines' : List String} (h : Respaced (joined lines) (joined lines'))
    (haccepted : ∀ rejection position,
      .rejected rejection position ∉ Deed.events (sheet.takeAll lines).1) :
    sheet.takeAll lines' = sheet.takeAll lines := by
  have hconsumes := sheet.takeAll_consumes lines haccepted
  rw [← Token.scan_joined, h.scan_eq, Token.scan_joined] at hconsumes
  exact takeAll_of_consumes hconsumes

end Worksheet

namespace Calculator

variable {σ : Type} [Sink σ] [Sink.Reliable σ]

/-- On a sink that never fails, a session that rejects nothing ends in the same way, with the same
values, variables and target, over lines whose text differs in nothing but blanks and newlines
between words and at the ends. Without a prompt it also writes the same text. -/
theorem run_respaced (settings : Settings) (sink : σ) {lines lines' : List String}
    (hspaced : Respaced (joined lines) (joined lines'))
    (haccepted : ∀ rejection position, .rejected rejection position ∉
      (start settings { replies := lines.map .line, sink }).run.2.reader.channel.journal) :
    let result := (start settings { replies := lines.map .line, sink }).run
    let result' := (start settings { replies := lines'.map .line, sink }).run
    (∀ rejection position, .rejected rejection position ∉ result'.2.reader.channel.journal) ∧
    result'.1 = result.1 ∧
    result'.2.reader.channel.journal = result.2.reader.channel.journal ∧
    result'.2.memory = result.2.memory ∧
    (settings.prompt = "" → ∀ written : σ → String, Sink.Keeps written →
      written result'.2.reader.channel.sink = written result.2.reader.channel.sink) := by
  intro result result'
  obtain ⟨hending, hjournal, hmemory⟩ := run_deeds settings { target := settings.target } lines sink
  obtain ⟨hending', hjournal', hmemory'⟩ :=
    run_deeds settings { target := settings.target } lines' sink
  have hnone : ∀ rejection position, .rejected rejection position ∉
      Deed.events ((Worksheet.start settings).takeAll lines).1 := by
    intro rejection position hmem
    refine haccepted rejection position (List.mem_reverse.1 ?_)
    rw [show (result.2.reader.channel.journal).reverse = _ from hjournal]
    exact List.mem_cons_of_mem _ (List.mem_append_left _ hmem)
  have hdeeds : (Worksheet.start settings).takeAll lines' =
      (Worksheet.start settings).takeAll lines := Worksheet.takeAll_respaced hspaced hnone
  rw [show ({ memory := { target := settings.target } } : Worksheet).takeAll lines' = _ from hdeeds]
    at hending' hjournal' hmemory'
  have hsame : result'.2.reader.channel.journal = result.2.reader.channel.journal :=
    List.reverse_inj.1 (hjournal'.trans hjournal.symm)
  refine ⟨?_, hending'.trans hending.symm, hsame, hmemory'.trans hmemory.symm, ?_⟩
  · intro rejection position
    rw [hsame]
    exact haccepted rejection position
  · intro hprompt written hkeeps
    have htext := (run_concludes hkeeps settings lines sink).text
    have htext' := (run_concludes hkeeps settings lines' sink).text
    dsimp only at htext htext'
    rw [hprompt, Worksheet.transcript_text_quiet] at htext htext'
    rw [hdeeds] at htext'
    exact htext'.trans htext.symm

/-- An assignment and the exit word on two lines, and on five with other blanks. -/
theorem run_respaced_over_five_lines :
    let lines := ["x = 2", "3 * @ exit"]
    let lines' := ["", "  x = 2 3", "*\t@", "", "exit "]
    let result := (start ({} : Settings).quiet
      { replies := lines'.map .line, sink := ({} : Paper) }).run
    Respaced (joined lines) (joined lines') ∧ result.1 = .ok .exit ∧
      result.2.memory.get "x" = .ofBits 0x4018000000000000 ∧
      result.2.reader.channel.sink.written = "6\n\nBye\n" := by
  intro lines lines' result
  have hspaced : Respaced (joined lines) (joined lines') := by decide +kernel
  have hmild : ∀ event ∈ (start ({} : Settings).quiet
      { replies := lines.map .line, sink := ({} : Paper) }).run.2.reader.channel.journal,
      (match event with | .rejected .. => false | _ => true) = true := by decide +kernel
  obtain ⟨-, hending, -, hmemory, htext⟩ := run_respaced ({} : Settings).quiet ({} : Paper) hspaced
    fun rejection position hmem => absurd (hmild _ hmem) (by simp)
  rw [hending, hmemory, htext rfl Paper.written Paper.keeps_written]
  exact ⟨hspaced, by decide +kernel⟩

end Calculator

end ReversePolish
