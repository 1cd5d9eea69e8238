import ReversePolish.Proofs.ExpressionFaults
import ReversePolish.Proofs.LineTails
import ReversePolish.Proofs.SessionDeeds
import ReversePolish.Proofs.SpacedText

/-!
# Error recovery

A rejected expression takes the rest of its line with it and nothing else. Whatever stands there is
never looked at; what comes next is a session over the later lines with the variables and the target
as they are then. If the expression began on the line, nothing was open before it and no target was
changed on it, the line may as well not be there.
-/

namespace ReversePolish

def Deed.refusal (rejection : Rejection) (source : String) (position : Nat) : List Deed :=
  [.note (.rejected rejection position), .say (rejection.report source position ++ ["no value"])]

@[simp] theorem Deed.events_refusal (rejection : Rejection) (source : String) (position : Nat) :
    events (refusal rejection source position) = [.rejected rejection position] := rfl

namespace Worksheet

variable {sheet sheet' : Worksheet} {line : Line} {token : Token} {deeds deeds' : List Deed}
  {last last' : Option Worksheet} {rejection : Rejection} {position : Nat}

theorem Works.unique (h : Works sheet line deeds last) (h' : Works sheet line deeds' last') :
    deeds = deeds' ∧ last = last' := by
  induction h generalizing deeds' with
  | blank hnext =>
    cases h' with
    | blank => exact ⟨rfl, rfl⟩
    | _ => simp_all
  | goesOn hnext hafter later ih =>
    cases h' with
    | goesOn hnext' hafter' later' =>
      obtain ⟨rfl, rfl⟩ := Prod.mk.inj (Option.some.inj (hnext.symm.trans hnext'))
      obtain rfl := Option.some.inj (hafter.symm.trans hafter')
      obtain ⟨rfl, rfl⟩ := ih later'
      exact ⟨rfl, rfl⟩
    | _ => simp_all [after?]
  | refused hnext hstep =>
    cases h' with
    | refused hnext' hstep' =>
      obtain ⟨rfl, rfl⟩ := Prod.mk.inj (Option.some.inj (hnext.symm.trans hnext'))
      obtain rfl := Verdict.reject.inj (hstep.symm.trans hstep')
      exact ⟨rfl, rfl⟩
    | _ => simp_all [after?]
  | ended hnext hstep =>
    cases h' with
    | ended hnext' hstep' =>
      obtain ⟨rfl, rfl⟩ := Prod.mk.inj (Option.some.inj (hnext.symm.trans hnext'))
      exact ⟨rfl, rfl⟩
    | _ => simp_all [after?]

theorem rejected_not_mem_does (sheet : Worksheet) (token : Token) (rejection : Rejection)
    (position : Nat) : .rejected rejection position ∉ Deed.events (sheet.does token) := by
  unfold does
  split <;> simp [Deed.events, Deed.event?]

theorem memory_after (h : sheet.after? token = some sheet') :
    sheet'.memory = (Deed.events (sheet.does token)).foldl Event.apply sheet.memory := by
  rw [does]
  rw [after?] at h
  cases hstep : sheet.progress.step sheet.memory.get sheet.operands token with
  | more | retarget | ignore | value =>
    rw [hstep] at h
    obtain rfl := Option.some.inj h
    rfl
  | reject | exit => simp [hstep] at h

theorem Works.memory (h : Works sheet line deeds (some sheet')) :
    sheet'.memory = (Deed.events deeds).foldl Event.apply sheet.memory := by
  generalize hlast : some sheet' = last at h
  induction h with
  | blank =>
    obtain rfl := Option.some.inj hlast
    rfl
  | goesOn hnext hafter later ih =>
    rw [ih hlast, memory_after hafter, Deed.events_append, List.foldl_append]
  | refused =>
    obtain rfl := Option.some.inj hlast
    rfl
  | ended => simp at hlast

/-- A line that is refused is refused for what it begins with, up to the position of the rejection.
With any other rest it does the same, but for its text in the report. -/
theorem Works.exists_passed (h : Works sheet line deeds last)
    (hend : line.rest.getLast? = some '\n')
    (hmem : .rejected rejection position ∈ Deed.events deeds) :
    ∃ quiet memory passed tail, line.rest = passed ++ tail ∧ passed ≠ [] ∧ tail ≠ [] ∧
      position = line.taken.length + passed.length ∧
      (∃ token : Token, (Deed.events quiet).getLast? = some (.scanned token) ∧
        token.text.toList <:+ passed) ∧
      (∀ rejection position, .rejected rejection position ∉ Deed.events quiet) ∧
      ∀ tail', Works sheet (line.withRest (passed ++ tail'))
        (quiet ++ Deed.refusal rejection (line.withRest (passed ++ tail')).text position)
        (some { memory }) := by
  induction h with
  | blank => simp [Deed.events] at hmem
  | @goesOn sheet sheet' line line' token deeds last hnext hafter later ih =>
    obtain ⟨hend', -⟩ := Line.firstToken_of_next? hend hnext []
    rw [Deed.events_append, List.mem_append] at hmem
    obtain ⟨quiet, memory, passed, tail, hrest, hne, htail, hposition, hoffending, hquiet,
      hworks⟩ := ih hend' (hmem.resolve_left (sheet.rejected_not_mem_does token rejection position))
    obtain ⟨offending, hlast, hends⟩ := hoffending
    obtain ⟨front, -, hline, htaken, hnext'⟩ := Line.next?_withRest hnext hrest (.inl hne)
    refine ⟨sheet.does token ++ quiet, memory, front ++ passed, tail, ?_, by simp [hne], htail, ?_,
      ⟨offending, ?_, hends.trans (List.suffix_append front passed)⟩, ?_, fun tail' => ?_⟩
    · rw [hline, hrest, List.append_assoc]
    · rw [hposition, htaken, List.length_append, List.length_append, List.length_reverse]
      omega
    · rw [Deed.events_append, List.getLast?_append, hlast]
      rfl
    · intro rejection' position' hmem'
      rw [Deed.events_append, List.mem_append] at hmem'
      exact hmem'.elim (sheet.rejected_not_mem_does token rejection' position')
        (hquiet rejection' position')
    · have hgoesOn := Works.goesOn (hnext' tail') hafter (hworks tail')
      have htext : (line'.withRest (passed ++ tail')).text =
          (line.withRest (front ++ (passed ++ tail'))).text := by
        rw [Line.text, Line.text, Line.chars_of_next? (hnext' tail')]
      rw [htext, ← List.append_assoc, ← List.append_assoc] at hgoesOn
      exact hgoesOn
  | @refused sheet line line' token found hnext hstep =>
    obtain ⟨rfl, rfl⟩ : rejection = found ∧ position = line'.position := by
      simpa [Deed.events, Deed.event?] using hmem
    obtain ⟨hend', -⟩ := Line.firstToken_of_next? hend hnext []
    have hkind := Progress.kind_of_reject (Line.readable_of_next? hnext) hstep
    obtain ⟨passed, hends, hline, htaken, hnext'⟩ :=
      Line.next?_withRest hnext (List.nil_append line'.rest).symm (.inr hkind)
    refine ⟨[.note (.scanned token)], sheet.memory, passed, line'.rest, hline, ?_, ?_, ?_,
      ⟨token, rfl, hends⟩, ?_, fun tail' => ?_⟩
    · rintro rfl
      exact absurd (Line.rest_length_of_next? hnext) (by simp [hline])
    · intro hnil
      simp [hnil] at hend'
    · rw [Line.position, htaken, List.length_append, List.length_reverse]
      omega
    · simp [Deed.events, Deed.event?]
    · have hrefused := Works.refused (hnext' tail') hstep
      rw [Line.text, Line.chars_of_next? (hnext' tail')] at hrefused
      exact hrefused
  | ended => simp [Deed.events, Deed.event?] at hmem

/-- On a line an expression is rejected at a position, after some deeds and with a memory that the
session goes on with. What stands after the position makes no difference. -/
structure Refusal (sheet : Worksheet) (text : String) (rejection : Rejection) (position : Nat)
    (deeds : List Deed) (memory : Memory) : Prop where
  within : position ≤ text.toList.length
  offending : ∃ token : Token, (Deed.events deeds).getLast? = some (.scanned token) ∧
    token.text.toList <:+ text.toList.take position
  accepted : ∀ rejection position, .rejected rejection position ∉ Deed.events deeds
  take : ∀ other : List Char, sheet.take (String.ofList (text.toList.take position ++ other)) =
    (deeds ++ Deed.refusal rejection (String.ofList (text.toList.take position ++ other)) position,
      some { memory })

namespace Refusal

variable {text : String} {memory : Memory}

theorem take_text (h : Refusal sheet text rejection position deeds memory) :
    sheet.take text = (deeds ++ Deed.refusal rejection text position, some { memory }) := by
  have htake := h.take (text.toList.drop position)
  rw [List.take_append_drop, String.ofList_toList] at htake
  exact htake

theorem withRest (h : Refusal sheet text rejection position deeds memory) (other : List Char) :
    Refusal sheet (String.ofList (text.toList.take position ++ other)) rejection position deeds
      memory := by
  have hlength : (text.toList.take position).length = position :=
    List.length_take_of_le h.within
  have htake : (text.toList.take position ++ other).take position = text.toList.take position := by
    rw [List.take_append_of_le_length hlength.ge, List.take_take, Nat.min_self]
  refine ⟨?_, ?_, h.accepted, fun other' => ?_⟩
  · rw [String.toList_ofList, List.length_append, hlength]
    exact Nat.le_add_right _ _
  · rw [String.toList_ofList, htake]
    exact h.offending
  · rw [String.toList_ofList, htake]
    exact h.take other'

theorem memory_eq (h : Refusal sheet text rejection position deeds memory) :
    memory = (Deed.events deeds).foldl Event.apply sheet.memory := by
  have hworks := sheet.works_take text
  rw [h.take_text] at hworks
  have hmemory := hworks.memory
  rw [Deed.events_append, List.foldl_append] at hmemory
  exact hmemory

end Refusal

theorem exists_refusal {text : String}
    (h : .rejected rejection position ∈ Deed.events (sheet.take text).1) :
    ∃ deeds memory, Refusal sheet text rejection position deeds memory := by
  obtain ⟨quiet, memory, passed, tail, hrest, -, htail, hposition, hoffending, hquiet, hworks⟩ :=
    (sheet.works_take text).exists_passed List.getLast?_concat h
  obtain ⟨tail, last, rfl⟩ := List.eq_nil_or_concat tail |>.resolve_left htail
  have htext : text.toList = passed ++ tail := by
    rw [Line.load, List.concat_eq_append, ← List.append_assoc] at hrest
    exact (List.append_inj' hrest rfl).1
  obtain rfl : position = passed.length := by simpa [Line.load] using hposition
  have hpassed : text.toList.take passed.length = passed := by rw [htext, List.take_left]
  refine ⟨quiet, memory, by simp [htext], ?_, hquiet, fun other => ?_⟩ <;> rw [hpassed]
  · exact hoffending
  have hother := hworks (other ++ ['\n'])
  have hload : (Line.load text).withRest (passed ++ (other ++ ['\n'])) =
      .load (String.ofList (passed ++ other)) := by
    simp [Line.load, Line.withRest]
  have hline : (Line.load (String.ofList (passed ++ other))).text =
      String.ofList (passed ++ other) := by
    simp [Line.text, Line.chars, Line.load]
  rw [hload, hline] at hother
  obtain ⟨hdeeds, hlast⟩ := (works_take sheet _).unique hother
  exact Prod.ext hdeeds hlast

/-- A rejection in a session is found on one of its lines. What comes after it are the events of the
later lines, taken with the memory that the rejection leaves. -/
theorem exists_refused_line {lines : List String} {earlier later : List Event}
    (h : Deed.events (sheet.takeAll lines).1 = earlier ++ .rejected rejection position :: later) :
    ∃ before line after sheet' deeds quiet memory, lines = before ++ line :: after ∧
      sheet.takeAll before = (deeds, some sheet') ∧
      Refusal sheet' line rejection position quiet memory ∧
      earlier = Deed.events deeds ++ Deed.events quiet ∧
      later = Deed.events (({ memory } : Worksheet).takeAll after).1 := by
  induction lines generalizing sheet earlier with
  | nil => simp [takeAll, Deed.events] at h
  | cons line lines ih =>
    have hrefusal : .rejected rejection position ∈ Deed.events (sheet.take line).1 →
        ∃ deeds memory, Refusal sheet line rejection position deeds memory := exists_refusal
    rcases sheet.takeAll_cons line lines with ⟨first, htake, hall⟩ | ⟨first, next, htake, hall⟩
    · rw [hall] at h
      rw [htake, show Deed.events first = _ from h] at hrefusal
      obtain ⟨quiet, memory, hrefused⟩ := hrefusal (by simp)
      rw [hrefused.take_text] at htake
      simp at htake
    · rw [hall, Deed.events_append] at h
      rw [htake] at hrefusal
      have hplace : (∃ back, Deed.events first = earlier ++ .rejected rejection position :: back ∧
          later = back ++ Deed.events (next.takeAll lines).1) ∨
          ∃ front, earlier = Deed.events first ++ front ∧
            Deed.events (next.takeAll lines).1 =
              front ++ .rejected rejection position :: later := by
        rcases List.append_eq_append_iff.1 h with
          ⟨front, hearlier, hback⟩ | ⟨back, hfirst, hlater⟩
        · exact .inr ⟨front, hearlier, hback⟩
        · cases back with
          | nil => exact .inr ⟨[], by simpa using hfirst.symm, hlater.symm⟩
          | cons event back =>
            obtain ⟨rfl, hback⟩ := List.cons.inj hlater
            exact .inl ⟨back, hfirst, hback⟩
      rcases hplace with ⟨back, hfirst, rfl⟩ | ⟨front, rfl, hback⟩
      · obtain ⟨quiet, memory, hrefused⟩ := hrefusal (by simp [hfirst])
        obtain ⟨rfl, hnext⟩ := Prod.mk.inj (htake.symm.trans hrefused.take_text)
        obtain rfl := Option.some.inj hnext
        rw [Deed.events_append] at hfirst
        obtain ⟨rfl, -, rfl⟩ := (List.append_cons_inj_of_notMem
          (hrefused.accepted rejection position) List.not_mem_nil).1 hfirst
        exact ⟨[], line, lines, sheet, [], quiet, memory, rfl, rfl, hrefused, rfl, rfl⟩
      · obtain ⟨before, found, after, sheet', deeds, quiet, memory, rfl, hbefore, hrefused, rfl,
          hafter⟩ := ih hback
        refine ⟨line :: before, found, after, sheet', first ++ deeds, quiet, memory, rfl, ?_,
          hrefused, ?_, hafter⟩
        · rw [takeAll_of_some htake, hbefore]
        · rw [Deed.events_append, List.append_assoc]

/-- A session over lines of which one is refused is a session over those before it, the deeds of
that line and a session over those after it. -/
theorem takeAll_refused {before : List String} {line : String} {quiet : List Deed}
    {memory : Memory} (hbefore : sheet.takeAll before = (deeds, some sheet'))
    (h : Refusal sheet' line rejection position quiet memory) (after : List String) :
    sheet.takeAll (before ++ line :: after) =
      (deeds ++ (quiet ++ Deed.refusal rejection line position ++
        (({ memory } : Worksheet).takeAll after).1),
      (({ memory } : Worksheet).takeAll after).2) := by
  rw [takeAll_append hbefore, takeAll_of_some h.take_text]

theorem transcript_refused {line : String} {memory : Memory}
    (h : Refusal sheet line rejection position deeds memory) (prompt : String)
    (after : List String) :
    sheet.transcript prompt (line :: after) =
      let later := ({ memory } : Worksheet).transcript prompt after
      { later with text :=
          prompt ++ Deed.texts (deeds ++ Deed.refusal rejection line position) ++ later.text } := by
  rw [transcript, h.take_text]

/-- A target changes only where an expression begins with a name and an equals sign. -/
theorem Works.no_retarget (h : Works sheet line deeds last) {before : List Token}
    (hreads : sheet.progress.Reads sheet.operands before)
    (hassign : assignment? (before ++ Token.scan line.rest) = none)
    (hvalue : ∀ target value, .evaluated target value ∉ Deed.events deeds) (name : String) :
    .retargeted name ∉ Deed.events deeds := by
  induction h generalizing before with
  | blank => simp [Deed.events]
  | @goesOn sheet sheet' line line' token deeds last hnext hafter later ih =>
    have hfits := step_fits sheet.memory.get hreads (Line.readable_of_next? hnext)
    rw [Line.scan_of_next? hnext, List.append_cons] at hassign
    simp only [Deed.events_append, List.mem_append, not_or, forall_and] at hvalue ⊢
    rw [does] at hvalue ⊢
    rw [after?] at hafter
    cases hstep : sheet.progress.step sheet.memory.get sheet.operands token with
    | more | ignore =>
      rw [hstep] at hfits hafter
      obtain rfl := Option.some.inj hafter
      exact ⟨by simp [Deed.events, Deed.event?], ih hfits.2 hassign hvalue.2⟩
    | retarget target operands =>
      rw [hstep] at hfits
      obtain ⟨-, -, text, hbefore⟩ := hfits
      rw [hbefore] at hassign
      simp [assignment?] at hassign
    | value value operands =>
      rw [hstep] at hvalue
      exact absurd (by simp [Deed.events, Deed.event?]) (hvalue.1 sheet.memory.target value)
    | reject | exit => simp [hstep] at hafter
  | refused => simp [Deed.events, Deed.event?]
  | ended => simp [Deed.events, Deed.event?]

theorem foldl_apply_eq {events : List Event} (memory : Memory)
    (hvalue : ∀ target value, .evaluated target value ∉ events)
    (htarget : ∀ name, .retargeted name ∉ events) :
    events.foldl Event.apply memory = memory := by
  induction events with
  | nil => rfl
  | cons event events ih =>
    simp only [List.mem_cons, not_or, forall_and] at hvalue htarget
    have happly : event.apply memory = memory := by
      cases event with
      | retargeted name => exact absurd rfl (htarget.1 name)
      | evaluated target value => exact absurd rfl (hvalue.1 target value)
      | _ => rfl
    rw [List.foldl_cons, happly]
    exact ih hvalue.2 htarget.2

/-- Where nothing of an expression has been read there are no operands. -/
def Tidy (sheet : Worksheet) : Prop := sheet.progress = .fresh → sheet.operands = {}

/-- Some of an expression has been read where it goes on after a token. -/
theorem tidy_after (h : sheet.after? token = some sheet') : sheet'.Tidy := by
  intro hfresh
  unfold after? at h
  split at h
  case h_1 hstep =>
    obtain rfl := Option.some.inj h
    obtain rfl : _ = Progress.fresh := hfresh
    exact (Progress.step_ne_more_fresh _ _ _ _ _ hstep).elim
  case h_4 =>
    obtain rfl := Option.some.inj h
    rfl
  case h_2 | h_3 =>
    obtain rfl := Option.some.inj h
    simp at hfresh
  all_goals simp at h

theorem Works.tidy (h : Works sheet line deeds (some sheet')) (htidy : sheet.Tidy) :
    sheet'.Tidy := by
  generalize hlast : some sheet' = last at h
  induction h with
  | blank =>
    obtain rfl := Option.some.inj hlast
    exact htidy
  | goesOn hnext hafter later ih => exact ih (tidy_after hafter) hlast
  | refused =>
    obtain rfl := Option.some.inj hlast
    exact fun _ => rfl
  | ended => simp at hlast

/-- A line with a rejection leaves a fresh worksheet as it is, unless a value comes before the
rejection or the line begins with a name and an equals sign. -/
theorem Refusal.sheet_eq {line : String} {memory : Memory}
    (h : Refusal sheet line rejection position deeds memory) (htidy : sheet.Tidy)
    (hfresh : sheet.progress = .fresh)
    (hvalue : ∀ target value, .evaluated target value ∉ Deed.events deeds)
    (hassign : assignment? (Token.scan line.toList) = none) : sheet = { memory } := by
  have hworks := sheet.works_take line
  rw [h.take_text] at hworks
  have hnothing := htidy hfresh
  have hreads : sheet.progress.Reads sheet.operands [] := by
    rw [hfresh, hnothing]
    exact ⟨rfl, rfl⟩
  have hnone := hworks.no_retarget hreads (by simpa using hassign) (by
    simpa [Deed.refusal, Deed.events, Deed.event?] using hvalue)
  have htarget : ∀ name, .retargeted name ∉ Deed.events deeds := fun name hmem => by
    refine hnone name ?_
    rw [Deed.events_append]
    exact List.mem_append_left _ hmem
  have hmemory : memory = sheet.memory := h.memory_eq.trans (foldl_apply_eq _ hvalue htarget)
  obtain ⟨own, progress, operands⟩ := sheet
  obtain rfl : own = memory := hmemory.symm
  obtain rfl : progress = .fresh := hfresh
  obtain rfl : operands = {} := hnothing
  rfl

theorem Works.head_events (h : Works sheet line deeds last) :
    (Deed.events deeds).head? = (Token.scan line.rest).head?.map .scanned := by
  cases h with
  | blank hnext => rw [Line.scan_of_none hnext]; rfl
  | goesOn hnext => rw [Line.scan_of_next? hnext]; rfl
  | refused hnext => rw [Line.scan_of_next? hnext]; rfl
  | ended hnext => rw [Line.scan_of_next? hnext]; rfl

theorem Works.scan_ne_nil (h : Works sheet line deeds none) : Token.scan line.rest ≠ [] := by
  cases h with
  | goesOn hnext => simp [Line.scan_of_next? hnext]
  | ended hnext => simp [Line.scan_of_next? hnext]

theorem head_events_takeAll (sheet : Worksheet) (lines : List String) :
    (Deed.events (sheet.takeAll lines).1).head? =
      (Token.scan (joined lines)).head?.map .scanned := by
  rw [Token.scan_joined]
  induction lines generalizing sheet with
  | nil => rfl
  | cons line lines ih =>
    have hworks := sheet.works_take line
    rw [List.flatMap_cons, ← Line.scan_load, List.head?_append]
    rcases sheet.takeAll_cons line lines with ⟨deeds, htake, hall⟩ | ⟨deeds, next, htake, hall⟩
    · rw [htake] at hworks
      obtain ⟨token, tokens, hscan⟩ := List.exists_cons_of_ne_nil hworks.scan_ne_nil
      rw [hall, hworks.head_events, hscan]
      rfl
    · rw [htake] at hworks
      rw [hall, Deed.events_append, List.head?_append, hworks.head_events, ih]
      cases (Token.scan (Line.load line).rest).head? <;> rfl

end Worksheet

theorem Worksheet.memory_takeAll {sheet sheet' : Worksheet} {lines : List String}
    {deeds : List Deed} (h : sheet.takeAll lines = (deeds, some sheet')) :
    sheet'.memory = (Deed.events deeds).foldl Event.apply sheet.memory := by
  induction lines generalizing sheet deeds with
  | nil =>
    obtain ⟨rfl, hsheet⟩ := Prod.mk.inj h
    obtain rfl := Option.some.inj hsheet
    rfl
  | cons line lines ih =>
    obtain ⟨first, next, deeds, htake, hlater, rfl⟩ := take_of_takeAll h
    have hworks := sheet.works_take line
    rw [htake] at hworks
    rw [ih hlater, hworks.memory, Deed.events_append, List.foldl_append]

theorem Worksheet.tidy_takeAll {sheet sheet' : Worksheet} {lines : List String}
    {deeds : List Deed} (h : sheet.takeAll lines = (deeds, some sheet')) (htidy : sheet.Tidy) :
    sheet'.Tidy := by
  induction lines generalizing sheet deeds with
  | nil =>
    obtain ⟨-, hsheet⟩ := Prod.mk.inj h
    obtain rfl := Option.some.inj hsheet
    exact htidy
  | cons line lines ih =>
    obtain ⟨first, next, deeds, htake, hlater, rfl⟩ := take_of_takeAll h
    have hworks := sheet.works_take line
    rw [htake] at hworks
    exact ih hlater (hworks.tidy htidy)

theorem events_of_journal {events earlier later : List Event} {ending : Ending}
    {rejection : Rejection} {position : Nat}
    (h : .started :: (events ++ [.ended ending]) =
      earlier ++ .rejected rejection position :: later) :
    ∃ front back, earlier = .started :: front ∧ later = back ++ [.ended ending] ∧
      events = front ++ .rejected rejection position :: back := by
  cases earlier with
  | nil => simp at h
  | cons event front =>
    obtain ⟨rfl, hfront⟩ : event = .started ∧ events ++ [.ended ending] =
        front ++ .rejected rejection position :: later :=
      ⟨(List.cons.inj h).1.symm, (List.cons.inj h).2⟩
    rcases List.eq_nil_or_concat later with rfl | ⟨back, last, rfl⟩
    · have hlast := (List.append_inj' hfront rfl).2
      simp at hlast
    · rw [List.concat_eq_append, ← List.cons_append, ← List.append_assoc] at hfront
      obtain ⟨hevents, hlast⟩ := List.append_inj' hfront rfl
      obtain rfl := List.singleton_inj.1 hlast
      exact ⟨front, back, rfl, List.concat_eq_append, hevents⟩

/-- Where a session finds an expression that it rejects, told by the events noted before. The line
is reached with a worksheet, and on it some deeds come before the rejection. -/
structure RefusedAt (settings : Settings) (lines : List String) (earlier : List Event)
    (rejection : Rejection) (position : Nat) (before : List String) (line : String)
    (after : List String) (sheet : Worksheet) (quiet : List Deed) : Prop where
  lines_eq : lines = before ++ line :: after
  reached : ((Worksheet.start settings).takeAll before).2 = some sheet
  onLine : (sheet.take line).1 = quiet ++ Deed.refusal rejection line position
  within : position ≤ line.toList.length
  offending : ∃ token : Token, earlier.getLast? = some (.scanned token) ∧
    token.text.toList <:+ line.toList.take position
  earlier_eq : earlier =
    .started :: (Deed.events ((Worksheet.start settings).takeAll before).1 ++ Deed.events quiet)

theorem Worksheet.Refusal.refusedAt {settings : Settings} {before after : List String}
    {line : String} {sheet : Worksheet} {deeds quiet : List Deed} {rejection : Rejection}
    {position : Nat} {memory : Memory} (h : sheet.Refusal line rejection position quiet memory)
    (hbefore : (Worksheet.start settings).takeAll before = (deeds, some sheet)) :
    RefusedAt settings (before ++ line :: after)
      (.started :: (Deed.events deeds ++ Deed.events quiet)) rejection position before line after
      sheet quiet where
  lines_eq := rfl
  reached := congrArg Prod.snd hbefore
  onLine := congrArg Prod.fst h.take_text
  within := h.within
  offending := by
    obtain ⟨token, hlast, hends⟩ := h.offending
    refine ⟨token, ?_, hends⟩
    rw [← List.cons_append, List.getLast?_append, hlast]
    rfl
  earlier_eq := by rw [hbefore]

namespace Calculator

variable {σ : Type} [Sink σ] [Sink.Reliable σ] {written : σ → String}

omit [Sink.Reliable σ] in
def sessionOver (settings : Settings) (sink : σ) (lines : List String) :
    Except String Ending × Calculator σ :=
  (start settings { replies := lines.map .line, sink }).run

/-- Two sessions have ended in the same way, with the same journal and the same memory. -/
structure SameSession (result result' : Except String Ending × Calculator σ) : Prop where
  ending : result.1 = result'.1
  journal : result.2.reader.channel.journal = result'.2.reader.channel.journal
  memory : result.2.memory = result'.2.memory

theorem sessionOver_deeds (settings : Settings) (sink : σ) (lines : List String) :
    let result := sessionOver settings sink lines
    let deeds := (Worksheet.start settings).takeAll lines
    result.1 = .ok (Worksheet.ending deeds.2) ∧
    result.2.reader.channel.journal.reverse =
      .started :: (Deed.events deeds.1 ++ [.ended (Worksheet.ending deeds.2)]) ∧
    result.2.memory = (Deed.events deeds.1).foldl Event.apply { target := settings.target } :=
  run_deeds settings { target := settings.target } lines sink

theorem sameSession_of_events {settings : Settings} {lines lines' : List String}
    (hevents : Deed.events ((Worksheet.start settings).takeAll lines).1 =
      Deed.events ((Worksheet.start settings).takeAll lines').1)
    (hlast : ((Worksheet.start settings).takeAll lines).2 =
      ((Worksheet.start settings).takeAll lines').2) (sink : σ) :
    SameSession (sessionOver settings sink lines) (sessionOver settings sink lines') := by
  obtain ⟨hending, hjournal, hmemory⟩ := sessionOver_deeds settings sink lines
  obtain ⟨hending', hjournal', hmemory'⟩ := sessionOver_deeds settings sink lines'
  rw [hevents, hlast] at hjournal
  rw [hlast] at hending
  rw [hevents] at hmemory
  exact ⟨hending.trans hending'.symm, List.reverse_inj.1 (hjournal.trans hjournal'.symm),
    hmemory.trans hmemory'.symm⟩

/-- What a session writes, and the lines that it leaves, over lines of which the first ones are
taken. -/
theorem exists_said (hkeeps : Sink.Keeps written) {settings : Settings} {before : List String}
    {deeds : List Deed} {sheet : Worksheet}
    (hbefore : (Worksheet.start settings).takeAll before = (deeds, some sheet)) (sink : σ) :
    ∃ said, ∀ lines,
      let result := sessionOver settings sink (before ++ lines)
      let later := sheet.transcript settings.prompt lines
      written result.2.reader.channel.sink =
        said ++ (later.text ++ "\n" ++ settings.farewell ++ "\n") ∧
      result.2.reader.channel.replies = later.unread.map .line := by
  obtain ⟨said, hsaid⟩ := Worksheet.exists_transcript_append hbefore settings.prompt
  refine ⟨written sink ++ said, fun lines => ?_⟩
  have hconcludes := run_concludes hkeeps settings (before ++ lines) sink
  rw [hsaid] at hconcludes
  refine ⟨hconcludes.text.trans ?_, hconcludes.unread⟩
  simp only [String.append_assoc]

section Refused

variable {settings : Settings} {before : List String} {line : String} {sheet : Worksheet}
  {deeds quiet : List Deed} {rejection : Rejection} {position : Nat} {memory : Memory}

/-- Of a line with a rejection nothing after the position matters but for the report. -/
theorem sessionOver_withRest (hkeeps : Sink.Keeps written)
    (hbefore : (Worksheet.start settings).takeAll before = (deeds, some sheet))
    (h : sheet.Refusal line rejection position quiet memory) (after : List String) (sink : σ) :
    let result := sessionOver settings sink (before ++ line :: after)
    ∃ front back, written result.2.reader.channel.sink =
        front ++ Deed.texts (Deed.refusal rejection line position) ++ back ∧
      ∀ other,
        let line' := String.ofList (line.toList.take position ++ other)
        let result' := sessionOver settings sink (before ++ line' :: after)
        SameSession result' result ∧
        result'.2.reader.channel.replies = result.2.reader.channel.replies ∧
        written result'.2.reader.channel.sink =
          front ++ Deed.texts (Deed.refusal rejection line' position) ++ back := by
  intro result
  obtain ⟨said, hsaid⟩ := exists_said hkeeps hbefore sink
  let later := ({ memory } : Worksheet).transcript settings.prompt after
  have htext : ∀ found, sheet.Refusal found rejection position quiet memory →
      written (sessionOver settings sink (before ++ found :: after)).2.reader.channel.sink =
        said ++ settings.prompt ++ Deed.texts quiet ++
          Deed.texts (Deed.refusal rejection found position) ++
          (later.text ++ "\n" ++ settings.farewell ++ "\n") := by
    intro found hfound
    rw [(hsaid _).1, Worksheet.transcript_refused hfound, Deed.texts_append]
    simp only [later, String.append_assoc]
  refine ⟨_, _, htext line h, fun other =>
    ⟨sameSession_of_events ?_ ?_ sink, ?_, htext _ (h.withRest other)⟩⟩
  · rw [Worksheet.takeAll_refused hbefore (h.withRest other),
      Worksheet.takeAll_refused hbefore h]
    simp only [Deed.events_append]
    rfl
  · rw [Worksheet.takeAll_refused hbefore (h.withRest other),
      Worksheet.takeAll_refused hbefore h]
  · rw [(hsaid _).2, (hsaid _).2, Worksheet.transcript_refused (h.withRest other),
      Worksheet.transcript_refused h]

theorem events_refused
    (hbefore : (Worksheet.start settings).takeAll before = (deeds, some sheet))
    (h : sheet.Refusal line rejection position quiet memory) (after : List String) :
    Deed.events ((Worksheet.start settings).takeAll (before ++ line :: after)).1 =
      Deed.events deeds ++ Deed.events quiet ++ .rejected rejection position ::
        Deed.events (({ memory } : Worksheet).takeAll after).1 := by
  rw [Worksheet.takeAll_refused hbefore h]
  simp

theorem memory_refused
    (hbefore : (Worksheet.start settings).takeAll before = (deeds, some sheet))
    (h : sheet.Refusal line rejection position quiet memory) :
    (Deed.events deeds ++ Deed.events quiet).foldl Event.apply { target := settings.target } =
      memory := by
  rw [List.foldl_append, h.memory_eq, Worksheet.memory_takeAll hbefore]
  rfl

/-- After a rejection a session is one over the later lines, with the variables and the target that
it has then. -/
theorem sessionOver_after
    (hbefore : (Worksheet.start settings).takeAll before = (deeds, some sheet))
    (h : sheet.Refusal line rejection position quiet memory) (after : List String) (sink : σ) :
    let result := sessionOver settings sink (before ++ line :: after)
    let restarted := (startFrom settings memory { replies := after.map .line, sink }).run
    restarted.1 = result.1 ∧ restarted.2.memory = result.2.memory := by
  intro result restarted
  obtain ⟨hending, -, hmemory⟩ := sessionOver_deeds settings sink (before ++ line :: after)
  obtain ⟨hending', -, hmemory'⟩ := run_deeds settings memory after sink
  rw [Worksheet.takeAll_refused hbefore h] at hending
  rw [events_refused hbefore h, List.foldl_append, memory_refused hbefore h] at hmemory
  exact ⟨hending'.trans hending.symm, hmemory'.trans hmemory.symm⟩

/-- A line that leaves a fresh worksheet as it is adds its own events and nothing else. -/
theorem sessionOver_without (hkeeps : Sink.Keeps written)
    (hbefore : (Worksheet.start settings).takeAll before = (deeds, some sheet))
    (h : sheet.Refusal line rejection position quiet memory) (hsheet : sheet = { memory })
    (after : List String) (sink : σ) :
    let result := sessionOver settings sink (before ++ line :: after)
    let result' := sessionOver settings sink (before ++ after)
    result'.1 = result.1 ∧ result'.2.memory = result.2.memory ∧
      ∃ front back, written result.2.reader.channel.sink =
          front ++ (settings.prompt ++ Deed.texts (sheet.take line).1) ++ back ∧
        written result'.2.reader.channel.sink = front ++ back := by
  intro result result'
  obtain ⟨hending, -, hmemory⟩ := sessionOver_deeds settings sink (before ++ line :: after)
  obtain ⟨hending', -, hmemory'⟩ := sessionOver_deeds settings sink (before ++ after)
  obtain ⟨said, hsaid⟩ := exists_said hkeeps hbefore sink
  rw [Worksheet.takeAll_refused hbefore h] at hending
  rw [events_refused hbefore h, List.foldl_append, memory_refused hbefore h] at hmemory
  rw [Worksheet.takeAll_append hbefore, hsheet] at hending' hmemory'
  refine ⟨hending'.trans hending.symm, ?_, said, _, ?_, (hsaid after).1⟩
  · have hreached : (Deed.events deeds).foldl Event.apply { target := settings.target } = memory :=
      (Worksheet.memory_takeAll hbefore).symm.trans (congrArg Worksheet.memory hsheet)
    rw [Deed.events_append, List.foldl_append, hreached] at hmemory'
    exact hmemory'.trans hmemory.symm
  · rw [(hsaid _).1, Worksheet.transcript_refused h, h.take_text, hsheet]
    simp only [String.append_assoc]

end Refused

/-- On a sink that never fails, a rejection on the journal of a session belongs to one of its lines
and drops what is left of it. First, whatever else stood there, the session would differ in the text
of that line in the report and in nothing more. Second, what follows is a session over the later
lines, with the variables and the target as they are then. Third, the session would be the same
without the line, but for what is noted and written about it, if the rejected expression began on
it, nothing was open before, no expression was complete on it and no assignment began it. -/
theorem rejection_drops_rest_of_line (hkeeps : Sink.Keeps written) (settings : Settings)
    (sink : σ) {lines : List String} {earlier later : List Event} {rejection : Rejection}
    {position : Nat}
    (hrejected : (sessionOver settings sink lines).2.reader.channel.journal.reverse =
      earlier ++ .rejected rejection position :: later) :
    let result := sessionOver settings sink lines
    ∃ before line after sheet quiet,
      RefusedAt settings lines earlier rejection position before line after sheet quiet ∧
      (∃ front back, written result.2.reader.channel.sink =
          front ++ Deed.texts (Deed.refusal rejection line position) ++ back ∧
        ∀ other,
          let line' := String.ofList (line.toList.take position ++ other)
          let result' := sessionOver settings sink (before ++ line' :: after)
          SameSession result' result ∧
          result'.2.reader.channel.replies = result.2.reader.channel.replies ∧
          written result'.2.reader.channel.sink =
            front ++ Deed.texts (Deed.refusal rejection line' position) ++ back) ∧
      (let memory := earlier.foldl Event.apply { target := settings.target }
        let restarted := (startFrom settings memory { replies := after.map .line, sink }).run
        restarted.1 = result.1 ∧ restarted.2.memory = result.2.memory ∧
        restarted.2.reader.channel.journal.reverse = .started :: later ∧
        ∀ token, (Token.scan (joined after)).head? = some token →
          later.head? = some (.scanned token)) ∧
      (sheet.progress = .fresh → (∀ target value, .evaluated target value ∉ Deed.events quiet) →
        assignment? (Token.scan line.toList) = none →
        let result' := sessionOver settings sink (before ++ after)
        result'.1 = result.1 ∧ result'.2.memory = result.2.memory ∧
        result'.2.reader.channel.journal.reverse =
          .started :: (Deed.events ((Worksheet.start settings).takeAll before).1 ++ later) ∧
        ∃ front back, written result.2.reader.channel.sink =
            front ++ (settings.prompt ++ Deed.texts (sheet.take line).1) ++ back ∧
          written result'.2.reader.channel.sink = front ++ back) := by
  intro result
  obtain ⟨-, hjournal, -⟩ := sessionOver_deeds settings sink lines
  rw [hjournal] at hrejected
  obtain ⟨front, back, rfl, rfl, hevents⟩ := events_of_journal hrejected
  obtain ⟨before, line, after, sheet, deeds, quiet, memory, rfl, hbefore, hrefusal, rfl, rfl⟩ :=
    Worksheet.exists_refused_line hevents
  have hlast := congrArg Prod.snd (Worksheet.takeAll_refused hbefore hrefusal after)
  have hmemory : (.started :: (Deed.events deeds ++ Deed.events quiet)).foldl Event.apply
      { target := settings.target } = memory := memory_refused hbefore hrefusal
  refine ⟨before, line, after, sheet, quiet, hrefusal.refusedAt hbefore,
    sessionOver_withRest hkeeps hbefore hrefusal after sink, ?_, fun hfresh hvalue hassign => ?_⟩
  · dsimp only
    rw [hmemory]
    obtain ⟨-, hrestarted, -⟩ := run_deeds settings memory after sink
    obtain ⟨hending, hsame⟩ := sessionOver_after hbefore hrefusal after sink
    refine ⟨hending, hsame, ?_, fun token htoken => ?_⟩
    · rw [hlast]
      exact hrestarted
    · rw [List.head?_append, Worksheet.head_events_takeAll, htoken]
      rfl
  · have hsheet := hrefusal.sheet_eq (Worksheet.tidy_takeAll hbefore fun _ => rfl) hfresh hvalue
      hassign
    obtain ⟨hending, hsame, htexts⟩ := sessionOver_without hkeeps hbefore hrefusal hsheet after sink
    obtain ⟨-, hwithout, -⟩ := sessionOver_deeds settings sink (before ++ after)
    refine ⟨hending, hsame, ?_, htexts⟩
    rw [hwithout, Worksheet.takeAll_append hbefore, hlast, hbefore, hsheet, Deed.events_append,
      List.append_assoc]

/-- An expression over two lines, with an end mark and the exit word after what is wrong with it. -/
theorem rejection_drops_exit_word :
    let lines := ["1 ~", "# @ exit", "2 @"]
    ∃ before line after, lines = before ++ line :: after ∧ ∀ other : List Char,
      let result := sessionOver {} ({} : Paper)
        (before ++ String.ofList (line.toList.take 1 ++ other) :: after)
      result.1 = .ok .endOfInput ∧ result.2.memory.get "it" = .ofBits 0x4000000000000000 := by
  intro lines
  have hjournal : (sessionOver {} ({} : Paper) lines).2.reader.channel.journal.reverse =
      [.started, .scanned ⟨.number, "1"⟩, .scanned ⟨.negate, "~"⟩, .scanned ⟨.invalid, "#"⟩] ++
        .rejected (.unreadable "#") 1 :: [.scanned ⟨.number, "2"⟩, .scanned ⟨.endMark, "@"⟩,
          .evaluated "it" (.ofBits 0x4000000000000000), .ended .endOfInput] := by
    decide +kernel
  obtain ⟨before, line, after, _, _, hplace, ⟨_, _, -, hother⟩, -⟩ :=
    rejection_drops_rest_of_line Paper.keeps_written {} ({} : Paper) hjournal
  have hresult : (sessionOver {} ({} : Paper) lines).1 = .ok .endOfInput ∧
      (sessionOver {} ({} : Paper) lines).2.memory.get "it" = .ofBits 0x4000000000000000 := by
    decide +kernel
  refine ⟨before, line, after, hplace.lines_eq, fun other => ?_⟩
  obtain ⟨hsame, -⟩ := hother other
  dsimp only
  rw [hsame.ending, hsame.memory]
  exact hresult

end Calculator

end ReversePolish
