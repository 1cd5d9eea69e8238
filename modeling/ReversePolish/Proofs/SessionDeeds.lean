import ReversePolish.Proofs.SessionJournal
import ReversePolish.Proofs.SessionTranscript

/-!
# The deeds of a session

All that a session does, its lines bring about one after the other. On a sink that never fails the
deeds of the lines account for everything that can be seen of it: its ending, its journal and with
it the variables and the target, and its transcript but for the prompts.
-/

namespace ReversePolish

namespace Deed

def event? : Deed → Option Event
  | .say _ => none
  | .note event => some event

def events (deeds : List Deed) : List Event := deeds.filterMap event?

@[simp] theorem events_append (deeds deeds' : List Deed) :
    events (deeds ++ deeds') = events deeds ++ events deeds' :=
  List.filterMap_append

theorem text_say_append (lines lines' : List String) :
    text (.say (lines ++ lines')) = text (.say lines) ++ text (.say lines') := by
  induction lines with
  | nil => exact String.empty_append.symm
  | cons line lines ih =>
    have hcons : ∀ lines, text (.say (line :: lines)) = line ++ "\n" ++ text (.say lines) :=
      fun _ => rfl
    rw [List.cons_append, hcons, hcons, ih, ← String.append_assoc]

theorem texts_append (deeds deeds' : List Deed) :
    texts (deeds ++ deeds') = texts deeds ++ texts deeds' := by
  induction deeds with
  | nil => exact String.empty_append.symm
  | cons deed deeds ih =>
    have hcons : ∀ deed deeds, texts (deed :: deeds) = deed.text ++ texts deeds := fun _ _ => rfl
    rw [List.cons_append, hcons, hcons, ih, String.append_assoc]

end Deed

namespace Worksheet

/-- What a token brings about that does not give up its line. -/
def does (sheet : Worksheet) (token : Token) : List Deed :=
  .note (.scanned token) :: match sheet.progress.step sheet.memory.get sheet.operands token with
    | .retarget name _ => [.note (.retargeted name)]
    | .ignore _ => [.note .assignIgnored]
    | .value value _ => [.note (.evaluated sheet.memory.target value), .say [value.write .result]]
    | .more _ _ | .reject _ | .exit => []

/-- What the rest of a line brings about, by whether its next token gives up the line. -/
inductive Works : Worksheet → Line → List Deed → Option Worksheet → Prop
  | blank {sheet line} (hnext : line.next? = none) : Works sheet line [] (some sheet)
  | goesOn {sheet sheet' line line' token deeds last} (hnext : line.next? = some (token, line'))
      (hafter : sheet.after? token = some sheet') (later : Works sheet' line' deeds last) :
      Works sheet line (sheet.does token ++ deeds) last
  | refused {sheet line line' token rejection} (hnext : line.next? = some (token, line'))
      (hstep : sheet.progress.step sheet.memory.get sheet.operands token = .reject rejection) :
      Works sheet line [.note (.scanned token), .note (.rejected rejection line'.position),
        .say (rejection.report line'.text line'.position ++ ["no value"])]
        (some { memory := sheet.memory })
  | ended {sheet line line' token} (hnext : line.next? = some (token, line'))
      (hstep : sheet.progress.step sheet.memory.get sheet.operands token = .exit) :
      Works sheet line [.note (.scanned token)] none

theorem Takes.works {sheet : Worksheet} {line : Line} {deeds : List Deed} {last : Option Worksheet}
    (h : Takes sheet line deeds last) : Works sheet line deeds last := by
  induction h with
  | blank hnext => exact .blank hnext
  | @more sheet _ _ token _ _ _ _ hnext hstep later ih
  | @retarget sheet _ _ token _ _ _ _ hnext hstep later ih
  | @ignore sheet _ _ token _ _ _ hnext hstep later ih
  | @value sheet _ _ token _ _ _ _ hnext hstep later ih =>
    have hgoesOn := Works.goesOn hnext (by rw [after?, hstep]) ih
    rw [does, hstep] at hgoesOn
    exact hgoesOn
  | reject hnext hstep => exact .refused hnext hstep
  | exit hnext hstep => exact .ended hnext hstep

theorem works_take (sheet : Worksheet) (text : String) :
    Works sheet (.load text) (sheet.take text).1 (sheet.take text).2 :=
  (takes_take sheet text).works

/-- All that some lines bring about, and the worksheet after them unless the session has ended. -/
def takeAll (sheet : Worksheet) : List String → List Deed × Option Worksheet
  | [] => ([], some sheet)
  | line :: lines =>
    match sheet.take line with
    | (deeds, none) => (deeds, none)
    | (deeds, some sheet) =>
      let (later, last) := sheet.takeAll lines
      (deeds ++ later, last)

def ending : Option Worksheet → Ending
  | some _ => .endOfInput
  | none => .exit

variable {sheet sheet' : Worksheet} {line : String} {lines : List String} {deeds : List Deed}

theorem takeAll_of_none (h : sheet.take line = (deeds, none)) (lines : List String) :
    sheet.takeAll (line :: lines) = (deeds, none) := by
  rw [takeAll, h]

theorem takeAll_of_some (h : sheet.take line = (deeds, some sheet')) (lines : List String) :
    sheet.takeAll (line :: lines) =
      (deeds ++ (sheet'.takeAll lines).1, (sheet'.takeAll lines).2) := by
  rw [takeAll, h]

theorem takeAll_cons (sheet : Worksheet) (line : String) (lines : List String) :
    (∃ deeds, sheet.take line = (deeds, none) ∧ sheet.takeAll (line :: lines) = (deeds, none)) ∨
      ∃ deeds next, sheet.take line = (deeds, some next) ∧ sheet.takeAll (line :: lines) =
        (deeds ++ (next.takeAll lines).1, (next.takeAll lines).2) := by
  cases htake : sheet.take line with
  | mk deeds next =>
    cases next with
    | none => exact .inl ⟨deeds, rfl, takeAll_of_none htake lines⟩
    | some next => exact .inr ⟨deeds, next, rfl, takeAll_of_some htake lines⟩

theorem take_of_takeAll (h : sheet.takeAll (line :: lines) = (deeds, some sheet')) :
    ∃ first next later, sheet.take line = (first, some next) ∧
      next.takeAll lines = (later, some sheet') ∧ deeds = first ++ later := by
  rcases sheet.takeAll_cons line lines with ⟨first, -, hall⟩ | ⟨first, next, htake, hall⟩
  · simp [hall] at h
  · rw [hall] at h
    obtain ⟨rfl, hlast⟩ := Prod.mk.inj h
    exact ⟨first, next, _, htake, Prod.ext rfl hlast, rfl⟩

/-- What some lines bring about does not depend on the lines after them, and these go on from
there. -/
theorem takeAll_append (h : sheet.takeAll lines = (deeds, some sheet')) (more : List String) :
    sheet.takeAll (lines ++ more) =
      (deeds ++ (sheet'.takeAll more).1, (sheet'.takeAll more).2) := by
  induction lines generalizing sheet deeds with
  | nil =>
    obtain ⟨rfl, hsheet⟩ := Prod.mk.inj h
    obtain rfl := Option.some.inj hsheet
    rfl
  | cons line lines ih =>
    obtain ⟨first, next, later, htake, hlater, rfl⟩ := take_of_takeAll h
    rw [List.cons_append, takeAll_of_some htake, ih hlater, List.append_assoc]

/-- The transcript of some lines goes on from the worksheet after the first of them. -/
theorem exists_transcript_append (h : sheet.takeAll lines = (deeds, some sheet'))
    (prompt : String) :
    ∃ said, ∀ more, sheet.transcript prompt (lines ++ more) =
      { sheet'.transcript prompt more with
        text := said ++ (sheet'.transcript prompt more).text } := by
  induction lines generalizing sheet deeds with
  | nil =>
    obtain ⟨-, hsheet⟩ := Prod.mk.inj h
    obtain rfl := Option.some.inj hsheet
    exact ⟨"", fun more => by rw [String.empty_append]; rfl⟩
  | cons line lines ih =>
    obtain ⟨first, next, later, htake, hlater, -⟩ := take_of_takeAll h
    obtain ⟨said, hsaid⟩ := ih hlater
    refine ⟨prompt ++ Deed.texts first ++ said, fun more => ?_⟩
    rw [List.cons_append, transcript, htake]
    dsimp only
    rw [hsaid]
    dsimp only
    rw [← String.append_assoc]

theorem transcript_text_quiet (sheet : Worksheet) (lines : List String) :
    (sheet.transcript "" lines).text = Deed.texts (sheet.takeAll lines).1 := by
  induction lines generalizing sheet with
  | nil => rfl
  | cons line lines ih =>
    rcases sheet.takeAll_cons line lines with ⟨deeds, htake, hall⟩ | ⟨deeds, next, htake, hall⟩
    · rw [transcript, htake, hall]
      exact String.empty_append
    · rw [transcript, htake, hall, Deed.texts_append, ← ih]
      dsimp only
      rw [String.empty_append]

end Worksheet

variable {σ : Type} [Sink σ]

theorem Channel.journal_carryOut_all (channel : Channel σ) (deeds : List Deed) :
    (deeds.foldl carryOut channel).journal = (Deed.events deeds).reverse ++ channel.journal := by
  induction deeds generalizing channel with
  | nil => rfl
  | cons deed deeds ih =>
    rw [List.foldl_cons, ih]
    cases deed with
    | say lines => exact congrArg _ (channel.journal_writeLines lines)
    | note event => simp [carryOut, Deed.events, Deed.event?]

theorem Calculator.journal_close (calculator : Calculator σ) (how : Ending) :
    (calculator.close how).2.reader.channel.journal =
      .ended how :: calculator.reader.channel.journal :=
  (calculator.records_close how).journal

variable [Sink.Reliable σ]

/-- From the end of a line on a session does what the lines to come bring about, and ends. -/
theorem Worksheet.goOn_deeds {settings : Settings} {sheet : Worksheet} {channel : Channel σ}
    {line : Line} {lines : List String} (hline : line.next? = none)
    (hreplies : channel.replies = lines.map .line) :
    (sheet.goOn settings channel line).1 = .ok (ending (sheet.takeAll lines).2) ∧
      (sheet.goOn settings channel line).2.reader.channel.journal =
        .ended (ending (sheet.takeAll lines).2) ::
          ((Deed.events (sheet.takeAll lines).1).reverse ++ channel.journal) := by
  have hprompted : ∀ channel : Channel σ,
      (channel.prompted settings.prompt).journal = channel.journal :=
    fun channel => Reader.journal_ask { channel, prompt := settings.prompt }
  induction lines generalizing sheet channel line with
  | nil =>
    rw [goOn_of_end hline hreplies, Calculator.journal_close]
    exact ⟨congrArg Prod.fst (Calculator.close_ok _ _), congrArg _ (hprompted channel)⟩
  | cons text lines ih =>
    obtain ⟨answered, hanswered⟩ : ∃ answered, answered =
        (channel.prompted settings.prompt).answered (.line text) (lines.map .line) := ⟨_, rfl⟩
    have hjournal : answered.journal = channel.journal := by
      rw [hanswered]
      exact hprompted channel
    have hlater : answered.replies = lines.map .line := by
      rw [hanswered]
      rfl
    have harrives := (takes_take sheet text).arrives settings answered
    have hnoted := answered.journal_carryOut_all (sheet.take text).1
    have hunread := (answered.replies_foldl_carryOut (sheet.take text).1).trans hlater
    rw [hjournal] at hnoted
    rw [goOn_of_line hline hreplies, ← hanswered]
    rcases sheet.takeAll_cons text lines with ⟨deeds, htake, hall⟩ | ⟨deeds, next, htake, hall⟩
    · rw [htake] at harrives hnoted
      obtain ⟨line', memory, operands, hresult⟩ := harrives
      rw [hresult, hall, Calculator.journal_close]
      exact ⟨congrArg Prod.fst (Calculator.close_ok _ _), congrArg _ hnoted⟩
    · rw [htake] at harrives hnoted hunread
      obtain ⟨line', hline', hresult⟩ := harrives
      rw [hresult, hall, Deed.events_append, List.reverse_append, List.append_assoc]
      dsimp only at hnoted
      rw [← hnoted]
      exact ih hline' hunread

namespace Calculator

omit [Sink σ] [Sink.Reliable σ] in
def startFrom (settings : Settings) (memory : Memory) (channel : Channel σ) : Calculator σ :=
  { start settings channel with memory }

omit [Sink.Reliable σ] in
theorem run_startFrom (settings : Settings) (memory : Memory) (channel : Channel σ) :
    (startFrom settings memory channel).run =
      ({ memory } : Worksheet).goOn settings (channel.note .started) {} :=
  converse_eq_resume _

/-- The deeds of the lines say how a session ends, what its journal tells and what it leaves in the
variables and in the target. -/
theorem run_deeds (settings : Settings) (memory : Memory) (lines : List String) (sink : σ) :
    let result := (startFrom settings memory { replies := lines.map .line, sink }).run
    let deeds := ({ memory } : Worksheet).takeAll lines
    let ending := Worksheet.ending deeds.2
    result.1 = .ok ending ∧
    result.2.reader.channel.journal.reverse =
      .started :: (Deed.events deeds.1 ++ [.ended ending]) ∧
    result.2.memory = (Deed.events deeds.1).foldl Event.apply memory := by
  intro result deeds ending
  have hgoOn : result.1 = .ok ending ∧ result.2.reader.channel.journal =
      .ended ending :: ((Deed.events deeds.1).reverse ++ [.started]) := by
    rw [show result = _ from run_startFrom settings memory _]
    exact Worksheet.goOn_deeds rfl rfl
  obtain ⟨hending, hjournal⟩ := hgoOn
  have hevents : result.2.reader.channel.journal.reverse =
      .started :: (Deed.events deeds.1 ++ [.ended ending]) := by
    simp [hjournal]
  refine ⟨hending, hevents, ?_⟩
  obtain ⟨events, hrecords⟩ : ∃ events, Records _ result.2 events := records_run _
  have hall : events = .started :: (Deed.events deeds.1 ++ [.ended ending]) := by
    rw [← hevents, hrecords.journal]
    simp [startFrom, start]
  rw [hrecords.memory, hall, List.foldl_cons, List.foldl_append]
  rfl

end Calculator

end ReversePolish
