import ReversePolish.Proofs.ErrorRecovery
import ReversePolish.Proofs.RenamedText
import Mathlib.Data.List.Forall2

/-!
# Sessions over renamed text

Variables go by any names: where nothing fails, a session over a text in which all names have been
renamed ends alike, with the same values and the same rejections of the same expressions, and leaves
every variable under its new name. All that it writes is the same but for the lines that reports
quote, and where their carets stand.
-/

namespace ReversePolish

/-- The name that an expression began with can be a variable, as long as it may be asked for. -/
def Progress.IsNamed : Progress → Prop
  | .named name | .assigned name => IsName name.toList
  | .fresh | .body => True

def Verdict.IsNamed : Verdict → Prop
  | .more progress _ => progress.IsNamed
  | .retarget name _ => IsName name.toList
  | .ignore _ | .value _ _ | .reject _ | .exit => True

theorem Progress.operate_isNamed (valueOf : String → Binary64) (operands : Operands)
    (token : Token) : (operate valueOf operands token).IsNamed := by
  have hof : ∀ result, (Verdict.ofOperands result).IsNamed := by
    intro result
    cases result <;> trivial
  obtain ⟨kind, text⟩ := token
  cases kind with
  | endMark =>
    dsimp only [operate]
    cases operands.result <;> trivial
  | identifier | assign | invalid => trivial
  | number | negate | operator => exact hof _

theorem Progress.step_isNamed (valueOf : String → Binary64) {progress : Progress}
    (operands : Operands) {token : Token} (hprogress : progress.IsNamed)
    (htoken : token.kind = .identifier → IsName token.text.toList) :
    (progress.step valueOf operands token).IsNamed := by
  have hoperate := fun operands => operate_isNamed valueOf operands token
  cases progress with
  | fresh =>
    by_cases hkind : token.kind = .identifier
    · by_cases hword : isExitWord token.text <;> simp only [step, hkind, hword, if_true]
      · trivial
      · exact htoken hkind
    · simp only [step, hkind, if_false]
      exact hoperate operands
  | named name =>
    simp only [step]
    split
    · split
      · exact hprogress
      · trivial
    · trivial
    · trivial
    · exact hoperate operands
  | assigned name =>
    simp only [step]
    split <;> exact hoperate _
  | body => exact hoperate operands

namespace Renaming

variable (r : Renaming)

def progress : Progress → Progress
  | .named name => .named (r.name name)
  | .assigned name => .assigned (r.name name)
  | .fresh => .fresh
  | .body => .body

def verdict : Verdict → Verdict
  | .more progress operands => .more (r.progress progress) operands
  | .retarget name operands => .retarget (r.name name) operands
  | .ignore operands => .ignore operands
  | .value value operands => .value value operands
  | .reject rejection => .reject rejection
  | .exit => .exit

def settings (settings : Settings) : Settings := { settings with target := r.name settings.target }

/-- The variables of one memory have their values in another under their new names. -/
structure Carries (memory memory' : Memory) : Prop where
  isName : IsName memory.target.toList
  target : memory'.target = r.name memory.target
  get : ∀ {n : String}, IsName n.toList → memory'.get (r.name n) = memory.get n

variable {r} {valueOf valueOf' : String → Binary64}

/-- A token does the same to operands under its new name. -/
theorem operate_renamed
    (hvalues : ∀ {n : String}, IsName n.toList → valueOf' (r.name n) = valueOf n)
    {token : Token} (htoken : token.kind = .identifier → IsName token.text.toList)
    (operands : Operands) :
    Progress.operate valueOf' operands (r.token token) =
      r.verdict (Progress.operate valueOf operands token) := by
  have hof : ∀ result, r.verdict (Verdict.ofOperands result) = Verdict.ofOperands result := by
    intro result
    cases result <;> rfl
  have hresult : ∀ result, r.verdict (Verdict.ofResult result) = Verdict.ofResult result := by
    intro result
    cases result <;> rfl
  obtain ⟨kind, text⟩ := token
  cases kind with
  | identifier =>
    rw [token_name]
    simp only [Progress.operate, hvalues (htoken rfl), hof]
  | number | negate | operator =>
    rw [token_of_ne r (by simp)]
    exact (hof _).symm
  | endMark =>
    rw [token_of_ne r (by simp)]
    exact (hresult _).symm
  | invalid | assign =>
    rw [token_of_ne r (by simp)]
    rfl

/-- A token does the same to an expression under the new names. -/
theorem step_renamed
    (hvalues : ∀ {n : String}, IsName n.toList → valueOf' (r.name n) = valueOf n)
    {progress : Progress} (hprogress : progress.IsNamed) {token : Token}
    (htoken : token.kind = .identifier → IsName token.text.toList) (operands : Operands) :
    (r.progress progress).step valueOf' operands (r.token token) =
      r.verdict (progress.step valueOf operands token) := by
  have hoperate := operate_renamed hvalues htoken
  cases progress with
  | fresh =>
    by_cases hkind : token.kind = .identifier
    · obtain ⟨kind, text⟩ := token
      obtain rfl : kind = .identifier := hkind
      simp only [Renaming.progress, Progress.step, token_name, if_true, r.isExitWord (htoken rfl),
        hvalues (htoken rfl)]
      split <;> rfl
    · simp only [Renaming.progress, Progress.step, token_kind, hkind, if_false]
      exact hoperate operands
  | named name =>
    obtain ⟨kind, text⟩ := token
    cases kind with
    | assign =>
      simp only [Renaming.progress, Progress.step, token_kind]
      split <;> rfl
    | operator | invalid => rfl
    | number | identifier | negate | endMark =>
      simp only [Renaming.progress, Progress.step, token_kind]
      exact hoperate operands
  | assigned name =>
    have hname : valueOf' (r.name name) = valueOf name := hvalues hprogress
    simp only [Renaming.progress, Progress.step, token_kind, hname]
    split <;> exact hoperate _
  | body => exact hoperate operands

namespace Carries

variable {memory memory' : Memory}

theorem retarget (h : r.Carries memory memory') {name : String} (hname : IsName name.toList) :
    r.Carries (memory.retarget name) (memory'.retarget (r.name name)) :=
  ⟨hname, rfl, h.get⟩

theorem store (h : r.Carries memory memory') (value : Binary64) :
    r.Carries (memory.store value) (memory'.store value) where
  isName := h.isName
  target := h.target
  get {n} hname := by
    by_cases htarget : n = memory.target
    · rw [htarget, ← h.target, Memory.get_store_self, Memory.get_store_self]
    · have hne : r.name n ≠ memory'.target := by
        rw [h.target]
        exact fun heq => htarget (r.injective hname h.isName heq)
      rw [Memory.get_store_of_ne htarget, Memory.get_store_of_ne hne, h.get hname]

theorem start {target : String} (htarget : IsName target.toList) :
    r.Carries { target } { target := r.name target } :=
  ⟨htarget, rfl, fun _ => rfl⟩

end Carries

variable (r) (lines : List String)

inductive RenamesEvent : Event → Event → Prop
  | started : RenamesEvent .started .started
  | scanned (token : Token) : RenamesEvent (.scanned token) (.scanned (r.token token))
  | retargeted {name : String} (isName : IsName name.toList) :
      RenamesEvent (.retargeted name) (.retargeted (r.name name))
  | assignIgnored : RenamesEvent .assignIgnored .assignIgnored
  | evaluated {target : String} (isName : IsName target.toList) (value : Binary64) :
      RenamesEvent (.evaluated target value) (.evaluated (r.name target) value)
  | rejected {source : String} (mem : source ∈ lines) (rejection : Rejection) (position : Nat) :
      RenamesEvent (.rejected rejection position) (.rejected rejection (r.position source position))
  | ended (how : Ending) : RenamesEvent (.ended how) (.ended how)

/-- What some lines bring about, and what the renamed lines do. A report quotes its line. -/
inductive RenamesDeed : Deed → Deed → Prop
  | note {event event' : Event} (noted : r.RenamesEvent lines event event') :
      RenamesDeed (.note event) (.note event')
  | say (texts : List String) : RenamesDeed (.say texts) (.say texts)
  | report {source : String} (mem : source ∈ lines) (rejection : Rejection) (position : Nat) :
      RenamesDeed (.say (rejection.report source position ++ ["no value"]))
        (.say (rejection.report (r.text source) (r.position source position) ++ ["no value"]))

/-- Texts that are the same but for the lines that reports quote and for the carets below them. -/
inductive RenamesText : String → String → Prop
  | same (text : String) : RenamesText text text
  | report {source : String} (mem : source ∈ lines) (rejection : Rejection) (position : Nat) :
      RenamesText (Deed.text (.say (rejection.report source position)))
        (Deed.text (.say (rejection.report (r.text source) (r.position source position))))
  | append {text text' later later' : String} (first : RenamesText text text')
      (next : RenamesText later later') : RenamesText (text ++ later) (text' ++ later')

/-- Worksheets of which one holds under the new names what the other holds under the old ones. -/
structure RenamesSheet (sheet sheet' : Worksheet) : Prop where
  memory : r.Carries sheet.memory sheet'.memory
  isNamed : sheet.progress.IsNamed
  progress : sheet'.progress = r.progress sheet.progress
  operands : sheet'.operands = sheet.operands

structure RenamesWork (work work' : List Deed × Option Worksheet) : Prop where
  deeds : List.Forall₂ (r.RenamesDeed lines) work.1 work'.1
  last : Option.Rel r.RenamesSheet work.2 work'.2

variable {r lines} {sheet sheet' : Worksheet}

theorem RenamesSheet.step (h : r.RenamesSheet sheet sheet') {token : Token}
    (htoken : token.kind = .identifier → IsName token.text.toList) :
    sheet'.progress.step sheet'.memory.get sheet'.operands (r.token token) =
        r.verdict (sheet.progress.step sheet.memory.get sheet.operands token) ∧
      (sheet.progress.step sheet.memory.get sheet.operands token).IsNamed := by
  rw [h.progress, h.operands]
  exact ⟨step_renamed h.memory.get h.isNamed htoken _,
    Progress.step_isNamed _ _ h.isNamed htoken⟩

theorem RenamesSheet.goesOn (h : r.RenamesSheet sheet sheet') {token : Token}
    (htoken : token.kind = .identifier → IsName token.text.toList) :
    r.RenamesWork lines (sheet.does token, sheet.after? token)
      (sheet'.does (r.token token), sheet'.after? (r.token token)) := by
  obtain ⟨hstep, hnamed⟩ := h.step htoken
  have hscanned : r.RenamesDeed lines (.note (.scanned token)) (.note (.scanned (r.token token))) :=
    .note (.scanned token)
  constructor <;> dsimp only [Worksheet.does, Worksheet.after?] <;> rw [hstep]
  · cases hverdict : sheet.progress.step sheet.memory.get sheet.operands token with
    | more | reject | exit => exact .cons hscanned .nil
    | retarget name operands =>
      rw [hverdict] at hnamed
      exact .cons hscanned (.cons (.note (.retargeted hnamed)) .nil)
    | ignore => exact .cons hscanned (.cons (.note .assignIgnored) .nil)
    | value value operands =>
      have hevaluated : r.RenamesDeed lines (.note (.evaluated sheet.memory.target value))
          (.note (.evaluated sheet'.memory.target value)) := by
        rw [h.memory.target]
        exact .note (.evaluated h.memory.isName value)
      exact .cons hscanned (.cons hevaluated (.cons (.say _) .nil))
  · cases hverdict : sheet.progress.step sheet.memory.get sheet.operands token with
    | more progress operands =>
      rw [hverdict] at hnamed
      exact .some ⟨h.memory, hnamed, rfl, rfl⟩
    | retarget name operands =>
      rw [hverdict] at hnamed
      exact .some ⟨h.memory.retarget hnamed, hnamed, rfl, rfl⟩
    | ignore operands => exact .some ⟨h.memory, trivial, rfl, rfl⟩
    | value value operands => exact .some ⟨h.memory.store value, trivial, rfl, rfl⟩
    | reject | exit => exact .none

theorem RenamesSheet.works {source : String} (hsource : source ∈ lines) {line line' : Line}
    {deeds : List Deed} {last : Option Worksheet} (hworks : sheet.Works line deeds last)
    (h : r.RenamesSheet sheet sheet') (hline : r.Follows source line line') :
    ∃ deeds' last', sheet'.Works line' deeds' last' ∧
      r.RenamesWork lines (deeds, last) (deeds', last') := by
  induction hworks generalizing sheet' line' with
  | blank hnext => exact ⟨[], some sheet', .blank (hline.next?_eq_none hnext), .nil, .some h⟩
  | @goesOn sheet next line later token deeds last hnext hafter _ ih =>
    obtain ⟨later', hnext', hlater⟩ := hline.next? hnext
    have htoken := (Line.isName_of_next? hnext)
    obtain ⟨hdeeds, hlast⟩ : r.RenamesWork lines _ _ := h.goesOn htoken
    dsimp only at hdeeds hlast
    rw [hafter] at hlast
    cases hlast' : sheet'.after? (r.token token) with
    | none =>
      rw [hlast'] at hlast
      nomatch hlast
    | some next' =>
      rw [hlast'] at hlast
      obtain ⟨hnextSheet⟩ := hlast
      obtain ⟨deeds', last', hworks', hwork⟩ := ih hnextSheet hlater
      exact ⟨_, last', .goesOn hnext' hlast' hworks', List.rel_append hdeeds hwork.deeds,
        hwork.last⟩
  | refused hnext hstep =>
    obtain ⟨later', hnext', hlater⟩ := hline.next? hnext
    obtain ⟨hstep', -⟩ := h.step (Line.isName_of_next? hnext)
    rw [hstep] at hstep'
    refine ⟨_, _, .refused hnext' hstep', ?_, .some ⟨h.memory, trivial, rfl, rfl⟩⟩
    rw [hlater.text.1, hlater.text.2, hlater.position]
    exact .cons (.note (.scanned _)) (.cons (.note (.rejected hsource _ _))
      (.cons (.report hsource _ _) .nil))
  | ended hnext hstep =>
    obtain ⟨later', hnext', -⟩ := hline.next? hnext
    obtain ⟨hstep', -⟩ := h.step (Line.isName_of_next? hnext)
    rw [hstep] at hstep'
    exact ⟨_, _, .ended hnext' hstep', .cons (.note (.scanned _)) .nil, .none⟩

theorem RenamesSheet.take (h : r.RenamesSheet sheet sheet') {source : String}
    (hsource : source ∈ lines) :
    r.RenamesWork lines (sheet.take source) (sheet'.take (r.text source)) := by
  obtain ⟨deeds', last', hworks', hwork⟩ :=
    h.works hsource (sheet.works_take source) (r.follows_load source)
  obtain ⟨rfl, rfl⟩ := (sheet'.works_take (r.text source)).unique hworks'
  exact hwork

theorem RenamesSheet.take_cases (h : r.RenamesSheet sheet sheet') {source : String}
    (hsource : source ∈ lines) :
    ∃ deeds deeds', List.Forall₂ (r.RenamesDeed lines) deeds deeds' ∧
      (sheet.take source = (deeds, none) ∧ sheet'.take (r.text source) = (deeds', none) ∨
        ∃ next next', r.RenamesSheet next next' ∧ sheet.take source = (deeds, some next) ∧
          sheet'.take (r.text source) = (deeds', some next')) := by
  obtain ⟨hdeeds, hlast⟩ := h.take hsource
  generalize hwork : sheet.take source = work at hdeeds hlast ⊢
  generalize hwork' : sheet'.take (r.text source) = work' at hdeeds hlast ⊢
  obtain ⟨deeds, last⟩ := work
  obtain ⟨deeds', last'⟩ := work'
  refine ⟨deeds, deeds', hdeeds, ?_⟩
  cases hlast with
  | none => exact .inl ⟨rfl, rfl⟩
  | some hnext => exact .inr ⟨_, _, hnext, rfl, rfl⟩

/-- Over renamed lines a session brings about what it does over the lines. -/
theorem RenamesSheet.takeAll (h : r.RenamesSheet sheet sheet') {sources : List String}
    (hsources : sources ⊆ lines) :
    r.RenamesWork lines (sheet.takeAll sources) (sheet'.takeAll (sources.map r.text)) := by
  induction sources generalizing sheet sheet' with
  | nil => exact ⟨.nil, .some h⟩
  | cons source sources ih =>
    obtain ⟨hsource, hlater⟩ := List.cons_subset.1 hsources
    obtain ⟨deeds, deeds', hdeeds, ⟨htake, htake'⟩ | ⟨next, next', hnext, htake, htake'⟩⟩ :=
      h.take_cases hsource
    · rw [List.map_cons, Worksheet.takeAll_of_none htake, Worksheet.takeAll_of_none htake']
      exact ⟨hdeeds, .none⟩
    · rw [List.map_cons, Worksheet.takeAll_of_some htake, Worksheet.takeAll_of_some htake']
      have hwork := ih hnext hlater
      exact ⟨List.rel_append hdeeds hwork.deeds, hwork.last⟩

theorem ending_eq {last last' : Option Worksheet} (h : Option.Rel r.RenamesSheet last last') :
    Worksheet.ending last' = Worksheet.ending last := by
  cases h <;> rfl

theorem RenamesText.texts {deeds deeds' : List Deed}
    (h : List.Forall₂ (r.RenamesDeed lines) deeds deeds') :
    r.RenamesText lines (Deed.texts deeds) (Deed.texts deeds') := by
  induction h with
  | nil => exact .same ""
  | cons hdeed _ ih =>
    refine .append ?_ ih
    cases hdeed with
    | note | say => exact .same _
    | report hsource rejection position =>
      rw [Deed.text_say_append, Deed.text_say_append]
      exact .append (.report hsource rejection position) (.same _)

theorem RenamesSheet.transcript (h : r.RenamesSheet sheet sheet') {sources : List String}
    (hsources : sources ⊆ lines) (prompt : String) :
    r.RenamesText lines (sheet.transcript prompt sources).text
      (sheet'.transcript prompt (sources.map r.text)).text := by
  induction sources generalizing sheet sheet' with
  | nil => exact .same prompt
  | cons source sources ih =>
    obtain ⟨hsource, hlater⟩ := List.cons_subset.1 hsources
    obtain ⟨deeds, deeds', hdeeds, ⟨htake, htake'⟩ | ⟨next, next', hnext, htake, htake'⟩⟩ :=
      h.take_cases hsource
    · simp only [List.map_cons, Worksheet.transcript, htake, htake']
      exact .append (.same prompt) (.texts hdeeds)
    · simp only [List.map_cons, Worksheet.transcript, htake, htake']
      exact .append (.append (.same prompt) (.texts hdeeds)) (ih hnext hlater)

theorem RenamesEvent.events {deeds deeds' : List Deed}
    (h : List.Forall₂ (r.RenamesDeed lines) deeds deeds') :
    List.Forall₂ (r.RenamesEvent lines) (Deed.events deeds) (Deed.events deeds') := by
  induction h with
  | nil => exact .nil
  | cons hdeed _ ih =>
    cases hdeed with
    | note hevent => exact .cons hevent ih
    | say | report => exact ih

theorem Carries.apply {memory memory' : Memory} {events events' : List Event}
    (h : r.Carries memory memory') (hevents : List.Forall₂ (r.RenamesEvent lines) events events') :
    r.Carries (events.foldl Event.apply memory) (events'.foldl Event.apply memory') := by
  induction hevents generalizing memory memory' with
  | nil => exact h
  | cons hevent _ ih =>
    refine ih ?_
    cases hevent with
    | retargeted hname => exact h.retarget hname
    | evaluated _ value => exact h.store value
    | started | scanned | assignIgnored | rejected | ended => exact h

end Renaming

namespace Calculator

variable {σ : Type} [Sink σ] [Sink.Reliable σ]

/-- The tokens of renamed lines are those of the lines, renamed. On a sink that never fails, a
session over them, from the renamed target, ends in the same way as the session over the lines, with
the same values and the same rejections of the same expressions, at the places that they have moved
to. The target and all variables are found under their new names, and the transcripts are the same
but for the lines and carets in reports. -/
theorem run_renamed (r : Renaming) (settings : Settings) (htarget : IsName settings.target.toList)
    (lines : List String) (sink : σ) :
    let result := (start settings { replies := lines.map .line, sink }).run
    let result' := (start (r.settings settings)
      { replies := (lines.map r.text).map .line, sink }).run
    Token.scan (joined (lines.map r.text)) = (Token.scan (joined lines)).map r.token ∧
    result'.1 = result.1 ∧
    List.Forall₂ (r.RenamesEvent lines) result.2.reader.channel.journal.reverse
      result'.2.reader.channel.journal.reverse ∧
    result'.2.memory.target = r.name result.2.memory.target ∧
    (∀ n : String, IsName n.toList → result'.2.memory.get (r.name n) = result.2.memory.get n) ∧
    ∀ written : σ → String, Sink.Keeps written → ∃ text text', r.RenamesText lines text text' ∧
      written result.2.reader.channel.sink = written sink ++ text ∧
      written result'.2.reader.channel.sink = written sink ++ text' := by
  intro result result'
  obtain ⟨hending, hjournal, hmemory⟩ := run_deeds settings { target := settings.target } lines sink
  obtain ⟨hending', hjournal', hmemory'⟩ :=
    run_deeds (r.settings settings) { target := r.name settings.target } (lines.map r.text) sink
  have hsheet : r.RenamesSheet (Worksheet.start settings) (Worksheet.start (r.settings settings)) :=
    ⟨.start htarget, trivial, rfl, rfl⟩
  obtain ⟨hdeeds, hlast⟩ := hsheet.takeAll (List.Subset.refl lines)
  have hevents := Renaming.RenamesEvent.events hdeeds
  have hsame := Renaming.ending_eq hlast
  have hmemories := (Renaming.Carries.start htarget).apply hevents
  rw [show result.1 = _ from hending, show result'.1 = _ from hending',
    show result.2.reader.channel.journal.reverse = _ from hjournal,
    show result'.2.reader.channel.journal.reverse = _ from hjournal',
    show result.2.memory = _ from hmemory, show result'.2.memory = _ from hmemory']
  refine ⟨?_, congrArg Except.ok hsame, ?_, hmemories.target, fun n hn => hmemories.get hn, ?_⟩
  · rw [← r.chars_joined, r.scan_chars]
  · have hended : r.RenamesEvent lines
        (.ended (Worksheet.ending ((Worksheet.start settings).takeAll lines).2))
        (.ended (Worksheet.ending
          ((Worksheet.start (r.settings settings)).takeAll (lines.map r.text)).2)) := by
      rw [hsame]
      exact .ended _
    exact .cons .started (List.rel_append hevents (.cons hended .nil))
  · intro written hkeeps
    have htext := (run_concludes hkeeps settings lines sink).text
    have htext' := (run_concludes hkeeps (r.settings settings) (lines.map r.text) sink).text
    simp only [String.append_assoc] at htext htext'
    exact ⟨_, _, .append (hsheet.transcript (List.Subset.refl lines) settings.prompt) (.same _),
      htext, htext'⟩

/-- With two names changed places: two values, and a rejection on the line of the second. -/
theorem run_renamed_swapped :
    let r := Renaming.swap "x" "yy" (by decide +kernel) (by decide +kernel) (by decide +kernel)
    let lines := ["x = 3 @", "2x* @ 1x++ @ x yy"]
    let result' := (start (r.settings {})
      { replies := (lines.map r.text).map .line, sink := ({} : Paper) }).run
    lines.map r.text = ["yy = 3 @", "2yy* @ 1yy++ @ yy x"] ∧ result'.1 = .ok .endOfInput ∧
      result'.2.memory.target = "yy" ∧
      result'.2.memory.get "yy" = .ofBits 0x4018000000000000 := by
  intro r lines result'
  obtain ⟨-, hending, -, htarget, hget, -⟩ :=
    run_renamed r {} (by decide +kernel) lines ({} : Paper)
  have hvalue : result'.2.memory.get (r.name "x") = _ := hget "x" (by decide +kernel)
  rw [show r.name "x" = "yy" from rfl] at hvalue
  rw [hending, htarget, hvalue]
  exact ⟨by decide +kernel, by decide +kernel, by decide +kernel, by decide +kernel⟩

end Calculator

end ReversePolish
