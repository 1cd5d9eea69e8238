import ReversePolish.Proofs.CharacterReading

/-!
# Sessions read one character at a time

Since reading a token keeps the line and the cursor in order, so do reporting a rejection,
evaluating and a whole session, and they come to what the calculator comes to. So nothing that is
asked of a machine makes it crash, in any order and whatever the channel does.
-/

namespace ReversePolish

open Program

namespace Machine

variable {σ ε : Type} {machine later : Machine σ}

/-- The cursor counts the characters taken. -/
theorem Sound.position_line (h : machine.Sound) :
    machine.reader.line.position = machine.cursor := by
  change (machine.chars.take machine.cursor).reverse.length = _
  rw [List.length_reverse, List.length_take, Nat.min_eq_left h.cursor]

theorem gives_currentLine (machine : Machine σ) :
    (currentLine : Program (Machine σ) ε String).Gives machine (.ok machine.reader.line.text)
      machine := by
  have hchars : machine.reader.line.chars = machine.chars := chars_line machine
  refine .bind (gives_get machine) (.bind (gives_require (Nat.sub_le _ _) _ _) ?_)
  rw [Line.text, hchars, List.dropLast_eq_take]
  exact gives_pure _ _

theorem does_skipLine (h : machine.Sound) :
    Does (skipLine : Program (Machine σ) ε Unit) machine
      (.ok (), { machine.calculator with reader := machine.reader.skipLine }) := by
  refine ⟨_, gives_modify _ machine, ⟨h.newline, Nat.le_refl _⟩, ?_⟩
  exact calculator_placed List.nil_suffix false machine.line.exhaust (by simp) rfl

variable [Sink σ]

theorem does_reject (hsound : machine.Sound) (rejection : Rejection) :
    Does (reject rejection) machine (machine.calculator.reject rejection) := by
  have hposition := hsound.position_line
  let noted : Machine σ :=
    { machine with
      channel := machine.channel.note (.rejected rejection machine.cursor)
      operands := machine.operands.clear }
  refine .after (gives_modify _ machine) (.after (gives_get _) (.after (gives_modify _ _) ?_))
  refine .after (gives_currentLine noted) ?_
  have hreader : machine.calculator.reader.note
      (.rejected rejection machine.calculator.reader.line.position) = noted.reader := by
    rw [show machine.calculator.reader.line.position = machine.cursor from hposition]
    rfl
  rw [Calculator.reject, hreader, show noted.reader.line.position = machine.cursor from hposition]
  cases hreport : noted.reader.channel.writeLines
    (rejection.report noted.reader.line.text machine.cursor) with
  | mk answer channel =>
    have hgives := gives_use noted Stop.failed (·.writeLines _) hreport
    have hreported : Sound { noted with channel } := ⟨hsound.newline, hsound.cursor⟩
    cases answer with
    | error message => exact ⟨_, hgives.stop _, hreported, rfl⟩
    | ok =>
      obtain ⟨last, hskip, hlast⟩ := does_skipLine hreported
      exact ⟨last, hgives.bind (hskip.bind (gives_pure _ _)), hlast⟩

/-- An evaluation goes on as the verdict on the next token says, with the memory and the operands
that there were before it. -/
theorem does_advance_of_next (hsound : machine.Sound) {progress : Progress} {token : Token}
    {reader : Reader σ} {verdict : Verdict}
    (hnext : machine.calculator.reader.next = (.ok token, reader))
    (hstep : progress.step machine.calculator.memory.get machine.calculator.operands token =
      verdict) :
    ∃ later : Machine σ, later.Sound ∧ later.calculator = { machine.calculator with reader } ∧
      ∀ result, Does (heed later verdict >>= Sum.elim pure advance) later result →
        Does (advance progress) machine result := by
  have htoken := does_nextToken hsound
  rw [show machine.reader.next = _ from hnext] at htoken
  obtain ⟨later, hgives, hlater, hcalculator⟩ := htoken
  have hmemory : later.memory = machine.calculator.memory :=
    congrArg Calculator.memory hcalculator
  have hoperands : later.operands = machine.calculator.operands :=
    congrArg Calculator.operands hcalculator
  refine ⟨later, hlater, hcalculator, fun result hdoes => hdoes.of_eq ?_⟩
  rw [advance, loop_eq, bind_assoc, bind_eq _ hgives, bind_assoc, bind_eq _ (gives_get later),
    hmemory, hoperands, hstep]

theorem does_advance (hsound : machine.Sound) (progress : Progress) :
    Does (advance progress) machine (machine.calculator.advance progress) := by
  generalize hcalculator : machine.calculator = calculator
  fun_induction Calculator.advance calculator progress generalizing machine with
  | case1 calculator progress stop reader hnext =>
    subst hcalculator
    have htoken := does_nextToken hsound
    rw [show machine.reader.next = _ from hnext] at htoken
    rw [advance, loop_eq]
    exact (htoken.stop _).stop _
  | case2 calculator progress token reader hnext progress' operands hstep ih =>
    subst hcalculator
    obtain ⟨later, hlater, hcalculator, hgo⟩ := does_advance_of_next hsound hnext hstep
    refine hgo _ (.after (.bind (gives_set _ _) (gives_pure _ _)) ?_)
    have hset := congrArg (fun found : Calculator σ => { found with operands }) hcalculator
    exact ih ⟨hlater.newline, hlater.cursor⟩ hset
  | case3 calculator progress token reader hnext name operands hstep ih =>
    subst hcalculator
    obtain ⟨later, hlater, hcalculator, hgo⟩ := does_advance_of_next hsound hnext hstep
    refine hgo _ (.after (.bind (gives_set _ _) (.bind (gives_modify _ _) (gives_pure _ _))) ?_)
    have hset := congrArg (fun found : Calculator σ => { found with operands }) hcalculator
    exact ih ⟨hlater.newline, hlater.cursor⟩ (congrArg (·.retarget name) hset)
  | case4 calculator progress token reader hnext operands hstep ih =>
    subst hcalculator
    obtain ⟨later, hlater, hcalculator, hgo⟩ := does_advance_of_next hsound hnext hstep
    refine hgo _ (.after (.bind (gives_set _ _) (.bind (gives_modify _ _) (gives_pure _ _))) ?_)
    have hset := congrArg (fun found : Calculator σ => { found with operands }) hcalculator
    exact ih ⟨hlater.newline, hlater.cursor⟩ (congrArg (·.note .assignIgnored) hset)
  | case5 calculator progress token reader hnext value operands hstep =>
    subst hcalculator
    obtain ⟨later, hlater, hcalculator, hgo⟩ := does_advance_of_next hsound hnext hstep
    refine hgo _ (.after (.bind (gives_set _ _) (.bind (gives_modify _ _) (gives_pure _ _))) ?_)
    have hset := congrArg (fun found : Calculator σ => { found with operands }) hcalculator
    exact ⟨_, gives_pure _ _, ⟨hlater.newline, hlater.cursor⟩, congrArg (·.store value) hset⟩
  | case6 calculator progress token reader hnext rejection hstep =>
    subst hcalculator
    obtain ⟨later, hlater, hcalculator, hgo⟩ := does_advance_of_next hsound hnext hstep
    have hsame : (heed later (.reject rejection) >>= Sum.elim pure advance) = reject rejection :=
      (bind_assoc _ _ _).trans (bind_pure _)
    refine hgo _ ?_
    rw [hsame, ← hcalculator]
    exact does_reject hlater rejection
  | case7 calculator progress token reader hnext hstep =>
    subst hcalculator
    obtain ⟨later, hlater, hcalculator, hgo⟩ := does_advance_of_next hsound hnext hstep
    exact hgo _ ⟨later, (gives_throw _ _).stop _, hlater, hcalculator⟩

theorem does_evaluate (hsound : machine.Sound) :
    Does evaluate machine machine.calculator.evaluate := by
  have hcleared : Sound { machine with operands := machine.operands.clear } :=
    ⟨hsound.newline, hsound.cursor⟩
  exact .after (gives_modify _ machine) (does_advance hcleared .fresh)

omit [Sink σ] in
theorem does_use (hsound : machine.Sound)
    (operation : Channel σ → Except String Unit × Channel σ) :
    Does (use id operation) machine ((operation machine.channel).1,
      { machine.calculator with
        reader := { machine.reader with channel := (operation machine.channel).2 } }) := by
  cases hresult : operation machine.channel with
  | mk answer channel =>
    have hgives := gives_use machine id operation hresult
    refine ⟨{ machine with channel }, ?_, ⟨hsound.newline, hsound.cursor⟩, rfl⟩
    cases answer with
    | ok | error message => exact hgives

theorem does_say (hsound : machine.Sound) (text : String) :
    Does (use id (·.writeLine text)) machine (machine.calculator.say text) :=
  does_use hsound (·.writeLine text)

theorem does_flush (hsound : machine.Sound) :
    Does (use id (·.flush)) machine machine.calculator.flush :=
  does_use hsound (·.flush)

theorem does_close (hsound : machine.Sound) (how : Ending) :
    Does (close how) machine (machine.calculator.close how) := by
  let noted : Machine σ := { machine with channel := machine.channel.note (.ended how) }
  have hnoted : noted.Sound := ⟨hsound.newline, hsound.cursor⟩
  have hsay := does_say hnoted ("\n" ++ machine.farewell)
  refine .after (gives_modify _ machine) (.after (gives_get noted) ?_)
  rw [Calculator.close_eq]
  change Does _ noted (andThen (noted.calculator.say ("\n" ++ machine.farewell)) _)
  generalize noted.calculator.say ("\n" ++ machine.farewell) = result at hsay ⊢
  obtain ⟨answer, said⟩ := result
  cases answer with
  | error message => exact hsay.stop _
  | ok =>
    refine hsay.bind fun later hlater hcalculator => ?_
    have hflush := does_flush hlater
    rw [hcalculator] at hflush
    dsimp only [andThen]
    generalize said.flush = result at hflush ⊢
    obtain ⟨answer, flushed⟩ := result
    cases answer with
    | error message => exact hflush.stop _
    | ok =>
      exact hflush.bind fun last hlast hflushed => ⟨last, gives_pure how last, hlast, hflushed⟩

theorem does_outcome {result : Except Stop Outcome} {evaluated : Calculator σ}
    (hsound : machine.Sound) (h : machine.calculator.evaluate = (result, evaluated)) :
    Does (evaluate.outcome : Program (Machine σ) String _) machine (.ok result, evaluated) := by
  obtain ⟨later, hgives, hlater⟩ := does_evaluate hsound
  rw [h] at hgives hlater
  exact ⟨later, hgives.outcome, hlater⟩

theorem does_converse (hsound : machine.Sound) :
    Does converse machine machine.calculator.converse := by
  generalize hcalculator : machine.calculator = calculator
  fun_induction Calculator.converse calculator generalizing machine with
  | case1 calculator how evaluated hevaluate =>
    subst hcalculator
    rw [converse_eq]
    refine (does_outcome hsound hevaluate).bind fun later hlater hcalculator => ?_
    exact hcalculator ▸ does_close hlater how
  | case2 calculator message evaluated hevaluate =>
    subst hcalculator
    rw [converse_eq]
    refine (does_outcome hsound hevaluate).bind fun later hlater hcalculator => ?_
    exact ⟨later, gives_throw _ _, hlater, hcalculator⟩
  | case3 calculator outcome evaluated hevaluate message said hsay =>
    subst hcalculator
    rw [converse_eq]
    refine (does_outcome hsound hevaluate).bind fun later hlater hcalculator => ?_
    have hline := does_say hlater outcome.line
    rw [hcalculator, hsay] at hline
    exact hline.stop _
  | case4 calculator outcome evaluated hevaluate said hsay ih =>
    subst hcalculator
    rw [converse_eq]
    refine (does_outcome hsound hevaluate).bind fun later hlater hcalculator => ?_
    have hline := does_say hlater outcome.line
    rw [hcalculator, hsay] at hline
    exact hline.bind fun last hlast hsaid => ih hlast hsaid

theorem does_run (hsound : machine.Sound) : Does run machine machine.calculator.run := by
  refine .after (gives_modify _ machine) ?_
  exact does_converse ⟨hsound.newline, hsound.cursor⟩

/-- The machines that come about when anything is asked, in any order and within anything that is
asked. Lines are loaded, characters taken and put back, and lines given up; nothing is supposed of
the channel and the memory, which may be any at any time. -/
inductive Reached : Machine σ → Prop
  | start (settings : Settings) (channel : Channel σ) : Reached (start settings channel)
  | load {before after : Machine σ} {answer} (h : Reached before)
      (gives : load.Gives before answer after) : Reached after
  | takeChar {before after : Machine σ} {answer} (h : Reached before)
      (gives : takeChar.Gives before answer after) : Reached after
  | unread {before after : Machine σ} {answer} (h : Reached before)
      (gives : unread.Gives before answer after) : Reached after
  | skipLine {before after : Machine σ} {answer : Except Stop Unit} (h : Reached before)
      (gives : skipLine.Gives before answer after) : Reached after
  | elsewhere {before after : Machine σ} (h : Reached before) (chars : after.chars = before.chars)
      (cursor : after.cursor = before.cursor) (canUnread : after.canUnread = before.canUnread) :
      Reached after
  | nextToken {before after : Machine σ} {answer} (h : Reached before)
      (gives : nextToken.Gives before answer after) : Reached after
  | evaluate {before after : Machine σ} {answer} (h : Reached before)
      (gives : evaluate.Gives before answer after) : Reached after
  | run {before after : Machine σ} {answer} (h : Reached before)
      (gives : run.Gives before answer after) : Reached after

omit [Sink σ] in
theorem Does.gives {α : Type} {program : Program (Machine σ) ε α}
    {result : Except ε α × Calculator σ} (h : Does program machine result) :
    ∃ answer later, program.Gives machine answer later :=
  h.elim fun later hlater => ⟨result.1, later, hlater.1⟩

omit [Sink σ] in
theorem Does.sound {α : Type} {program : Program (Machine σ) ε α} {answer : Except ε α}
    {result : Except ε α × Calculator σ} (h : Does program machine result)
    (hgives : program.Gives machine answer later) : later.Sound := by
  obtain ⟨last, hlast, hsound, -⟩ := h
  obtain ⟨-, rfl⟩ := hlast.unique hgives
  exact hsound

omit [Sink σ] in
theorem Sound.takeChar {answer : Except Stop Char} (h : machine.Sound)
    (hgives : takeChar.Gives machine answer later) : later.Sound := by
  rw [Gives, Machine.takeChar, bind_eq _ (gives_get machine)] at hgives
  cases hchar : machine.chars[machine.cursor]? with
  | none =>
    rw [hchar] at hgives
    cases hgives
  | some c =>
    rw [hchar] at hgives
    obtain ⟨-, rfl⟩ := Gives.unique hgives (.bind (gives_set machine _) (gives_pure c _))
    exact ⟨h.newline, (List.getElem?_eq_some_iff.1 hchar).1⟩

omit [Sink σ] in
theorem Sound.unread {answer : Except Stop Unit} (h : machine.Sound)
    (hgives : unread.Gives machine answer later) : later.Sound := by
  rw [Gives, Machine.unread, bind_eq _ (gives_get machine)] at hgives
  by_cases hflag : machine.canUnread
  · by_cases hcursor : 0 < machine.cursor
    · rw [bind_eq _ (gives_require hflag _ _), bind_eq _ (gives_require hcursor _ _)] at hgives
      obtain ⟨-, rfl⟩ := Gives.unique hgives (gives_set machine _)
      exact ⟨h.newline, (Nat.sub_le _ _).trans h.cursor⟩
    · rw [bind_eq _ (gives_require hflag _ _), crashes_require hcursor] at hgives
      cases hgives
  · rw [crashes_require hflag] at hgives
    cases hgives

theorem Reached.sound (h : machine.Reached) : machine.Sound := by
  induction h with
  | start settings channel => exact ⟨.inl rfl, Nat.le_refl _⟩
  | load h gives ih => exact (does_load ih).sound gives
  | takeChar h gives ih => exact ih.takeChar gives
  | unread h gives ih => exact ih.unread gives
  | skipLine h gives ih => exact (does_skipLine ih).sound gives
  | elsewhere h chars cursor canUnread ih =>
    refine ⟨?_, ?_⟩
    · rw [chars]
      exact ih.newline
    · rw [chars, cursor]
      exact ih.cursor
  | nextToken h gives ih => exact (does_nextToken ih).sound gives
  | evaluate h gives ih => exact (does_evaluate ih).sound gives
  | run h gives ih => exact (does_run ih).sound gives

theorem Sound.exists_nextChar (h : machine.Sound) :
    (∃ loaded : Machine σ, loaded.Sound ∧ loaded.rest ≠ [] ∧ nextChar machine = nextChar loaded) ∨
      ∃ stop later, nextChar.Gives machine (.error stop) later := by
  cases hrest : machine.rest with
  | cons c rest => exact .inl ⟨machine, h, by simp [hrest], rfl⟩
  | nil =>
    obtain ⟨later, hgives, hlater, hcalculator⟩ := does_fetch h hrest
    cases hfetch : machine.reader.fetch with
    | mk answer reader =>
      rw [hfetch] at hgives hcalculator
      cases answer with
      | ok =>
        have hnew := rest_ne_nil_of_fetch hfetch (congrArg (·.reader) hcalculator)
        exact .inl ⟨later, hlater, hnew, nextChar_of_fetch hrest hgives hnew⟩
      | error stop => exact .inr ⟨stop, later, nextChar_of_stop hrest hgives⟩

theorem Sound.exists_gives_nextChar (h : machine.Sound) :
    ∃ answer later, nextChar.Gives machine answer later := by
  rcases h.exists_nextChar with ⟨loaded, hloaded, hrest, heq⟩ | ⟨stop, later, hgives⟩
  · obtain ⟨c, rest, hrest⟩ := List.exists_cons_of_ne_nil hrest
    exact ⟨_, _, heq.trans (hloaded.gives_nextChar hrest)⟩
  · exact ⟨_, _, hgives⟩

/-- A character that has been taken stands on the line, before the cursor. -/
theorem Sound.of_nextChar {c : Char} (h : machine.Sound)
    (hgives : nextChar.Gives machine (.ok c) later) :
    later.Sound ∧ later.canUnread ∧ c :: later.rest <:+ later.chars ∧
      later.placed later.rest true = later := by
  rcases h.exists_nextChar with ⟨loaded, hloaded, hrest, heq⟩ | ⟨stop, later', hstop⟩
  · obtain ⟨c', rest, hrest⟩ := List.exists_cons_of_ne_nil hrest
    have hsuffix : c' :: rest <:+ loaded.chars := hrest ▸ Sound.rest_suffix loaded
    obtain ⟨hc, rfl⟩ := hgives.unique (heq.trans (hloaded.gives_nextChar hrest))
    obtain rfl := Except.ok.inj hc
    have hplaced := rest_placed ((List.suffix_cons _ _).trans hsuffix) true
    have hsound := hloaded.placed rest true
    refine ⟨hsound, rfl, ?_, placed_rest hsound⟩
    rw [hplaced]
    exact hsuffix
  · cases (hgives.unique hstop).1

omit [Sink σ] in
/-- From one machine to a later one no line is read. The characters from the one that had just been
taken up to the later cursor are those of a text, and more are left on the line. -/
structure ScansTo (begun later : Machine σ) (text : List Char) : Prop where
  channel : later.channel = begun.channel
  chars : later.chars = begun.chars
  text : begun.chars.drop (begun.cursor - 1) = text ++ later.rest
  rest : later.rest ≠ []

omit [Sink σ] in
theorem Sound.drop_of_suffix {c : Char} (h : machine.Sound)
    (hsuffix : c :: machine.rest <:+ machine.chars) :
    1 ≤ machine.cursor ∧ machine.chars.drop (machine.cursor - 1) = c :: machine.rest := by
  obtain ⟨front, hfront⟩ := hsuffix
  have hcursor : machine.cursor = front.length + 1 := by
    have hlength := congrArg List.length hfront
    have hinside := h.cursor
    simp only [Machine.rest, List.length_append, List.length_cons, List.length_drop] at hlength
    omega
  refine ⟨by omega, ?_⟩
  rw [hcursor, Nat.add_sub_cancel, ← hfront, List.drop_left]

omit [Sink σ] in
/-- The newline at the end of the line is left, since it is not visible. -/
theorem scansTo_lexeme {c : Char} (h : machine.Sound)
    (hsuffix : c :: machine.rest <:+ machine.chars)
    (hvisible : ∀ c' ∈ (Token.lexeme c machine.rest).chars, ¬isBlank c') :
    ScansTo machine (machine.placed (Token.lexeme c machine.rest).rest false)
      (Token.lexeme c machine.rest).chars := by
  have happend := Token.lexeme_append c machine.rest
  have hleft : (Token.lexeme c machine.rest).rest <:+ machine.chars :=
    List.IsSuffix.trans ⟨_, happend⟩ hsuffix
  have hlast := h.newline_of_suffix hsuffix (List.cons_ne_nil c machine.rest)
  refine ⟨rfl, rfl, ?_, ?_⟩
  · rw [rest_placed hleft, happend]
    exact (h.drop_of_suffix hsuffix).2
  · rw [rest_placed hleft]
    intro hnil
    rw [hnil, List.append_nil] at happend
    rw [← happend] at hlast
    exact hvisible _ (List.mem_of_getLast? hlast) (by decide)

/-- Whatever has been asked and is being asked of a machine, in any order, with any lines, on any
channel and any sink, does not crash and comes to an end. The line is empty or ends with its
newline, and the cursor is on it. After a character has been taken it can be put back, and a number
or a name that it begins is scanned to its end on the line, so that the machine asks for no line and
does not fail. Requests for tokens, evaluations and sessions come to what the calculator that the
machine stands for comes to, and so do the line and the position that reports quote. -/
theorem never_crashes (h : machine.Reached) :
    (machine.chars = [] ∨ machine.chars.getLast? = some '\n') ∧
    machine.cursor ≤ machine.chars.length ∧
    (∃ answer later, nextChar.Gives machine answer later) ∧
    (∀ first begun, nextChar.Gives machine (.ok first) begun →
      begun.canUnread ∧ 1 ≤ begun.cursor ∧ begun.chars[begun.cursor - 1]? = some first ∧
      (first.isDigit → ∃ text later,
        (number first).Gives begun (.ok ⟨.number, String.ofList text⟩) later ∧
        begun.ScansTo later text ∧ LongestFront IsNumeral (first :: begun.rest) text) ∧
      (¬first.isDigit → isLetter first → ∃ text later,
        (name first).Gives begun (.ok ⟨.identifier, String.ofList text⟩) later ∧
        begun.ScansTo later text ∧ LongestFront IsName (first :: begun.rest) text)) ∧
    Does nextToken machine (carry machine.calculator machine.reader.next) ∧
    Does evaluate machine machine.calculator.evaluate ∧
    Does run machine machine.calculator.run ∧
    Does (skipLine : Program _ Stop _) machine
      (.ok (), { machine.calculator with reader := machine.reader.skipLine }) ∧
    (currentLine : Program _ Stop _).Gives machine (.ok machine.reader.line.text) machine ∧
    machine.cursor = machine.reader.line.position := by
  have hsound := h.sound
  refine ⟨hsound.newline, hsound.cursor, hsound.exists_gives_nextChar, fun first begun hgives => ?_,
    does_nextToken hsound, does_evaluate hsound, does_run hsound, does_skipLine hsound,
    gives_currentLine machine, hsound.position_line.symm⟩
  obtain ⟨hbegun, hflag, hsuffix, hplaced⟩ := hsound.of_nextChar hgives
  obtain ⟨hcursor, hdrop⟩ := hbegun.drop_of_suffix hsuffix
  refine ⟨hflag, hcursor, ?_, fun hdigit => ?_, fun hdigit hletter => ?_⟩
  · rw [← List.head?_drop, hdrop, List.head?_cons]
  · have hnumber := gives_number hbegun hsuffix hdigit
    have hmunch := Token.longestFront_splitNumber hdigit begun.rest
    have hlexeme : Token.lexeme first begun.rest = ⟨.number, _, _⟩ := if_pos hdigit
    have hscans := scansTo_lexeme hbegun hsuffix
    rw [hplaced, hlexeme] at hnumber
    rw [hlexeme] at hscans
    exact ⟨_, _, hnumber, hscans hmunch.form.visible, hmunch⟩
  · have hname := gives_name hbegun hsuffix hdigit hletter
    have hmunch := Token.longestFront_name hletter begun.rest
    have hlexeme : Token.lexeme first begun.rest = ⟨.identifier, _, _⟩ :=
      (if_neg hdigit).trans (if_pos hletter)
    have hscans := scansTo_lexeme hbegun hsuffix
    rw [hplaced, hlexeme] at hname
    rw [hlexeme] at hscans
    exact ⟨_, _, hname, hscans hmunch.form.visible, hmunch⟩

/-- A reply may hold newlines. They separate tokens, and the last one is the end of the line. -/
theorem never_crashes_after_digit :
    let start : Machine Paper := .start {} { replies := [.line "7.5\n\r8 +"], sink := {} }
    let loaded := { start with
      channel := start.channel.readLine.2
      chars := ['7', '.', '5', '\n', '\r', '8', ' ', '+', '\n'] }
    let begun := { loaded with cursor := 1, canUnread := true }
    loaded.Reached ∧ nextChar.Gives loaded (.ok '7') begun ∧ '7'.isDigit ∧
      ∃ text later, (number '7').Gives begun (.ok ⟨.number, String.ofList text⟩) later ∧
        begun.ScansTo later text ∧ LongestFront IsNumeral ('7' :: begun.rest) text := by
  intro start loaded begun
  have hload : load.Gives start (.ok ()) loaded := rfl
  have hloaded : loaded.Reached := .load (.start _ _) hload
  exact ⟨hloaded, rfl, rfl, ((never_crashes hloaded).2.2.2.1 '7' begun rfl).2.2.2.1 rfl⟩

end Machine

end ReversePolish
