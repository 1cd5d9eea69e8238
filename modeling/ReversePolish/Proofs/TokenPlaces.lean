import ReversePolish.Proofs.CharacterSessions
import ReversePolish.Proofs.ReportedPlaces

/-!
# The places of tokens

The position of a reader is the end of the token that it has just delivered: the token is the part
of the line that ends there, and only blanks stand between it and the token before it on the line.
This is so because a reader either stands behind the last token of its line or has nothing left of
the line, and then finds its next token on a new one.
-/

namespace ReversePolish

variable {σ : Type}

def Channel.deliveredLines (channel : Channel σ) : List String :=
  channel.calls.filterMap Call.line?

/-- Behind a front of the line come blanks and a token, and then nothing more has been taken. The
newline is left. -/
structure Line.Ends (line : Line) (front : List Char) (token : Token) : Prop where
  taken : ∃ blanks, (∀ c ∈ blanks, isBlank c) ∧
    line.taken.reverse = front ++ (blanks ++ token.text.toList)
  newline : line.rest.getLast? = some '\n'

namespace Line

variable {line line' : Line} {token : Token}

/-- As long as a line is not used up, its text is what has been taken of it and then the rest up to
the newline. -/
theorem exists_rest (h : line.rest.getLast? = some '\n') :
    ∃ rest, line.rest = rest ++ ['\n'] ∧ line.text.toList = line.taken.reverse ++ rest := by
  obtain ⟨rest, hrest⟩ := List.getLast?_eq_some_iff.1 h
  refine ⟨rest, hrest, ?_⟩
  rw [text, String.toList_ofList, chars, hrest, ← List.append_assoc, List.dropLast_concat]

theorem ends_of_next? (hnewline : line.rest.getLast? = some '\n')
    (h : line.next? = some (token, line')) : line'.Ends line.taken.reverse token := by
  obtain ⟨hnewline', blanks, hfirst⟩ := firstToken_of_next? hnewline h []
  have hchars := chars_of_next? h
  have hsplit := hfirst.split
  rw [List.append_nil, List.append_nil] at hsplit
  rw [chars, chars, hsplit, ← List.append_assoc, ← List.append_assoc] at hchars
  refine ⟨⟨blanks, hfirst.blank, ?_⟩, hnewline'⟩
  rw [← List.append_assoc]
  exact List.append_cancel_right hchars

theorem Ends.chars {front : List Char} (h : line.Ends front token) :
    line.chars = line.text.toList ++ ['\n'] := by
  obtain ⟨rest, hrest, htext⟩ := exists_rest h.newline
  rw [htext, Line.chars, hrest, List.append_assoc]

/-- The token is the part of the text that ends at the position, and what stands between it and the
front is blank. -/
theorem Ends.place {front : List Char} (h : line.Ends front token) :
    let text := line.text.toList
    let begin := line.position - token.text.length
    token.text.length ≤ line.position ∧ line.position ≤ text.length ∧
      (text.drop begin).take token.text.length = token.text.toList ∧ front.length ≤ begin ∧
      ∀ c ∈ (text.take begin).drop front.length, isBlank c := by
  obtain ⟨blanks, hblank, htaken⟩ := h.taken
  obtain ⟨rest, -, htext⟩ := exists_rest h.newline
  have hposition : line.position = (front ++ blanks).length + token.text.length := by
    rw [position, ← List.length_reverse, htaken, ← List.append_assoc, List.length_append,
      String.length_toList]
  have hbegin : line.position - token.text.length = (front ++ blanks).length := by omega
  rw [htaken, ← List.append_assoc, List.append_assoc (front ++ blanks)] at htext
  dsimp only
  rw [hbegin, htext]
  refine ⟨by omega, ?_, ?_, by simp, ?_⟩
  · simp only [hposition, List.length_append, String.length_toList]
    omega
  · rw [List.drop_left, ← String.length_toList, List.take_left]
  · rw [List.take_left, List.drop_left]
    exact hblank

end Line

namespace Reader

variable [Sink σ] {reader reader' : Reader σ} {token : Token} {stop : Stop}

theorem deliveredLines_ask (reader : Reader σ) :
    reader.ask.2.deliveredLines = reader.channel.deliveredLines := by
  rw [ask_eq]
  split
  · rfl
  · exact andThen_holds
      (fun later : Channel σ => later.deliveredLines = reader.channel.deliveredLines) rfl
      fun _ h => h

omit [Sink σ] in
theorem deliveredLines_load (h : reader.load = (.ok (), reader')) :
    ∃ text, reader'.line = .load text ∧
      reader'.channel.deliveredLines = text :: reader.channel.deliveredLines := by
  obtain ⟨⟨replies, sink, calls, journal⟩, prompt, line⟩ := reader
  match replies with
  | .line text :: _ =>
    obtain ⟨-, rfl⟩ := Prod.mk.inj h
    exact ⟨text, rfl, rfl⟩
  | [] | .ended :: _ | .failed _ :: _ => cases h

theorem deliveredLines_fetch (h : reader.fetch = (.ok (), reader')) :
    ∃ text, reader'.line = .load text ∧
      reader'.channel.deliveredLines = text :: reader.channel.deliveredLines := by
  cases hask : reader.skipLine.ask.1 with
  | ok =>
    rw [fetch_of_ask_ok hask] at h
    obtain ⟨text, hline, hdelivered⟩ := deliveredLines_load h
    refine ⟨text, hline, hdelivered.trans (congrArg (text :: ·) ?_)⟩
    exact reader.skipLine.deliveredLines_ask
  | error message =>
    rw [fetch_of_ask_error hask] at h
    cases h

theorem exists_line_of_next (h : reader.next = (.ok token, reader')) :
    ∃ line read, line.next? = some (token, reader'.line) ∧
      reader'.channel.deliveredLines = read ++ reader.channel.deliveredLines ∧
      (line = reader.line ∧ read = [] ∨
        ∃ text earlier, line = .load text ∧ read = text :: earlier) := by
  fun_induction next reader with
  | case1 reader found line hline =>
    obtain ⟨hfound, rfl⟩ := Prod.mk.inj h
    obtain rfl := Except.ok.inj hfound
    exact ⟨reader.line, [], hline, rfl, .inl ⟨rfl, rfl⟩⟩
  | case2 reader hline fetched hfetch ih =>
    obtain ⟨text, hload, hdelivered⟩ := deliveredLines_fetch hfetch
    obtain ⟨line, read, hnext, hread, hfound⟩ := ih h
    refine ⟨line, read ++ [text], hnext, ?_, .inr ?_⟩
    · rw [hread, hdelivered, List.append_assoc, List.singleton_append]
    · rcases hfound with ⟨rfl, rfl⟩ | ⟨text', earlier, rfl, rfl⟩
      · exact ⟨text, [], hload, rfl⟩
      · exact ⟨text', earlier ++ [text], rfl, rfl⟩
  | case3 => simp at h

omit [Sink σ] in
theorem line_of_load_error (h : reader.load = (.error stop, reader')) :
    reader'.line = reader.line := by
  obtain ⟨⟨replies, sink, calls, journal⟩, prompt, line⟩ := reader
  match replies with
  | .line text :: _ => cases h
  | [] | .ended :: _ | .failed _ :: _ =>
    obtain ⟨-, rfl⟩ := Prod.mk.inj h
    rfl

theorem line_of_fetch_error (h : reader.fetch = (.error stop, reader')) :
    reader'.line = reader.line.exhaust := by
  cases hask : reader.skipLine.ask.1 with
  | ok =>
    rw [fetch_of_ask_ok hask] at h
    exact line_of_load_error h
  | error message =>
    rw [fetch_of_ask_error hask] at h
    obtain ⟨-, rfl⟩ := Prod.mk.inj h
    rfl

theorem rest_of_stop (h : reader.next = (.error stop, reader')) : reader'.line.rest = [] := by
  fun_induction next reader with
  | case1 => simp at h
  | case2 reader hline fetched hfetch ih => exact ih h
  | case3 reader hline stop' fetched hfetch =>
    obtain ⟨-, rfl⟩ := Prod.mk.inj h
    rw [line_of_fetch_error hfetch, Line.rest_exhaust]

/-- A reader that has been used in any way, together with the place behind the last token that it
has delivered from its line, or the front of the line if there is none. In between anything may have
been done with its channel. -/
inductive InUse : Reader σ → Nat → Prop
  | start (channel : Channel σ) (prompt : String) : InUse { channel, prompt } 0
  | token {reader reader' mark token} (h : InUse reader mark)
      (next : reader.next = (.ok token, reader')) : InUse reader' reader'.line.position
  | stop {reader reader' mark stop} (h : InUse reader mark)
      (next : reader.next = (.error stop, reader'))
      (same : reader'.channel.deliveredLines = reader.channel.deliveredLines) : InUse reader' mark
  | stopLater {reader reader' mark stop} (h : InUse reader mark)
      (next : reader.next = (.error stop, reader'))
      (new : reader'.channel.deliveredLines ≠ reader.channel.deliveredLines) : InUse reader' 0
  | skipLine {reader mark} (h : InUse reader mark) : InUse reader.skipLine mark
  | elsewhere {reader mark} (h : InUse reader mark) (channel : Channel σ) :
      InUse { reader with channel } mark

/-- A token is the last one taken, either behind what has been taken of the line already or on a new
line. -/
theorem ends_of_next (hline : reader.line.rest = [] ∨ reader.line.rest.getLast? = some '\n')
    (h : reader.next = (.ok token, reader')) :
    reader'.channel.deliveredLines = reader.channel.deliveredLines ∧
      reader'.line.text = reader.line.text ∧ reader.line.rest ≠ [] ∧
      reader'.line.Ends reader.line.taken.reverse token ∨
    reader'.channel.deliveredLines ≠ reader.channel.deliveredLines ∧
      reader'.channel.deliveredLines.head? = some reader'.line.text ∧
      reader'.line.Ends [] token := by
  obtain ⟨line, read, hnext, hread, ⟨rfl, rfl⟩ | ⟨text, earlier, rfl, rfl⟩⟩ := exists_line_of_next h
  · have hrest : reader.line.rest ≠ [] := by
      intro hnil
      rw [Line.next?_eq_none_iff.2 (by simp [hnil])] at hnext
      cases hnext
    refine .inl ⟨hread, ?_, hrest, Line.ends_of_next? (hline.resolve_left hrest) hnext⟩
    rw [Line.text, Line.text, Line.chars_of_next? hnext]
  · refine .inr ⟨fun hsame => ?_, ?_, Line.ends_of_next? List.getLast?_concat hnext⟩
    · have hlength := congrArg List.length (hread.symm.trans hsame)
      simp only [List.length_append, List.length_cons] at hlength
      omega
    · rw [hread, Line.text, Line.chars_of_next? hnext]
      simp [Line.load, Line.chars]

namespace InUse

variable {mark : Nat}

theorem rest (h : reader.InUse mark) :
    reader.line.rest = [] ∨
      reader.line.rest.getLast? = some '\n' ∧ reader.line.position = mark := by
  induction h with
  | start => exact .inl rfl
  | token h next ih =>
    rcases ends_of_next (ih.imp_right And.left) next with ⟨-, -, -, hends⟩ | ⟨-, -, hends⟩
    · exact .inr ⟨hends.newline, rfl⟩
    · exact .inr ⟨hends.newline, rfl⟩
  | stop h next same ih => exact .inl (rest_of_stop next)
  | stopLater h next new ih => exact .inl (rest_of_stop next)
  | skipLine h ih => exact .inl rfl
  | elsewhere h channel ih => exact ih

theorem ends_of_same (h : reader.InUse mark) (hnext : reader.next = (.ok token, reader'))
    (hsame : reader'.channel.deliveredLines = reader.channel.deliveredLines) :
    reader'.line.text = reader.line.text ∧
      ∃ start, start.length = mark ∧ reader'.line.Ends start token := by
  rcases ends_of_next (h.rest.imp_right And.left) hnext with
    ⟨-, htext, hrest, hends⟩ | ⟨hnew, -⟩
  · obtain ⟨-, hmark⟩ := h.rest.resolve_left hrest
    exact ⟨htext, _, List.length_reverse.trans hmark, hends⟩
  · exact absurd hsame hnew

theorem ends_of_new (h : reader.InUse mark) (hnext : reader.next = (.ok token, reader'))
    (hnew : reader'.channel.deliveredLines ≠ reader.channel.deliveredLines) :
    reader'.channel.deliveredLines.head? = some reader'.line.text ∧
      reader'.line.Ends [] token := by
  rcases ends_of_next (h.rest.imp_right And.left) hnext with ⟨hsame, -⟩ | ⟨-, hends⟩
  · exact absurd hsame hnew
  · exact hends

theorem exists_ends (h : reader.InUse mark) (hnext : reader.next = (.ok token, reader')) :
    ∃ start, reader'.line.Ends start token := by
  by_cases hsame : reader'.channel.deliveredLines = reader.channel.deliveredLines
  · obtain ⟨-, start, -, hends⟩ := h.ends_of_same hnext hsame
    exact ⟨start, hends⟩
  · exact ⟨[], (h.ends_of_new hnext hsame).2⟩

theorem next (h : reader.InUse mark) : ∃ mark', reader.next.2.InUse mark' := by
  cases hnext : reader.next with
  | mk answer later =>
    cases answer with
    | ok token => exact ⟨_, h.token hnext⟩
    | error stop =>
      by_cases hsame : later.channel.deliveredLines = reader.channel.deliveredLines
      · exact ⟨mark, h.stop hnext hsame⟩
      · exact ⟨0, h.stopLater hnext hsame⟩

end InUse

end Reader

namespace Calculator

variable [Sink σ]

/-- Whatever a calculator does is use of its reader and of the channel. -/
theorem stepwise_inUse : Stepwise fun earlier later : Calculator σ =>
    (∃ mark, earlier.reader.InUse mark) → ∃ mark, later.reader.InUse mark where
  refl _ h := h
  trans h h' := h' ∘ h
  start _ := fun ⟨mark, h⟩ => ⟨mark, h.elsewhere _⟩
  next _ := fun ⟨_, h⟩ => h.next
  operands _ _ h := h
  retarget _ _ := fun ⟨mark, h⟩ => ⟨mark, h.elsewhere _⟩
  ignore _ := fun ⟨mark, h⟩ => ⟨mark, h.elsewhere _⟩
  store _ _ := fun ⟨mark, h⟩ => ⟨mark, h.elsewhere _⟩
  reject calculator rejection := fun ⟨mark, h⟩ => by
    refine ⟨mark, ?_⟩
    dsimp only [reject]
    split
    · exact (h.elsewhere _).skipLine
    · exact h.elsewhere _
  say _ _ := fun ⟨mark, h⟩ => ⟨mark, h.elsewhere _⟩
  close _ _ := fun ⟨mark, h⟩ => close_holds (fun later => ∃ mark, later.reader.InUse mark)
    ⟨mark, h.elsewhere _⟩ fun _ ⟨mark, h⟩ => ⟨mark, h.elsewhere _⟩

theorem inUse_of_reached {calculator : Calculator σ} {mark : Nat}
    (h : calculator.reader.InUse mark) (operations : List Operation) :
    let reached := operations.foldl perform calculator
    ∀ later ∈ reached :: (reached.note .started).rounds, ∃ mark', later.reader.InUse mark' := by
  intro reached later hlater
  have hreached : ∃ mark, reached.reader.InUse mark :=
    stepwise_inUse.operations (fun _ ⟨mark, h⟩ => ⟨mark, h.skipLine⟩) calculator operations
      ⟨mark, h⟩
  rcases List.mem_cons.1 hlater with rfl | hround
  · exact hreached
  · exact stepwise_inUse.of_mem_rounds hround (stepwise_inUse.start reached hreached)

end Calculator

/-- When a machine delivers a token, its cursor is at the position of the reader. -/
theorem Machine.Reached.cursor_of_next [Sink σ] {machine : Machine σ} {reader : Reader σ}
    {token : Token} (h : machine.Reached) (hnext : machine.reader.next = (.ok token, reader)) :
    ∃ later, Machine.nextToken.Gives machine (.ok token) later ∧ later.reader = reader ∧
      later.cursor = reader.line.position ∧ later.chars = reader.line.chars := by
  obtain ⟨later, hgives, hsound, hlater⟩ := Machine.does_nextToken h.sound
  rw [hnext] at hgives hlater
  obtain rfl : later.reader = reader := congrArg Calculator.reader hlater
  exact ⟨later, hgives, rfl, hsound.position_line.symm, later.chars_line.symm⟩

namespace Reader

variable [Sink σ] {reader reader' : Reader σ} {token : Token} {mark : Nat}

/-- However a reader has been used, a token that it delivers is not empty and is the part of its
line that ends at its position. If no line has been delivered since the token before it, it stands
behind that one with nothing but blanks in between. Otherwise it stands on the latest line with
nothing but blanks before it. The machine that works with a cursor delivers it with its cursor at
the position. And whatever is asked of a calculator, and however far a session has come, its reader
has only been used. -/
theorem token_ends_at_position (h : reader.InUse mark)
    (hnext : reader.next = (.ok token, reader')) :
    let text := reader'.line.text.toList
    let position := reader'.line.position
    let begin := position - token.text.length
    1 ≤ token.text.length ∧ token.text.length ≤ position ∧ position ≤ text.length ∧
    (text.drop begin).take token.text.length = token.text.toList ∧
    (reader'.channel.deliveredLines = reader.channel.deliveredLines →
      reader'.line.text = reader.line.text ∧ mark < position ∧ mark ≤ begin ∧
      ∀ c ∈ (text.take begin).drop mark, isBlank c) ∧
    (reader'.channel.deliveredLines ≠ reader.channel.deliveredLines →
      reader'.channel.deliveredLines.head? = some reader'.line.text ∧
      ∀ c ∈ text.take begin, isBlank c) ∧
    (∀ machine : Machine σ, machine.Reached → machine.reader = reader →
      ∃ later, Machine.nextToken.Gives machine (.ok token) later ∧ later.reader = reader' ∧
        later.cursor = position ∧ later.chars = text ++ ['\n']) ∧
    ∀ (calculator : Calculator σ) (operations : List Calculator.Operation),
      calculator.reader = reader →
      let reached := operations.foldl Calculator.perform calculator
      ∀ later ∈ reached :: (reached.note .started).rounds, ∃ mark', later.reader.InUse mark' := by
  intro text position begin
  have hpositive : 1 ≤ token.text.length := by
    obtain ⟨line, line', hline⟩ := line_of_next hnext
    rw [← String.length_toList]
    exact List.length_pos_iff.2 (Line.shaped_of_next? hline).text_ne_nil
  obtain ⟨start, hends⟩ := h.exists_ends hnext
  obtain ⟨hlength, hposition, htoken, -⟩ := hends.place
  refine ⟨hpositive, hlength, hposition, htoken, fun hsame => ?_, fun hnew => ?_,
    fun machine hreached hmachine => ?_, fun calculator operations hcalculator => ?_⟩
  · obtain ⟨htext, start, hstart, hends⟩ := h.ends_of_same hnext hsame
    obtain ⟨-, -, -, hbegin, hblank⟩ := hends.place
    rw [hstart] at hbegin hblank
    exact ⟨htext, by omega, hbegin, hblank⟩
  · obtain ⟨hlatest, hends⟩ := h.ends_of_new hnext hnew
    obtain ⟨-, -, -, -, hblank⟩ := hends.place
    exact ⟨hlatest, hblank⟩
  · rw [← hmachine] at hnext
    obtain ⟨later, hgives, hreader, hcursor, hchars⟩ := hreached.cursor_of_next hnext
    exact ⟨later, hgives, hreader, hcursor, hchars.trans hends.chars⟩
  · rw [← hcalculator] at h
    exact Calculator.inUse_of_reached h operations

/-- The first request fails. The line that then comes breaks off in the middle and goes on. -/
theorem token_ends_at_position_past_break :
    let reader : Reader Paper :=
      { channel := { replies := [.failed "lost", .line "é\n 12.5"], sink := {} }, prompt := ">> " }
    let first := reader.next.2.next.2
    let second := first.next.2
    first.InUse 1 ∧ first.next = (.ok ⟨.number, "12.5"⟩, second) ∧ second.line.position = 7 ∧
      (second.line.text.toList.drop 3).take 4 = "12.5".toList ∧
      ∀ c ∈ (second.line.text.toList.take 3).drop 1, isBlank c := by
  intro reader first second
  have hstop : reader.next = (.error (.failed "lost"), reader.next.2) :=
    Prod.ext (by decide +kernel) rfl
  have hfirst : reader.next.2.next = (.ok ⟨.identifier, "é"⟩, first) :=
    Prod.ext (by decide +kernel) rfl
  have hused : first.InUse 1 := by
    have hend : first.line.position = 1 := by decide +kernel
    rw [← hend]
    exact .token (.stop (.start _ _) hstop (by decide +kernel)) hfirst
  have hsecond : first.next = (.ok ⟨.number, "12.5"⟩, second) := Prod.ext (by decide +kernel) rfl
  have hposition : second.line.position = 7 := by decide +kernel
  have hbegin : second.line.position - "12.5".length = 3 := by rw [hposition]; rfl
  obtain ⟨-, -, -, htoken, hsame, -⟩ := token_ends_at_position hused hsecond
  obtain ⟨-, -, -, hblank⟩ := hsame (by decide +kernel)
  rw [hbegin] at htoken hblank
  exact ⟨hused, hsecond, hposition, htoken, hblank⟩

end Reader

end ReversePolish
