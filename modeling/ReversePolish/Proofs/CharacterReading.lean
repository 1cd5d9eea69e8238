import Mathlib.Data.List.Basic
import ReversePolish.Proofs.CharacterMachine
import ReversePolish.Proofs.ChannelUse
import ReversePolish.Proofs.FirstToken

/-!
# Tokens read one character at a time

The characters of a line are all that scanning a number or a name needs: the newline at the end of
the line is no part of either, so the machine puts it back and asks for no other line. Reading a
token so is what a reader does, with the same answer and to the same place on the same line.
-/

namespace ReversePolish

open Program

namespace Line

theorem ext_chars {line line' : Line} (hchars : line.chars = line'.chars)
    (hrest : line.rest = line'.rest) : line = line' := by
  obtain ⟨taken, rest⟩ := line
  obtain ⟨taken', rest'⟩ := line'
  obtain rfl : rest = rest' := hrest
  obtain rfl : taken = taken' := List.reverse_inj.1 (List.append_cancel_right hchars)
  rfl

end Line

namespace Machine

variable {σ ε α β : Type}

def rest (machine : Machine σ) : List Char := machine.chars.drop machine.cursor

def line (machine : Machine σ) : Line :=
  ⟨(machine.chars.take machine.cursor).reverse, machine.rest⟩

def reader (machine : Machine σ) : Reader σ := ⟨machine.channel, machine.prompt, machine.line⟩

def calculator (machine : Machine σ) : Calculator σ :=
  ⟨machine.reader, machine.memory, machine.farewell, machine.operands⟩

/-- A line, if there is any, ends with its newline, and the cursor is on it. -/
structure Sound (machine : Machine σ) : Prop where
  newline : machine.chars = [] ∨ machine.chars.getLast? = some '\n'
  cursor : machine.cursor ≤ machine.chars.length

/-- The machine with so much left of its line. -/
def placed (machine : Machine σ) (rest : List Char) (canUnread : Bool) : Machine σ :=
  { machine with cursor := machine.chars.length - rest.length, canUnread }

variable {machine later : Machine σ} {rest : List Char} {c : Char}

@[simp] theorem chars_line (machine : Machine σ) : machine.line.chars = machine.chars := by
  simp [line, Line.chars, Machine.rest]

theorem rest_placed (h : rest <:+ machine.chars) (canUnread : Bool) :
    (machine.placed rest canUnread).rest = rest := by
  obtain ⟨front, hchars⟩ := h
  have hcursor : machine.chars.length - rest.length = front.length := by
    simp [← hchars]
  simp only [Machine.rest, placed, hcursor]
  rw [← hchars, List.drop_left]

theorem placed_rest (h : machine.Sound) :
    machine.placed machine.rest machine.canUnread = machine := by
  have hcursor : machine.chars.length - machine.rest.length = machine.cursor := by
    have := h.cursor
    simp only [Machine.rest, List.length_drop]
    omega
  rw [placed, hcursor]

theorem Sound.placed (h : machine.Sound) (rest : List Char) (canUnread : Bool) :
    (machine.placed rest canUnread).Sound :=
  ⟨h.newline, Nat.sub_le _ _⟩

theorem Sound.rest_suffix (machine : Machine σ) : machine.rest <:+ machine.chars :=
  List.drop_suffix _ _

theorem Sound.newline_of_suffix (h : machine.Sound) (hrest : rest <:+ machine.chars)
    (hne : rest ≠ []) : rest.getLast? = some '\n' := by
  obtain ⟨front, hchars⟩ := hrest
  rcases h.newline with hnil | hlast
  · rw [hnil] at hchars
    exact absurd (List.append_eq_nil_iff.1 hchars).2 hne
  · rwa [← hchars, List.getLast?_append_of_ne_nil _ hne] at hlast

theorem calculator_placed (h : rest <:+ machine.chars) (canUnread : Bool) (line : Line)
    (hchars : line.chars = machine.chars) (hrest : line.rest = rest) :
    (machine.placed rest canUnread).calculator =
      { machine.calculator with reader := { machine.reader with line } } := by
  have hline : (machine.placed rest canUnread).line = line := by
    refine Line.ext_chars ?_ ?_
    · rw [chars_line]
      exact hchars.symm
    · rw [hrest]
      exact rest_placed h canUnread
  rw [calculator, reader, hline]
  rfl

theorem gives_takeChar (h : c :: rest <:+ machine.chars) (canUnread : Bool) :
    takeChar.Gives (machine.placed (c :: rest) canUnread) (.ok c) (machine.placed rest true) := by
  obtain ⟨front, hchars⟩ := h
  have hlength := congrArg List.length hchars
  rw [List.length_append, List.length_cons] at hlength
  have hcursor : machine.chars.length - (c :: rest).length = front.length := by
    rw [List.length_cons]
    omega
  have hnext : machine.chars.length - rest.length = front.length + 1 := by omega
  have hget : machine.chars[front.length]? = some c := by simp [← hchars]
  refine .bind (gives_get _) ?_
  simp only [placed, hcursor, hnext, hget]
  exact .bind (gives_set _ _) (gives_pure _ _)

theorem gives_unread (h : c :: rest <:+ machine.chars) :
    unread.Gives (machine.placed rest true) (.ok ()) (machine.placed (c :: rest) false) := by
  have hlength := h.length_le
  rw [List.length_cons] at hlength
  have hcursor : machine.chars.length - rest.length - 1 =
      machine.chars.length - (c :: rest).length := by
    rw [List.length_cons]
    omega
  refine .bind (gives_get _) (.bind (gives_require rfl _ _) (.bind (gives_require ?_ _ _) ?_))
  · simp only [placed]
    omega
  · simp only [placed, hcursor]
    exact gives_set _ _

variable [Sink σ]

theorem gives_nextChar (h : c :: rest <:+ machine.chars) (canUnread : Bool) :
    nextChar.Gives (machine.placed (c :: rest) canUnread) (.ok c) (machine.placed rest true) := by
  have hlength := h.length_le
  rw [List.length_cons] at hlength
  have hinside : ¬(machine.placed (c :: rest) canUnread).chars.length ≤
      (machine.placed (c :: rest) canUnread).cursor := by
    simp only [placed, List.length_cons]
    omega
  refine .bind (gives_get _) ?_
  rw [if_neg hinside]
  exact gives_takeChar h canUnread

theorem Sound.gives_nextChar (h : machine.Sound) (hrest : machine.rest = c :: rest) :
    nextChar.Gives machine (.ok c) (machine.placed rest true) := by
  have hplace := placed_rest h
  rw [hrest] at hplace
  have hchar := Machine.gives_nextChar (hrest ▸ Sound.rest_suffix machine) machine.canUnread
  rw [hplace] at hchar
  exact hchar

/-- Characters of a kind that newlines are not of end before the line does. -/
theorem exists_dropWhile (kind : Char → Bool) (hkind : ¬kind '\n') {text : List Char}
    (h : text.getLast? = some '\n') :
    ∃ stop more, text.dropWhile kind = stop :: more ∧ (stop :: more).getLast? = some '\n' := by
  have hne : text.dropWhile kind ≠ [] := fun hnil =>
    hkind (List.dropWhile_eq_nil_iff.1 hnil _ (List.mem_of_getLast? h))
  obtain ⟨stop, more, hdrop⟩ := List.exists_cons_of_ne_nil hne
  refine ⟨stop, more, hdrop, ?_⟩
  rw [← List.takeWhile_append_dropWhile (p := kind) (l := text),
    List.getLast?_append_of_ne_nil _ hne, hdrop] at h
  exact h

/-- Collecting takes the characters of the kind and the one after them. -/
theorem gives_collect {kind : Char → Bool} {stop : Char} {more : List Char} (text : List Char)
    (hsuffix : c :: rest <:+ machine.chars) (h : (c :: rest).dropWhile kind = stop :: more) :
    (collect kind text c).Gives (machine.placed rest true)
      (.ok (text ++ (c :: rest).takeWhile kind, stop)) (machine.placed more true) := by
  induction rest generalizing c text with
  | nil =>
    rw [collect_eq]
    by_cases hkind : kind c
    · simp [hkind] at h
    · rw [if_neg hkind]
      simp only [List.dropWhile_cons, hkind, Bool.false_eq_true, if_false, List.cons.injEq] at h
      obtain ⟨rfl, rfl⟩ := h
      simpa [hkind] using gives_pure (ε := Stop) (text, c) (machine.placed [] true)
  | cons c' rest ih =>
    rw [collect_eq]
    by_cases hkind : kind c
    · rw [if_pos hkind]
      have hsuffix' : c' :: rest <:+ machine.chars := (List.suffix_cons _ _).trans hsuffix
      rw [List.dropWhile_cons_of_pos hkind] at h
      have hlater := ih (text ++ [c]) hsuffix' h
      rw [List.append_assoc] at hlater
      rw [List.takeWhile_cons_of_pos hkind]
      exact .bind (gives_nextChar hsuffix' true) hlater
    · rw [if_neg hkind]
      simp only [List.dropWhile_cons, hkind, Bool.false_eq_true, if_false, List.cons.injEq] at h
      obtain ⟨rfl, rfl⟩ := h
      simpa [hkind] using gives_pure (ε := Stop) (text, c) (machine.placed (c' :: rest) true)

theorem suffix_of_dropWhile {kind : Char → Bool} {text more : List Char} {stop : Char}
    (h : text.dropWhile kind = stop :: more) : stop :: more <:+ text :=
  h ▸ List.dropWhile_suffix kind

theorem gives_number (hsound : machine.Sound) (hsuffix : c :: rest <:+ machine.chars)
    (hdigit : c.isDigit) :
    (number c).Gives (machine.placed rest true) (.ok (Token.lexeme c rest).token)
      (machine.placed (Token.lexeme c rest).rest false) := by
  have hend := hsound.newline_of_suffix hsuffix (List.cons_ne_nil c rest)
  obtain ⟨stop, more, hwhole, hmore⟩ := exists_dropWhile Char.isDigit (by decide) hend
  have hleft := (suffix_of_dropWhile hwhole).trans hsuffix
  refine .bind (gives_collect [] hsuffix hwhole) ?_
  rw [Token.lexeme, if_pos hdigit, Token.splitNumber, hwhole]
  by_cases hpoint : stop = '.'
  · -- The newline comes after the point, so there is a character to look at.
    subst hpoint
    obtain ⟨c', more', rfl⟩ : ∃ c' more', more = c' :: more' := by
      refine List.exists_cons_of_ne_nil fun hnil => ?_
      simp [hnil] at hmore
    have hleft' := (List.suffix_cons _ _).trans hleft
    have hmore' := hsound.newline_of_suffix hleft' (List.cons_ne_nil _ _)
    obtain ⟨stop', last, hfraction, -⟩ := exists_dropWhile Char.isDigit (by decide) hmore'
    have hunread := gives_unread ((suffix_of_dropWhile hfraction).trans hleft')
    simp only [if_pos, hfraction]
    refine .bind (gives_nextChar hleft' true) (.bind (gives_collect _ hleft' hfraction) ?_)
    simp only [List.nil_append, List.append_assoc, List.singleton_append]
    exact .bind hunread (gives_pure _ _)
  · simp only [if_neg hpoint]
    refine .bind (gives_unread hleft) ?_
    split
    · next hcons => exact absurd (List.cons.inj hcons).1 hpoint
    · exact gives_pure _ _

theorem gives_name (hsound : machine.Sound) (hsuffix : c :: rest <:+ machine.chars)
    (hdigit : ¬c.isDigit) (hletter : isLetter c) :
    (name c).Gives (machine.placed rest true) (.ok (Token.lexeme c rest).token)
      (machine.placed (Token.lexeme c rest).rest false) := by
  have hend := hsound.newline_of_suffix hsuffix (List.cons_ne_nil c rest)
  have hnewline : ¬Token.isNameChar '\n' := Token.not_isNameChar_of_isBlank (by decide)
  have hkind : Token.isNameChar c := by simp [Token.isNameChar, hletter]
  obtain ⟨stop, more, hdrop, -⟩ := exists_dropWhile _ hnewline hend
  refine .bind (gives_collect [] hsuffix hdrop) ?_
  refine .bind (gives_unread ((suffix_of_dropWhile hdrop).trans hsuffix)) ?_
  rw [List.dropWhile_cons_of_pos hkind] at hdrop
  rw [Token.lexeme, if_neg hdigit, if_pos hletter, hdrop, List.takeWhile_cons_of_pos hkind]
  exact gives_pure _ _

/-- A token is scanned within its line. -/
theorem gives_tokenFrom (hsound : machine.Sound) (hsuffix : c :: rest <:+ machine.chars) :
    ∃ canUnread, (tokenFrom c).Gives (machine.placed rest true) (.ok (Token.lexeme c rest).token)
      (machine.placed (Token.lexeme c rest).rest canUnread) := by
  by_cases hdigit : c.isDigit
  · rw [tokenFrom, if_pos hdigit]
    exact ⟨false, gives_number hsound hsuffix hdigit⟩
  · rw [tokenFrom, if_neg hdigit]
    by_cases hletter : isLetter c
    · rw [if_pos hletter]
      exact ⟨false, gives_name hsound hsuffix hdigit hletter⟩
    · rw [if_neg hletter, Token.lexeme, if_neg hdigit, if_neg hletter]
      exact ⟨true, gives_pure _ _⟩

omit [Sink σ] in
/-- A program comes to the same answer as a calculator and leaves a machine that stands for the
same calculator. It does not crash, and it comes to an end. -/
def Does (program : Program (Machine σ) ε α) (machine : Machine σ)
    (result : Except ε α × Calculator σ) : Prop :=
  ∃ later, program.Gives machine result.1 later ∧ later.Sound ∧ later.calculator = result.2

namespace Does

variable {program : Program (Machine σ) ε α} {next : α → Program (Machine σ) ε β}
  {calculator : Calculator σ}

omit [Sink σ] in
theorem bind {value : α} {result : Except ε β × Calculator σ}
    (h : Does program machine (.ok value, calculator))
    (hnext : ∀ later, later.Sound → later.calculator = calculator →
      Does (next value) later result) :
    Does (program >>= next) machine result := by
  obtain ⟨later, hgives, hsound, hlater⟩ := h
  obtain ⟨last, hgives', hlast⟩ := hnext later hsound hlater
  exact ⟨last, hgives.bind hgives', hlast⟩

omit [Sink σ] in
theorem after {value : α} {later : Machine σ} {result : Except ε β × Calculator σ}
    (h : program.Gives machine (.ok value) later) (hnext : Does (next value) later result) :
    Does (program >>= next) machine result := by
  obtain ⟨last, hgives, hlast⟩ := hnext
  exact ⟨last, h.bind hgives, hlast⟩

omit [Sink σ] in
theorem stop {reason : ε} (h : Does program machine (.error reason, calculator))
    (next : α → Program (Machine σ) ε β) :
    Does (program >>= next) machine (.error reason, calculator) := by
  obtain ⟨later, hgives, hlater⟩ := h
  exact ⟨later, hgives.stop next, hlater⟩

omit [Sink σ] in
theorem of_eq {program' : Program (Machine σ) ε α} {machine' : Machine σ}
    {result : Except ε α × Calculator σ} (h : Does program' machine' result)
    (heq : program machine = program' machine') : Does program machine result := by
  obtain ⟨later, hgives, hlater⟩ := h
  exact ⟨later, heq.trans hgives, hlater⟩

end Does

omit [Sink σ] in
/-- What a request of its reader makes of a calculator. -/
def carry (calculator : Calculator σ) (result : Except ε α × Reader σ) :
    Except ε α × Calculator σ :=
  (result.1, { calculator with reader := result.2 })

omit [Sink σ] in
theorem gives_use (machine : Machine σ) (reason : String → ε)
    (operation : Channel σ → Except String Unit × Channel σ) {answer : Except String Unit}
    {channel : Channel σ} (h : operation machine.channel = (answer, channel)) :
    (use reason operation).Gives machine (answer.mapError reason) { machine with channel } := by
  rw [Gives, use, h]

theorem gives_ask (machine : Machine σ) :
    ask.Gives machine (machine.reader.ask.1.mapError .failed)
      { machine with channel := machine.reader.ask.2 } := by
  have hask := machine.reader.ask_eq
  change machine.reader.ask = if machine.prompt = "" then machine.channel.flush
    else andThen (machine.channel.write machine.prompt) (·.flush) at hask
  refine .bind (gives_get machine) ?_
  by_cases hprompt : machine.prompt = ""
  · rw [hask, if_pos hprompt, if_pos hprompt]
    exact gives_use machine Stop.failed (·.flush) rfl
  · rw [hask, if_neg hprompt, if_neg hprompt]
    cases hwrite : machine.channel.write machine.prompt with
    | mk answer channel =>
      have hgives := gives_use machine Stop.failed (·.write machine.prompt) hwrite
      cases answer with
      | error message => exact hgives.stop _
      | ok => exact hgives.bind (gives_use _ Stop.failed (·.flush) rfl)

omit [Sink σ] in
theorem does_load (h : machine.Sound) :
    Does load machine (carry machine.calculator machine.reader.load) := by
  have hread : machine.reader.channel.readLine = machine.channel.readLine := rfl
  rw [carry, Reader.load, hread]
  cases hreply : machine.channel.readLine with
  | mk reply channel =>
    cases reply with
    | line text =>
      refine ⟨{ machine with channel, chars := text.toList ++ ['\n'], cursor := 0 }, ?_, ?_, rfl⟩
      · simp only [Gives, load, hreply]
      · exact ⟨.inr (by simp), Nat.zero_le _⟩
    | ended =>
      refine ⟨{ machine with channel }, ?_, ⟨h.newline, h.cursor⟩, rfl⟩
      simp only [Gives, load, hreply]
    | failed message =>
      refine ⟨{ machine with channel }, ?_, ⟨h.newline, h.cursor⟩, rfl⟩
      simp only [Gives, load, hreply]

/-- A machine that has come to the end of its line asks for a line as its calculator does. -/
theorem does_fetch (h : machine.Sound) (hrest : machine.rest = []) :
    Does fetch machine (carry machine.calculator machine.reader.fetch) := by
  have hline : machine.line.exhaust = machine.line := Line.ext_chars (by simp) hrest.symm
  have hskip : machine.reader.skipLine = machine.reader := by
    rw [Reader.skipLine, show machine.reader.line.exhaust = machine.reader.line from hline]
  have hask := gives_ask machine
  cases hanswer : machine.reader.ask.1 with
  | error message =>
    rw [Reader.fetch_of_ask_error (hskip.symm ▸ hanswer), Reader.asked, hskip]
    rw [hanswer] at hask
    exact ⟨_, hask.stop _, ⟨h.newline, h.cursor⟩, rfl⟩
  | ok =>
    rw [Reader.fetch_of_ask_ok (hskip.symm ▸ hanswer), Reader.asked, hskip]
    rw [hanswer] at hask
    have hasked : Sound { machine with channel := machine.reader.ask.2 } := ⟨h.newline, h.cursor⟩
    obtain ⟨later, hload, hlater⟩ := does_load hasked
    exact ⟨later, hask.bind hload, hlater⟩

theorem gives_skipBlanks {first : Char} {others : List Char} (hsuffix : c :: rest <:+ machine.chars)
    (h : (c :: rest).dropWhile isBlank = first :: others) :
    (skipBlanks c).Gives (machine.placed rest true) (.ok first) (machine.placed others true) := by
  induction rest generalizing c with
  | nil =>
    rw [skipBlanks_eq]
    by_cases hblank : isBlank c
    · simp [hblank] at h
    · rw [if_neg hblank]
      simp only [List.dropWhile_cons, hblank, Bool.false_eq_true, if_false, List.cons.injEq] at h
      obtain ⟨rfl, rfl⟩ := h
      exact gives_pure c _
  | cons c' rest ih =>
    rw [skipBlanks_eq]
    by_cases hblank : isBlank c
    · rw [if_pos hblank]
      rw [List.dropWhile_cons_of_pos hblank] at h
      have hsuffix' : c' :: rest <:+ machine.chars := (List.suffix_cons _ _).trans hsuffix
      exact .bind (gives_nextChar hsuffix' true) (ih hsuffix' h)
    · rw [if_neg hblank]
      simp only [List.dropWhile_cons, hblank, Bool.false_eq_true, if_false, List.cons.injEq] at h
      obtain ⟨rfl, rfl⟩ := h
      exact gives_pure c _

/-- Past nothing but blanks the machine is at the end of its line. -/
theorem skipBlanks_of_blank (hsuffix : c :: rest <:+ machine.chars)
    (h : (c :: rest).dropWhile isBlank = []) :
    skipBlanks c (machine.placed rest true) = nextVisible (machine.placed [] true) := by
  induction rest generalizing c with
  | nil =>
    rw [skipBlanks_eq, if_pos (by simpa using h)]
    rfl
  | cons c' rest ih =>
    have hblank : isBlank c := by
      by_contra hvisible
      simp [hvisible] at h
    have hsuffix' : c' :: rest <:+ machine.chars := (List.suffix_cons _ _).trans hsuffix
    rw [skipBlanks_eq, if_pos hblank, bind_eq _ (gives_nextChar hsuffix' true)]
    exact ih hsuffix' (by simpa [hblank] using h)

theorem gives_nextVisible {first : Char} {others : List Char} (hsound : machine.Sound)
    (h : machine.rest.dropWhile isBlank = first :: others) :
    nextVisible.Gives machine (.ok first) (machine.placed others true) := by
  cases hrest : machine.rest with
  | nil => simp [hrest] at h
  | cons c rest =>
    rw [hrest] at h
    have hsuffix : c :: rest <:+ machine.chars := hrest ▸ Sound.rest_suffix machine
    exact (hsound.gives_nextChar hrest).bind (gives_skipBlanks hsuffix h)

theorem exists_nextVisible_eq (hsound : machine.Sound) (h : machine.rest.dropWhile isBlank = []) :
    ∃ passed : Machine σ, passed.Sound ∧ passed.rest = [] ∧
      passed.calculator = { machine.calculator with reader := machine.reader.skipLine } ∧
      nextVisible machine = nextVisible passed := by
  have hnil : [] <:+ machine.chars := List.nil_suffix
  have hcalculator := fun canUnread => calculator_placed hnil canUnread
    machine.line.exhaust (by simp) rfl
  cases hrest : machine.rest with
  | nil =>
    have hplace := placed_rest hsound
    rw [hrest] at hplace
    refine ⟨machine, hsound, hrest, ?_, rfl⟩
    have hsame := hcalculator machine.canUnread
    rw [hplace] at hsame
    exact hsame
  | cons c rest =>
    rw [hrest] at h
    refine ⟨machine.placed [] true, hsound.placed _ _, rest_placed hnil true, hcalculator true, ?_⟩
    have hsuffix : c :: rest <:+ machine.chars := hrest ▸ Sound.rest_suffix machine
    rw [nextVisible, bind_eq _ (hsound.gives_nextChar hrest)]
    exact skipBlanks_of_blank hsuffix h

theorem nextChar_of_fetch (hrest : machine.rest = [])
    (hfetch : fetch.Gives machine (.ok ()) later) (hlater : later.rest ≠ []) :
    nextChar machine = nextChar later := by
  have hlength : machine.chars.length ≤ machine.cursor := List.drop_eq_nil_iff.1 hrest
  have hlength' : ¬later.chars.length ≤ later.cursor := fun h => hlater (List.drop_eq_nil_iff.2 h)
  rw [nextChar, bind_eq _ (gives_get machine), bind_eq _ (gives_get later), if_pos hlength,
    if_neg hlength', bind_eq _ hfetch]

theorem nextChar_of_stop {stop : Stop} (hrest : machine.rest = [])
    (hfetch : fetch.Gives machine (.error stop) later) :
    nextChar.Gives machine (.error stop) later := by
  have hlength : machine.chars.length ≤ machine.cursor := List.drop_eq_nil_iff.1 hrest
  refine .bind (gives_get machine) ?_
  rw [if_pos hlength]
  exact hfetch.stop _

theorem rest_ne_nil_of_fetch {reader reader' : Reader σ} (hfetch : reader.fetch = (.ok (), reader'))
    (h : later.reader = reader') : later.rest ≠ [] := by
  obtain ⟨text, -, hload⟩ := Reader.fetch_ok hfetch
  rw [show later.rest = later.reader.line.rest from rfl, h, hload]
  simp [Line.load]

theorem does_nextToken_of_token {token : Token} {line : Line} (hsound : machine.Sound)
    (h : machine.line.next? = some (token, line)) :
    Does nextToken machine
      (carry machine.calculator
        (.ok token, { machine.reader with line }.note (.scanned token))) := by
  have hchars := Line.chars_of_next? h
  rw [chars_line] at hchars
  unfold Line.next? at h
  split at h
  · simp at h
  · next first others hrest =>
    obtain ⟨rfl, rfl⟩ := Prod.mk.inj (Option.some.inj h)
    have hsuffix : first :: others <:+ machine.chars :=
      (suffix_of_dropWhile hrest).trans (Sound.rest_suffix machine)
    obtain ⟨canUnread, htoken⟩ := gives_tokenFrom hsound hsuffix
    have hlexeme : (Token.lexeme first others).rest <:+ machine.chars :=
      List.IsSuffix.trans ⟨_, Token.lexeme_append first others⟩ hsuffix
    have hplaced := calculator_placed hlexeme canUnread _ hchars rfl
    have hcalculator := congrArg (·.note (.scanned (Token.lexeme first others).token)) hplaced
    exact ⟨_, .bind (gives_nextVisible hsound hrest) (.bind htoken (.bind rfl rfl)),
      ⟨hsound.newline, Nat.sub_le _ _⟩, hcalculator⟩

/-- A machine that finds no token on its line asks for another as its calculator does. -/
theorem exists_does_fetch (hsound : machine.Sound) (h : machine.line.next? = none) :
    ∃ passed, passed.rest = [] ∧ nextToken machine = nextToken passed ∧
      Does fetch passed (carry machine.calculator machine.reader.fetch) := by
  have hblank : machine.rest.dropWhile isBlank = [] :=
    List.dropWhile_eq_nil_iff.2 (Line.next?_eq_none_iff.1 h)
  obtain ⟨passed, hpassed, hrest, hcalculator, heq⟩ := exists_nextVisible_eq hsound hblank
  have hfetch := does_fetch hpassed hrest
  rw [show passed.reader = machine.reader.skipLine from congrArg (·.reader) hcalculator,
    hcalculator] at hfetch
  exact ⟨passed, hrest, bind_congr heq _, hfetch⟩

/-- The machine finds the next token where its calculator does. -/
theorem does_nextToken (hsound : machine.Sound) :
    Does nextToken machine (carry machine.calculator machine.reader.next) := by
  generalize hreader : machine.reader = reader
  fun_induction Reader.next reader generalizing machine with
  | case1 reader token line hline =>
    subst hreader
    exact does_nextToken_of_token hsound hline
  | case2 reader hline reader' hfetch ih =>
    subst hreader
    obtain ⟨passed, hrest, heq, later, hgives, hlater, hcalculator⟩ :=
      exists_does_fetch hsound hline
    rw [hfetch] at hgives hcalculator
    have hnew := rest_ne_nil_of_fetch hfetch (congrArg (·.reader) hcalculator)
    have hnext : nextToken machine = nextToken later :=
      heq.trans (bind_congr (bind_congr (nextChar_of_fetch hrest hgives hnew) _) _)
    have hlater' := ih hlater (congrArg (·.reader) hcalculator)
    rw [hcalculator] at hlater'
    exact hlater'.of_eq hnext
  | case3 reader hline stop reader' hfetch =>
    subst hreader
    obtain ⟨passed, hrest, heq, later, hgives, hlater⟩ := exists_does_fetch hsound hline
    rw [hfetch] at hgives hlater
    have hchar := nextChar_of_stop hrest hgives
    exact ⟨later, heq.trans ((hchar.stop skipBlanks).stop _), hlater⟩

end Machine

end ReversePolish
