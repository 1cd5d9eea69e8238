import ReversePolish.Proofs.CharacterSessions
import ReversePolish.Proofs.FailingRequests
import ReversePolish.Proofs.TokenStream

/-!
# How long a session can be

A token takes a visible character, and nothing brings any back: what fails, ends or is given up only
loses some. So every request for a token, every evaluation and every session returns, and a session
evaluates at most once more than there are visible characters left.
-/

namespace ReversePolish

/-- The number of characters that are not blank. -/
def visibleCount (text : List Char) : Nat := text.countP fun c => !isBlank c

@[simp] theorem visibleCount_append (text text' : List Char) :
    visibleCount (text ++ text') = visibleCount text + visibleCount text' :=
  List.countP_append

theorem visibleCount_cons_of_visible {c : Char} (h : ¬isBlank c) (text : List Char) :
    visibleCount (c :: text) = visibleCount text + 1 :=
  List.countP_cons_of_pos (by simpa using h)

theorem visibleCount_le_of_suffix {text text' : List Char} (h : text <:+ text') :
    visibleCount text ≤ visibleCount text' :=
  h.sublist.countP_le

theorem visibleCount_lexeme {first : Char} (h : ¬isBlank first) (others : List Char) :
    visibleCount (Token.lexeme first others).rest < visibleCount (first :: others) := by
  have happend := Token.lexeme_append first others
  have hcount := congrArg visibleCount happend
  obtain ⟨c, chars, hchars⟩ := List.exists_cons_of_ne_nil (Token.lexeme_chars_ne_nil first others)
  rw [hchars] at happend
  obtain rfl : c = first := (List.cons.inj happend).1
  rw [visibleCount_append, hchars, visibleCount_cons_of_visible h] at hcount
  omega

theorem Line.visibleCount_of_next? {line line' : Line} {token : Token}
    (h : line.next? = some (token, line')) : visibleCount line'.rest < visibleCount line.rest := by
  unfold next? at h
  split at h
  · simp at h
  · next first others hrest =>
    obtain ⟨-, rfl⟩ := Prod.mk.inj (Option.some.inj h)
    have hvisible : ¬isBlank first := by
      have hnot := List.head?_dropWhile_not isBlank line.rest
      rw [hrest] at hnot
      simpa using hnot
    have hle := visibleCount_le_of_suffix (List.dropWhile_suffix (l := line.rest) isBlank)
    rw [hrest] at hle
    exact Nat.lt_of_lt_of_le (visibleCount_lexeme hvisible others) hle

theorem Unread.visibleCount_charsOf_le {lines lines' : List String} (h : lines <:+ lines') :
    visibleCount (charsOf lines) ≤ visibleCount (charsOf lines') := by
  obtain ⟨earlier, rfl⟩ := h
  rw [charsOf, charsOf, List.flatMap_append]
  exact visibleCount_le_of_suffix (List.suffix_append _ _)

variable {σ : Type}

namespace Reader

def visible (reader : Reader σ) : Nat :=
  visibleCount reader.line.rest + visibleCount (Unread.charsOf reader.lines)

theorem lines_suffix {reader reader' : Reader σ}
    (h : reader'.channel.replies <:+ reader.channel.replies) : reader'.lines <:+ reader.lines :=
  h.filterMap _

theorem visible_load (reader : Reader σ) : reader.load.2.visible ≤ reader.visible := by
  cases hreplies : reader.channel.replies with
  | nil =>
    simp only [load, Channel.readLine_nil hreplies, visible, lines, hreplies]
    exact Nat.le_refl _
  | cons reply replies =>
    simp only [load, Channel.readLine_cons hreplies, visible, lines, hreplies]
    cases reply with
    | line text =>
      have hblank : visibleCount ['\n'] = 0 := by decide
      let later := Unread.charsOf (replies.filterMap Reply.line?)
      change visibleCount (text.toList ++ ['\n']) + visibleCount later ≤
        visibleCount reader.line.rest + visibleCount (text.toList ++ ['\n'] ++ later)
      simp only [visibleCount_append]
      omega
    | ended | failed message => exact Nat.le_refl _

variable [Sink σ]

theorem visible_fetch (reader : Reader σ) : reader.fetch.2.visible ≤ reader.visible := by
  have hasked : reader.asked.visible ≤ reader.visible := by
    rw [visible, lines, replies_asked]
    exact Nat.add_le_add_right (Nat.zero_le _) _
  cases hask : reader.skipLine.ask.1 with
  | ok =>
    rw [fetch_of_ask_ok hask]
    exact reader.asked.visible_load.trans hasked
  | error message =>
    rw [fetch_of_ask_error hask]
    exact hasked

/-- A token takes at least one visible character, and without one no more come about. -/
theorem visible_next (reader : Reader σ) :
    reader.next.2.visible ≤ reader.visible ∧
      (reader.next.1.isOk → reader.next.2.visible < reader.visible) := by
  fun_induction next reader with
  | case1 reader found line hline =>
    have hlt : visible { reader with line } < reader.visible :=
      Nat.add_lt_add_right (Line.visibleCount_of_next? hline) _
    exact ⟨hlt.le, fun _ => hlt⟩
  | case2 reader hline fetched hfetch ih =>
    have hle := reader.visible_fetch
    rw [hfetch] at hle
    exact ⟨ih.1.trans hle, fun hok => Nat.lt_of_lt_of_le (ih.2 hok) hle⟩
  | case3 reader hline stop fetched hfetch =>
    have hle := reader.visible_fetch
    rw [hfetch] at hle
    exact ⟨hle, by simp [Except.isOk, Except.toBool]⟩

end Reader

namespace Calculator

def visible (calculator : Calculator σ) : Nat := calculator.reader.visible

variable [Sink σ]

theorem visible_reject (calculator : Calculator σ) (rejection : Rejection) :
    (calculator.reject rejection).2.visible ≤ calculator.visible := by
  have hlines := Unread.visibleCount_charsOf_le
    (Reader.lines_suffix (calculator.leads_reject rejection).replies_suffix)
  refine Nat.add_le_add ?_ hlines
  dsimp only [reject]
  split
  · exact Nat.zero_le _
  · exact Nat.le_refl _

theorem stepwise_visible :
    Stepwise fun earlier later : Calculator σ => later.visible ≤ earlier.visible where
  refl _ := Nat.le_refl _
  trans h h' := Nat.le_trans h' h
  start _ := Nat.le_refl _
  next calculator := calculator.reader.visible_next.1
  operands _ _ := Nat.le_refl _
  retarget _ _ := Nat.le_refl _
  ignore _ := Nat.le_refl _
  store _ _ := Nat.le_refl _
  reject := visible_reject
  say _ _ := Nat.le_refl _
  close calculator _ := close_holds (fun later => later.visible ≤ calculator.visible)
    (Nat.le_refl _) fun _ h => h

/-- An expression that comes to something has taken a token, also if it is rejected. -/
theorem visible_advance_of_ok {calculator later : Calculator σ} {progress : Progress}
    {outcome : Outcome} (h : calculator.advance progress = (.ok outcome, later)) :
    later.visible < calculator.visible := by
  have htoken {calculator : Calculator σ} {token : Token} {reader : Reader σ}
      (hnext : calculator.reader.next = (.ok token, reader)) :
      visible { calculator with reader } < calculator.visible := by
    have hlt := calculator.reader.visible_next.2
    rw [hnext] at hlt
    exact hlt rfl
  fun_induction advance calculator progress with
  | case1 => simp at h
  | case2 calculator progress token reader hnext progress' operands hstep ih =>
    exact (ih h).trans (htoken hnext)
  | case3 calculator progress token reader hnext name operands hstep ih =>
    exact Nat.lt_trans (ih h) (htoken hnext)
  | case4 calculator progress token reader hnext operands hstep ih =>
    exact Nat.lt_trans (ih h) (htoken hnext)
  | case5 calculator progress token reader hnext value operands hstep =>
    obtain ⟨-, rfl⟩ := Prod.mk.inj h
    exact htoken hnext
  | case6 calculator progress token reader hnext rejection hstep =>
    have hreject := visible_reject { calculator with reader } rejection
    rw [h] at hreject
    exact hreject.trans_lt (htoken hnext)
  | case7 => simp at h

theorem visible_evaluate_of_ok {calculator later : Calculator σ} {outcome : Outcome}
    (h : calculator.evaluate = (.ok outcome, later)) : later.visible < calculator.visible := by
  rw [evaluate] at h
  change later.visible < calculator.clear.visible
  exact visible_advance_of_ok h

end Calculator

namespace Machine

open Program

def visible (machine : Machine σ) : Nat :=
  visibleCount machine.rest +
    visibleCount (Unread.charsOf (machine.channel.replies.filterMap Reply.line?))

variable [Sink σ] {machine later : Machine σ}

/-- A session that may evaluate so many times. It comes to nothing if that is not enough. -/
noncomputable def converseWithin : Nat → Program (Machine σ) String Ending
  | 0 => fun _ => none
  | limit + 1 => do
    match ← evaluate.outcome with
    | .ok outcome =>
      use id (·.writeLine outcome.line)
      converseWithin limit
    | .error (.ended how) => close how
    | .error (.failed message) => throw message

noncomputable def runWithin (limit : Nat) : Program (Machine σ) String Ending := do
  note .started
  converseWithin limit

/-- Without the limit the session would be the same if there are fewer visible characters. -/
theorem converseWithin_eq (limit : Nat) (hsound : machine.Sound)
    (h : machine.visible < limit) : converseWithin limit machine = converse machine := by
  induction limit generalizing machine with
  | zero => exact absurd h (Nat.not_lt_zero _)
  | succ limit ih =>
    cases hevaluate : machine.calculator.evaluate with
    | mk result evaluated =>
      obtain ⟨later, houtcome, hlater, hcalculator⟩ := does_outcome hsound hevaluate
      rw [converseWithin, converse_eq, bind_eq _ houtcome, bind_eq _ houtcome]
      cases result with
      | error stop => cases stop <;> rfl
      | ok outcome =>
        have hlt := Calculator.visible_evaluate_of_ok hevaluate
        obtain ⟨last, hsay, hlast, hsaid⟩ := does_say hlater outcome.line
        have hvisible : last.visible = evaluated.visible := by
          rw [hcalculator] at hsaid
          exact congrArg Calculator.visible hsaid
        generalize (later.calculator.say outcome.line).1 = answer at hsay
        cases answer with
        | error message => exact (hsay.stop _).trans (hsay.stop _).symm
        | ok =>
          refine (bind_eq (fun _ => converseWithin limit) hsay).trans ?_
          refine (ih hlast ?_).trans (bind_eq (fun _ => converse) hsay).symm
          have hmachine : machine.calculator.visible = machine.visible := rfl
          omega

omit [Sink σ] in
theorem Does.visible_eq {ε α : Type} {program : Program (Machine σ) ε α} {answer : Except ε α}
    {result : Except ε α × Calculator σ} (h : Does program machine result)
    (hgives : program.Gives machine answer later) :
    result.1 = answer ∧ later.visible = result.2.visible := by
  obtain ⟨last, hlast, -, hcalculator⟩ := h
  obtain ⟨hanswer, rfl⟩ := hlast.unique hgives
  exact ⟨hanswer, congrArg Calculator.visible hcalculator⟩

/-- Whatever the replies are and whatever fails, every request for a token, every evaluation and
every session returns. An evaluation that comes to a value or a rejection has taken at least one of
the visible characters that were left, and none of the three brings any back. So with `n` of them
left a session makes at most `n + 1` evaluations. -/
theorem returns_within (h : machine.Reached) :
    (∃ answer later, nextToken.Gives machine answer later) ∧
    (∃ answer later, evaluate.Gives machine answer later) ∧
    (∃ answer later, run.Gives machine answer later) ∧
    (∀ answer later, nextToken.Gives machine answer later → later.visible ≤ machine.visible) ∧
    (∀ answer later, evaluate.Gives machine answer later → later.visible ≤ machine.visible) ∧
    (∀ answer later, run.Gives machine answer later → later.visible ≤ machine.visible) ∧
    (∀ outcome later, evaluate.Gives machine (.ok outcome) later →
      later.visible < machine.visible) ∧
    ∃ answer later, (runWithin (machine.visible + 1)).Gives machine answer later ∧
      run.Gives machine answer later := by
  have hsound := h.sound
  have hstepwise := Calculator.stepwise_visible (σ := σ)
  have hnext := does_nextToken hsound
  have hevaluate := does_evaluate hsound
  have hrun := does_run hsound
  refine ⟨hnext.gives, hevaluate.gives, hrun.gives, fun answer later hgives => ?_,
    fun answer later hgives => ?_, fun answer later hgives => ?_,
    fun outcome later hgives => ?_, ?_⟩
  · rw [(hnext.visible_eq hgives).2]
    exact hstepwise.next machine.calculator
  · rw [(hevaluate.visible_eq hgives).2]
    exact hstepwise.evaluate machine.calculator
  · rw [(hrun.visible_eq hgives).2]
    exact hstepwise.run machine.calculator
  · obtain ⟨hanswer, hvisible⟩ := hevaluate.visible_eq hgives
    rw [hvisible]
    exact Calculator.visible_evaluate_of_ok (Prod.ext hanswer rfl)
  · obtain ⟨answer, later, hgives⟩ := hrun.gives
    refine ⟨answer, later, ?_, hgives⟩
    have hnoted : Sound { machine with channel := machine.channel.note .started } :=
      ⟨hsound.newline, hsound.cursor⟩
    have hwithin := converseWithin_eq (machine.visible + 1) hnoted (Nat.lt_succ_self _)
    exact (bind_eq _ (gives_modify _ machine)).trans
      (hwithin.trans ((bind_eq _ (gives_modify _ machine)).symm.trans hgives))

/-- Six visible characters are left, one of them on a line after a failure. -/
theorem returns_within_seven :
    let machine : Machine FaultySink := .start {}
      { replies := [.line " 1 2\n+ @ #", .failed "lost", .line "@"],
        sink := { failingWrites := (· = 4), failingFlushes := (· = 1) } }
    machine.Reached ∧ machine.visible = 6 ∧
      ∃ answer later,
        (runWithin 7).Gives machine answer later ∧ run.Gives machine answer later := by
  intro machine
  have hvisible : machine.visible = 6 := by decide +kernel
  have hreached : machine.Reached := .start {} machine.channel
  have hwithin := (returns_within hreached).2.2.2.2.2.2.2
  rw [hvisible] at hwithin
  exact ⟨hreached, hvisible, hwithin⟩

end Machine

end ReversePolish
