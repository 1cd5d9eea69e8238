import Mathlib.Data.Prod.Lex
import Mathlib.Order.Lattice.Nat
import ReversePolish.Proofs.ChannelUse
import ReversePolish.Proofs.SteadyTokens

/-!
# Requests that fail

A request for a token fails if the prompt cannot be written, the sink cannot be flushed or the reply
is no line. It has then used up blanks only and stands at the end of its line, so that the next
request asks again. However the failures are spread, the requests that succeed deliver the tokens of
the lines one after the other, and all of them unless writing or flushing fails for ever.
-/

namespace ReversePolish

def Reply.line? : Reply → Option String
  | .line text => some text
  | .ended | .failed _ => none

/-- However many operations there have been, one to come does not fail. -/
def Recovers (failing : Nat → Bool) : Prop := ∀ number, ∃ later, failing (number + later) = false

theorem recovers_of_finite {failing : Nat → Bool} (last : Nat)
    (h : ∀ number, last ≤ number → failing number = false) : Recovers failing :=
  fun number => ⟨last, h (number + last) (Nat.le_add_left last number)⟩

namespace Reader

variable {σ : Type}

def lines (reader : Reader σ) : List String := reader.channel.replies.filterMap Reply.line?

/-- The same reader at a channel that only delivers the lines to come. -/
def steady (reader : Reader σ) : Reader Paper :=
  { reader with channel := { replies := reader.lines.map .line, sink := {} } }

/-- What a request that fails uses up: blank rests and lines, and at most one reply that is no line.
It leaves the end of the last line. -/
structure Exhausts (before after : Reader σ) (lines : List String) (used : List Reply) : Prop where
  rest : ∀ c ∈ before.line.rest, isBlank c
  blank : ∀ line ∈ lines, ∀ c ∈ line.toList, isBlank c
  replies : before.channel.replies = lines.map .line ++ used ++ after.channel.replies
  once : used.length ≤ 1
  noLine : ∀ reply ∈ used, reply.line? = none
  line : after.line = ((lines.getLast?.map Line.load).getD before.line).exhaust

variable [Sink σ]

def after (reader : Reader σ) : Nat → Reader σ
  | 0 => reader
  | count + 1 => reader.next.2.after count

/-- The tokens that so many requests deliver; one that fails delivers none. -/
def delivered (reader : Reader σ) : Nat → List Token
  | 0 => []
  | count + 1 => reader.next.1.toOption.toList ++ reader.next.2.delivered count

theorem after_add (reader : Reader σ) (count count' : Nat) :
    reader.after (count + count') = (reader.after count).after count' := by
  induction count generalizing reader with
  | zero => rw [Nat.zero_add]; rfl
  | succ count ih =>
    rw [Nat.add_right_comm]
    exact ih reader.next.2

theorem Lockstep.after {τ : Type} [Sink τ] {Related : Reader σ → Reader τ → Prop}
    (lockstep : Lockstep Related) {reader : Reader σ} {reader' : Reader τ}
    (h : Related reader reader') (count : Nat) :
    Related (reader.after count) (reader'.after count) := by
  induction count generalizing reader reader' with
  | zero => exact h
  | succ count ih => exact ih (lockstep.next h).2

theorem Coincide.after_next {reader reader' later : Reader σ} {answer : Except Stop Token}
    {count : Nat} (h : later.Coincide (reader'.after count))
    (hnext : reader.next = (answer, reader')) : later.Coincide (reader.after (count + 1)) := by
  rw [Reader.after, hnext]
  exact h

theorem Coincide.of_next {reader reader' later : Reader σ} {answer : Except Stop Token}
    (h : later.Coincide reader') (hnext : reader.next = (answer, reader')) :
    later.Coincide (reader.after 1) :=
  after_next (show later.Coincide (reader'.after 0) from h) hnext

omit [Sink σ] in
theorem load_error {reader reader' : Reader σ} {stop : Stop}
    (h : reader.load = (.error stop, reader')) :
    reader'.line = reader.line ∧ ∃ used,
      reader.channel.replies = used ++ reader'.channel.replies ∧ used.length ≤ 1 ∧
        ∀ reply ∈ used, reply.line? = none := by
  unfold load at h
  cases hreplies : reader.channel.replies with
  | nil =>
    rw [Channel.readLine_nil hreplies] at h
    obtain ⟨-, rfl⟩ := Prod.mk.inj h
    exact ⟨rfl, [], rfl, by simp, by simp⟩
  | cons reply replies =>
    rw [Channel.readLine_cons hreplies] at h
    cases reply with
    | line text => simp at h
    | ended | failed =>
      obtain ⟨-, rfl⟩ := Prod.mk.inj h
      exact ⟨rfl, [_], rfl, by simp, by simp [Reply.line?]⟩

theorem fetch_error {reader reader' : Reader σ} {stop : Stop} (hline : reader.line.next? = none)
    (h : reader.fetch = (.error stop, reader')) : ∃ used, reader.Exhausts reader' [] used := by
  have hrest := Line.next?_eq_none_iff.1 hline
  cases hask : reader.skipLine.ask.1 with
  | ok =>
    rw [fetch_of_ask_ok hask] at h
    obtain ⟨hline', used, hused, honce, hnoLine⟩ := load_error h
    rw [replies_asked] at hused
    exact ⟨used, hrest, by simp, by simpa using hused, honce, hnoLine, hline'⟩
  | error message =>
    rw [fetch_of_ask_error hask] at h
    obtain ⟨-, rfl⟩ := Prod.mk.inj h
    exact ⟨[], hrest, by simp, by simp, by simp, by simp, rfl⟩

theorem next_error {reader reader' : Reader σ} {stop : Stop}
    (h : reader.next = (.error stop, reader')) :
    ∃ lines used, reader.Exhausts reader' lines used := by
  fun_induction next reader with
  | case1 => simp at h
  | case2 reader hline reader₁ hfetch ih =>
    obtain ⟨text, hreplies, hline₁⟩ := fetch_ok hfetch
    obtain ⟨lines, used, hlater⟩ := ih h
    have hrest := hlater.rest
    rw [hline₁] at hrest
    refine ⟨text :: lines, used, Line.next?_eq_none_iff.1 hline, ?_, ?_, hlater.once,
      hlater.noLine, ?_⟩
    · refine List.forall_mem_cons.2 ⟨fun c hc => hrest c ?_, hlater.blank⟩
      exact List.mem_append_left _ hc
    · rw [hreplies, hlater.replies]
      rfl
    · rw [hlater.line, hline₁]
      cases lines <;> rfl
  | case3 reader hline stop' reader₁ hfetch =>
    obtain ⟨hstop, rfl⟩ := Prod.mk.inj h
    obtain ⟨used, hexhausts⟩ := fetch_error hline hfetch
    exact ⟨[], used, hexhausts⟩

def firstCall (prompt : String) (succeeded : Bool) : Call :=
  if prompt = "" then .flush succeeded else .write prompt succeeded

theorem firstCall_ask (reader : Reader σ) :
    ∃ succeeded, firstCall reader.prompt succeeded :: reader.channel.calls <:+
      reader.ask.2.calls := by
  by_cases h : reader.prompt = ""
  · simp only [ask, firstCall, if_pos h]
    exact ⟨_, List.suffix_rfl⟩
  · simp only [firstCall, if_neg h]
    exact ⟨_, (leads_ask_of_write h).calls_suffix⟩

/-- At the end of a line a request begins by asking for the next one. -/
theorem firstCall_next {reader : Reader σ} (hline : reader.line.next? = none) :
    ∃ succeeded, firstCall reader.prompt succeeded :: reader.channel.calls <:+
      reader.next.2.channel.calls := by
  obtain ⟨succeeded, hcall⟩ := reader.skipLine.firstCall_ask
  have hlater := reader.leads_fetch_of_ask.trans (leads_next_of_fetch hline)
  exact ⟨succeeded, hcall.trans hlater.calls_suffix⟩

/-- A request takes the next of the tokens left, and one that fails takes none. -/
theorem ahead_steady (reader : Reader σ) :
    reader.steady.ahead = reader.next.1.toOption.toList ++ reader.next.2.steady.ahead := by
  fun_induction next reader with
  | case1 reader token line hline =>
    have hnext : reader.steady.next = _ := next_of_token hline
    rw [ahead_of_token hnext, ahead_note]
    rfl
  | case2 reader hline reader₁ hfetch ih =>
    obtain ⟨text, hreplies, hline₁⟩ := fetch_ok hfetch
    have hsteady : reader.steady.channel.replies = .line text :: reader₁.lines.map .line := by
      simp [steady, lines, hreplies, Reply.line?]
    have hline' : reader.steady.line.next? = none := hline
    rw [ahead_of_next_eq (next_of_fetch hline' (fetch_line hsteady)), ← ih]
    exact SameText.lockstep.ahead ⟨hline₁.symm, rfl⟩
  | case3 reader hline stop reader₁ hfetch =>
    obtain ⟨used, hexhausts⟩ := fetch_error hline hfetch
    have hlines : reader.lines = reader₁.lines := by
      have hused : used.filterMap Reply.line? = [] := List.filterMap_eq_nil_iff.2 hexhausts.noLine
      simp [lines, hexhausts.replies, hused]
    have hline' : reader.steady.line.next? = none := hline
    have hskipped := ahead_of_next_eq (next_skipLine hline')
    refine hskipped.symm.trans (SameText.lockstep.ahead ⟨hexhausts.line.symm, ?_⟩)
    exact congrArg (List.map Reply.line) hlines

theorem ahead_steady_eq_delivered (reader : Reader σ) (count : Nat) :
    reader.steady.ahead = reader.delivered count ++ (reader.after count).steady.ahead := by
  induction count generalizing reader with
  | zero => rfl
  | succ count ih =>
    rw [ahead_steady, ih]
    exact (List.append_assoc _ _ _).symm

theorem prompt_of_fetch {reader reader' : Reader σ} {answer : Except Stop Unit}
    (h : reader.fetch = (answer, reader')) : reader'.prompt = reader.prompt := by
  obtain rfl : reader.fetch.2 = reader' := congrArg Prod.snd h
  cases hask : reader.skipLine.ask.1 with
  | ok =>
    rw [fetch_of_ask_ok hask, load]
    split <;> rfl
  | error message =>
    rw [fetch_of_ask_error hask]
    rfl

theorem prompt_next (reader : Reader σ) : reader.next.2.prompt = reader.prompt := by
  fun_induction next reader with
  | case1 => rfl
  | case2 reader hline reader₁ hfetch ih => exact ih.trans (prompt_of_fetch hfetch)
  | case3 reader hline stop reader₁ hfetch => exact prompt_of_fetch hfetch

theorem prompt_after (reader : Reader σ) (count : Nat) :
    (reader.after count).prompt = reader.prompt := by
  induction count generalizing reader with
  | zero => rfl
  | succ count ih => exact (ih reader.next.2).trans reader.prompt_next

end Reader

/-- How many operations from a number on fail before one that does not. -/
noncomputable def failuresFrom (failing : Nat → Bool) (number : Nat) : Nat :=
  sInf {later | failing (number + later) = false}

theorem failuresFrom_succ_lt {failing : Nat → Bool} (hrecovers : Recovers failing) {number : Nat}
    (hfails : failing number) :
    failuresFrom failing (number + 1) < failuresFrom failing number := by
  have hmem : failing (number + failuresFrom failing number) = false :=
    Nat.sInf_mem (hrecovers number)
  obtain ⟨later, hlater⟩ : ∃ later, failuresFrom failing number = later + 1 := by
    refine Nat.exists_eq_succ_of_ne_zero fun hzero => ?_
    rw [hzero, Nat.add_zero, hfails] at hmem
    simp at hmem
  rw [hlater] at hmem ⊢
  refine Nat.lt_succ_of_le (Nat.sInf_le ?_)
  rwa [Set.mem_ofPred_eq, Nat.add_right_comm]

/-- Which operations of a sink fail does not depend on its use. -/
theorem Channel.Leads.failing {channel later : Channel FaultySink} (h : channel.Leads later) :
    later.sink.failingWrites = channel.sink.failingWrites ∧
      later.sink.failingFlushes = channel.sink.failingFlushes := by
  refine h.sink (fun sink => sink.failingWrites = channel.sink.failingWrites ∧
    sink.failingFlushes = channel.sink.failingFlushes) ?_ ?_ ⟨rfl, rfl⟩
  · intro sink text hsink
    dsimp only [Sink.write]
    split <;> exact hsink
  · intro sink hsink
    dsimp only [Sink.flush]
    split <;> exact hsink

namespace Reader

/-- Neither prompting nor flushing fails for ever. -/
structure Persists (reader : Reader FaultySink) : Prop where
  writes : reader.prompt = "" ∨ Recovers reader.channel.sink.failingWrites
  flushes : Recovers reader.channel.sink.failingFlushes

theorem Persists.next {reader : Reader FaultySink} (h : reader.Persists) :
    reader.next.2.Persists := by
  obtain ⟨hwrites, hflushes⟩ := reader.leads_next.failing
  refine ⟨?_, ?_⟩
  · rw [hwrites, prompt_next]
    exact h.writes
  · rw [hflushes]
    exact h.flushes

theorem ask_fails {reader : Reader FaultySink} {message : String}
    (h : reader.ask.1 = .error message) :
    (reader.prompt ≠ "" ∧ reader.channel.sink.failingWrites reader.channel.sink.writes ∧
      reader.ask.2.sink.writes = reader.channel.sink.writes + 1 ∧
      reader.ask.2.sink.flushes = reader.channel.sink.flushes) ∨
    (reader.channel.sink.failingFlushes reader.channel.sink.flushes ∧
      reader.ask.2.sink.flushes = reader.channel.sink.flushes + 1) := by
  obtain ⟨⟨replies, ⟨failingWrites, failingFlushes, writes, flushes, paper⟩, calls, journal⟩,
    prompt, line⟩ := reader
  revert h
  dsimp only [ask, Channel.write, Channel.flush, Sink.write, Sink.flush]
  by_cases hprompt : prompt = ""
  · by_cases hflush : failingFlushes flushes <;> simp [hprompt, hflush]
  · by_cases hwrite : failingWrites writes
    · simp [hprompt, hwrite]
    · by_cases hflush : failingFlushes flushes <;> simp [hprompt, hwrite, hflush]

theorem replies_length_of_load {σ : Type} {reader : Reader σ} (h : reader.channel.replies ≠ []) :
    reader.load.2.channel.replies.length < reader.channel.replies.length := by
  cases hreplies : reader.channel.replies with
  | nil => exact absurd hreplies h
  | cons reply replies =>
    rw [load, Channel.readLine_cons hreplies]
    cases reply <;> exact Nat.lt_succ_self _

theorem replies_length_of_ask_ok {σ : Type} [Sink σ] {reader : Reader σ}
    (hline : reader.line.next? = none) (hask : reader.skipLine.ask.1 = .ok ())
    (h : reader.channel.replies ≠ []) :
    reader.next.2.channel.replies.length < reader.channel.replies.length := by
  have hasked : reader.asked.channel.replies ≠ [] := by rwa [replies_asked]
  have hload := replies_length_of_load hasked
  rw [replies_asked, ← fetch_of_ask_ok hask] at hload
  cases hfetch : reader.fetch with
  | mk answer fetched =>
    rw [hfetch] at hload
    cases answer with
    | ok =>
      rw [next_of_fetch hline hfetch]
      exact Nat.lt_of_le_of_lt fetched.leads_next.replies_suffix.length_le hload
    | error stop =>
      rw [next_of_stop hline hfetch]
      exact hload

/-- What is left to be read, and how many failures come before the next success. -/
noncomputable def rank (reader : Reader FaultySink) : ℕ ×ₗ ℕ ×ₗ ℕ ×ₗ ℕ :=
  toLex (reader.channel.replies.length, toLex (reader.line.rest.length,
    toLex (failuresFrom reader.channel.sink.failingFlushes reader.channel.sink.flushes,
      failuresFrom reader.channel.sink.failingWrites reader.channel.sink.writes)))

/-- Every request makes progress until nothing is left. -/
theorem rank_next_lt {reader : Reader FaultySink} (hpersists : reader.Persists)
    (hleft : reader.line.next? = none → reader.channel.replies ≠ []) :
    reader.next.2.rank < reader.rank := by
  simp only [rank, Prod.Lex.toLex_lt_toLex]
  cases hline : reader.line.next? with
  | some found =>
    rw [next_of_token hline]
    exact .inr ⟨rfl, .inl (Line.rest_length_of_next? hline)⟩
  | none =>
    cases hask : reader.skipLine.ask.1 with
    | ok => exact .inl (replies_length_of_ask_ok hline hask (hleft hline))
    | error message =>
      obtain ⟨hfailingWrites, hfailingFlushes⟩ := reader.leads_next.failing
      rw [hfailingWrites, hfailingFlushes, next_of_stop hline (fetch_of_ask_error hask)]
      refine .inr ⟨by simp, ?_⟩
      rcases Nat.eq_zero_or_pos reader.line.rest.length with hrest | hrest
      · refine .inr ⟨hrest.symm, ?_⟩
        rcases ask_fails hask with ⟨hprompt, hfails, hwrites, hflushes⟩ | ⟨hfails, hflushes⟩
        · refine .inr ⟨congrArg _ hflushes, ?_⟩
          have hrecovers := hpersists.writes.resolve_left hprompt
          exact hwrites ▸ failuresFrom_succ_lt hrecovers hfails
        · exact .inl (hflushes ▸ failuresFrom_succ_lt hpersists.flushes hfails)
      · exact .inl hrest

/-- Sooner or later nothing is left to be read. -/
theorem exists_after_all {reader : Reader FaultySink} (hpersists : reader.Persists) :
    ∃ count, (reader.after count).line.next? = none ∧
      (reader.after count).channel.replies = [] := by
  induction reader using (InvImage.wf rank wellFounded_lt).induction with
  | _ reader ih =>
    by_cases hleft : reader.line.next? = none ∧ reader.channel.replies = []
    · exact ⟨0, hleft⟩
    · have hrank := rank_next_lt hpersists fun hline hreplies => hleft ⟨hline, hreplies⟩
      obtain ⟨count, hcount⟩ := ih reader.next.2 hrank hpersists.next
      exact ⟨count + 1, hcount⟩

theorem ahead_steady_eq_nil {σ : Type} [Sink σ] {reader : Reader σ}
    (hline : reader.line.next? = none) (hreplies : reader.channel.replies = []) :
    reader.steady.ahead = [] := by
  have hsteady : reader.steady.channel.replies = [] := by simp [steady, lines, hreplies]
  have hline' : reader.steady.line.next? = none := hline
  exact ahead_of_stop (next_of_stop hline' (fetch_nil hsteady))

/-- Whatever fails, the requests that succeed deliver the tokens of the lines one after the other,
and all of them unless writing or flushing fails for ever. A request that fails has used up blanks
only and stands at the end of the last line it got, where the next one asks again. -/
theorem delivered_through_failures (replies : List Reply) (prompt : String)
    (failingWrites failingFlushes : Nat → Bool) :
    let start : Reader FaultySink :=
      { channel := { replies, sink := { failingWrites, failingFlushes } }, prompt }
    let undisturbed : Reader Paper :=
      { channel := { replies := (replies.filterMap Reply.line?).map .line, sink := {} }, prompt }
    (∀ count, undisturbed.ahead = start.delivered count ++ (start.after count).steady.ahead) ∧
    ((prompt = "" ∨ Recovers failingWrites) → Recovers failingFlushes →
      ∃ enough, ∀ count, enough ≤ count → start.delivered count = undisturbed.ahead) ∧
    (∀ count stop later, (start.after count).next = (.error stop, later) →
      (∃ lines used, (start.after count).Exhausts later lines used) ∧
      ∃ succeeded, firstCall prompt succeeded :: later.channel.calls <:+
        later.next.2.channel.calls) := by
  intro start undisturbed
  have hdelivered : ∀ count, undisturbed.ahead = _ := start.ahead_steady_eq_delivered
  refine ⟨hdelivered, fun hwrites hflushes => ?_, fun count stop later hnext => ?_⟩
  · have hpersists : start.Persists := ⟨hwrites, hflushes⟩
    obtain ⟨enough, hline, hreplies⟩ := exists_after_all hpersists
    refine ⟨enough, fun count hcount => ?_⟩
    obtain ⟨more, rfl⟩ := Nat.exists_eq_add_of_le hcount
    have hnone := (start.after enough).ahead_steady_eq_delivered more
    rw [ahead_steady_eq_nil hline hreplies, ← after_add] at hnone
    rw [hdelivered (enough + more), (List.append_eq_nil_iff.1 hnone.symm).2, List.append_nil]
  · obtain ⟨lines, used, hexhausts⟩ := next_error hnext
    have hline : later.line.next? = none := by
      rw [hexhausts.line]
      rfl
    have hcall := firstCall_next hline
    have hprompt := (start.after count).prompt_next
    rw [hnext, prompt_after] at hprompt
    rw [show later.prompt = prompt from hprompt] at hcall
    exact ⟨⟨lines, used, hexhausts⟩, hcall⟩

/-- Two failed prompts, a failed flush, a failed reply and an end of the input among the lines. -/
theorem delivered_through_five_failures :
    let start : Reader FaultySink :=
      { channel := {
          replies := [.failed "gone", .line "1.5 x", .ended, .line "", .line " @"],
          sink := { failingWrites := (· < 2), failingFlushes := (· = 1) } },
        prompt := ">> " }
    ∃ enough, ∀ count, enough ≤ count →
      start.delivered count = [⟨.number, "1.5"⟩, ⟨.identifier, "x"⟩, ⟨.endMark, "@"⟩] := by
  intro start
  obtain ⟨-, hall, -⟩ := delivered_through_failures start.channel.replies ">> "
    (· < 2) (· = 1)
  have hwrites : Recovers (· < 2) :=
    recovers_of_finite 2 fun number h => decide_eq_false (by omega)
  have hflushes : Recovers (· = 1) :=
    recovers_of_finite 2 fun number h => decide_eq_false (by omega)
  obtain ⟨enough, henough⟩ := hall (.inr hwrites) hflushes
  refine ⟨enough, fun count hcount => (henough count hcount).trans ?_⟩
  decide +kernel

end Reader

end ReversePolish
