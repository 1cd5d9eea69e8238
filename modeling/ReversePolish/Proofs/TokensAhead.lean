import ReversePolish.Reader

/-!
# The tokens ahead of a reader

The tokens that a reader delivers before something stops it, and taking a token takes the first of
them. Readers between which a fetch makes no difference have the same tokens ahead. In particular
what has been recorded of a reader has no influence on them, neither its journal nor the calls made
so far.
-/

namespace ReversePolish.Reader

variable {σ τ : Type}

section Ahead

variable [Sink σ]

def ahead (reader : Reader σ) : List Token := reader.drain.1.map Prod.fst

theorem ahead_of_token {reader reader' : Reader σ} {token : Token}
    (h : reader.next = (.ok token, reader')) : reader.ahead = token :: reader'.ahead := by
  rw [ahead, drain]
  split
  · next h' =>
    rw [h] at h'
    obtain ⟨htoken, rfl⟩ := Prod.mk.inj h'
    rw [← Except.ok.inj htoken]
    rfl
  · next h' =>
    rw [h] at h'
    simp at h'

theorem ahead_of_stop {reader reader' : Reader σ} {stop : Stop}
    (h : reader.next = (.error stop, reader')) : reader.ahead = [] := by
  rw [ahead, drain]
  split
  · next h' =>
    rw [h] at h'
    simp at h'
  · rfl

theorem line_of_next {reader reader' : Reader σ} {token : Token}
    (h : reader.next = (.ok token, reader')) :
    ∃ line line', Line.next? line = some (token, line') := by
  fun_induction next reader with
  | case1 reader found line hline =>
    obtain ⟨hfound, -⟩ := Prod.mk.inj h
    obtain rfl := Except.ok.inj hfound
    exact ⟨_, _, hline⟩
  | case2 reader hline fetched hfetch ih => exact ih h
  | case3 => simp at h

theorem next_of_ahead {reader : Reader σ} {token : Token} {tokens : List Token}
    (h : reader.ahead = token :: tokens) :
    ∃ reader', reader.next = (.ok token, reader') ∧ reader'.ahead = tokens := by
  cases hnext : reader.next with
  | mk outcome reader' =>
    cases outcome with
    | ok found =>
      rw [ahead_of_token hnext] at h
      obtain ⟨rfl, hahead⟩ := List.cons.inj h
      exact ⟨reader', rfl, hahead⟩
    | error stop =>
      rw [ahead_of_stop hnext] at h
      simp at h

end Ahead

/-- A relation of readers with the same line that is kept by taking a token and, with the same
outcome, by a fetch. -/
structure Lockstep [Sink σ] [Sink τ] (Related : Reader σ → Reader τ → Prop) : Prop where
  line {reader reader'} : Related reader reader' → reader.line = reader'.line
  token {reader reader'} : Related reader reader' → ∀ line event,
    Related ({ reader with line }.note event) ({ reader' with line }.note event)
  fetch {reader reader'} : Related reader reader' →
    reader.fetch.1 = reader'.fetch.1 ∧ Related reader.fetch.2 reader'.fetch.2

namespace Lockstep

variable [Sink σ] [Sink τ] {Related : Reader σ → Reader τ → Prop} {reader : Reader σ}
  {reader' : Reader τ}

theorem next (lockstep : Lockstep Related) (h : Related reader reader') :
    reader.next.1 = reader'.next.1 ∧ Related reader.next.2 reader'.next.2 := by
  fun_induction Reader.next reader generalizing reader' with
  | case1 reader token line hline =>
    rw [next_of_token (lockstep.line h ▸ hline)]
    exact ⟨rfl, lockstep.token h line _⟩
  | case2 reader hline reader₁ hfetch ih =>
    obtain ⟨houtcome, hrelated⟩ := lockstep.fetch h
    rw [hfetch] at houtcome hrelated
    have hfetch' : reader'.fetch = (.ok (), reader'.fetch.2) := Prod.ext houtcome.symm rfl
    rw [next_of_fetch (lockstep.line h ▸ hline) hfetch']
    exact ih hrelated
  | case3 reader hline stop reader₁ hfetch =>
    obtain ⟨houtcome, hrelated⟩ := lockstep.fetch h
    rw [hfetch] at houtcome hrelated
    have hfetch' : reader'.fetch = (.error stop, reader'.fetch.2) := Prod.ext houtcome.symm rfl
    rw [next_of_stop (lockstep.line h ▸ hline) hfetch']
    exact ⟨rfl, hrelated⟩

theorem ahead (lockstep : Lockstep Related) (h : Related reader reader') :
    reader.ahead = reader'.ahead := by
  fun_induction Reader.drain reader generalizing reader' with
  | case1 reader token next hnext _ _ _ _ ih =>
    obtain ⟨houtcome, hrelated⟩ := lockstep.next h
    rw [hnext] at houtcome hrelated
    have hnext' : reader'.next = (.ok token, reader'.next.2) := Prod.ext houtcome.symm rfl
    rw [ahead_of_token hnext, ahead_of_token hnext', ih hrelated]
  | case2 reader stop next hnext =>
    obtain ⟨houtcome, -⟩ := lockstep.next h
    rw [hnext] at houtcome
    have hnext' : reader'.next = (.error stop, reader'.next.2) := Prod.ext houtcome.symm rfl
    rw [ahead_of_stop hnext, ahead_of_stop hnext']

end Lockstep

/-- A fetch goes the same way if the line is asked for with the same outcome and the reply makes no
difference. -/
theorem fetch_of_asked [Sink σ] {Related : Reader σ → Reader σ → Prop} {reader reader' : Reader σ}
    (hasked : reader.skipLine.ask.1 = reader'.skipLine.ask.1 ∧ Related reader.asked reader'.asked)
    (hload : Related reader.asked reader'.asked → reader.asked.load.1 = reader'.asked.load.1 ∧
      Related reader.asked.load.2 reader'.asked.load.2) :
    reader.fetch.1 = reader'.fetch.1 ∧ Related reader.fetch.2 reader'.fetch.2 := by
  obtain ⟨houtcome, hrelated⟩ := hasked
  cases hask : reader.skipLine.ask.1 with
  | ok =>
    rw [fetch_of_ask_ok hask, fetch_of_ask_ok (houtcome ▸ hask)]
    exact hload hrelated
  | error message =>
    rw [fetch_of_ask_error hask, fetch_of_ask_error (houtcome ▸ hask)]
    exact ⟨rfl, hrelated⟩

/-- Two readers that differ at most in what has been recorded of them. -/
structure Alike (reader reader' : Reader σ) : Prop where
  line : reader.line = reader'.line
  prompt : reader.prompt = reader'.prompt
  replies : reader.channel.replies = reader'.channel.replies
  sink : reader.channel.sink = reader'.channel.sink

namespace Alike

variable {reader reader' reader'' : Reader σ}

theorem trans (h : reader.Alike reader') (h' : reader'.Alike reader'') : reader.Alike reader'' :=
  ⟨h.line.trans h'.line, h.prompt.trans h'.prompt, h.replies.trans h'.replies, h.sink.trans h'.sink⟩

theorem load (h : reader.Alike reader') :
    reader.load.1 = reader'.load.1 ∧ reader.load.2.Alike reader'.load.2 := by
  obtain ⟨⟨replies, sink, calls, journal⟩, prompt, line⟩ := reader
  obtain ⟨⟨replies', sink', calls', journal'⟩, prompt', line'⟩ := reader'
  obtain ⟨rfl, rfl, rfl, rfl⟩ := h
  match replies with
  | [] | .line _ :: _ | .ended :: _ | .failed _ :: _ => exact ⟨rfl, rfl, rfl, rfl, rfl⟩

variable [Sink σ]

theorem asked (h : reader.Alike reader') :
    reader.skipLine.ask.1 = reader'.skipLine.ask.1 ∧ reader.asked.Alike reader'.asked := by
  obtain ⟨⟨replies, sink, calls, journal⟩, prompt, line⟩ := reader
  obtain ⟨⟨replies', sink', calls', journal'⟩, prompt', line'⟩ := reader'
  obtain ⟨rfl, rfl, rfl, rfl⟩ := h
  unfold Reader.asked Reader.ask Channel.write Channel.flush
  by_cases hprompt : prompt = ""
  · simp only [Reader.skipLine, hprompt, if_pos]
    exact ⟨trivial, rfl, rfl, rfl, rfl⟩
  · simp only [Reader.skipLine, hprompt, if_neg, not_false_eq_true]
    cases hwrite : (Sink.write sink prompt).1 <;> exact ⟨rfl, rfl, rfl, rfl, rfl⟩

theorem lockstep : Lockstep (Alike (σ := σ)) where
  line h := h.line
  token h _ _ := ⟨rfl, h.prompt, h.replies, h.sink⟩
  fetch h := fetch_of_asked h.asked fun hasked => hasked.load

end Alike

/-- Two readers that differ at most in their journals. -/
structure Coincide (reader reader' : Reader σ) : Prop extends Alike reader reader' where
  calls : reader.channel.calls = reader'.channel.calls

namespace Coincide

variable {reader reader' reader'' : Reader σ}

theorem refl (reader : Reader σ) : reader.Coincide reader := ⟨⟨rfl, rfl, rfl, rfl⟩, rfl⟩

theorem note (reader : Reader σ) (event : Event) : (reader.note event).Coincide reader :=
  ⟨⟨rfl, rfl, rfl, rfl⟩, rfl⟩

theorem trans (h : reader.Coincide reader') (h' : reader'.Coincide reader'') :
    reader.Coincide reader'' :=
  ⟨h.toAlike.trans h'.toAlike, h.calls.trans h'.calls⟩

theorem channel_note (h : reader.Coincide reader') (event : Event) :
    reader.channel.note event =
      { reader'.channel with journal := event :: reader.channel.journal } := by
  obtain ⟨⟨replies, sink, calls, journal⟩, prompt, line⟩ := reader
  obtain ⟨⟨replies', sink', calls', journal'⟩, prompt', line'⟩ := reader'
  obtain ⟨⟨rfl, rfl, rfl, rfl⟩, rfl⟩ := h
  rfl

theorem load (h : reader.Coincide reader') :
    reader.load.1 = reader'.load.1 ∧ reader.load.2.Coincide reader'.load.2 := by
  obtain ⟨⟨replies, sink, calls, journal⟩, prompt, line⟩ := reader
  obtain ⟨⟨replies', sink', calls', journal'⟩, prompt', line'⟩ := reader'
  obtain ⟨⟨rfl, rfl, rfl, rfl⟩, rfl⟩ := h
  match replies with
  | [] | .line _ :: _ | .ended :: _ | .failed _ :: _ => exact ⟨rfl, ⟨rfl, rfl, rfl, rfl⟩, rfl⟩

variable [Sink σ]

theorem asked (h : reader.Coincide reader') :
    reader.skipLine.ask.1 = reader'.skipLine.ask.1 ∧ reader.asked.Coincide reader'.asked := by
  obtain ⟨⟨replies, sink, calls, journal⟩, prompt, line⟩ := reader
  obtain ⟨⟨replies', sink', calls', journal'⟩, prompt', line'⟩ := reader'
  obtain ⟨⟨rfl, rfl, rfl, rfl⟩, rfl⟩ := h
  unfold Reader.asked Reader.ask Channel.write Channel.flush
  by_cases hprompt : prompt = ""
  · simp only [Reader.skipLine, hprompt, if_pos]
    exact ⟨trivial, ⟨rfl, rfl, rfl, rfl⟩, rfl⟩
  · simp only [Reader.skipLine, hprompt, if_neg, not_false_eq_true]
    cases hwrite : (Sink.write sink prompt).1 <;> exact ⟨rfl, ⟨rfl, rfl, rfl, rfl⟩, rfl⟩

theorem lockstep : Lockstep (Coincide (σ := σ)) where
  line h := h.line
  token h _ _ := ⟨⟨rfl, h.prompt, h.replies, h.sink⟩, h.calls⟩
  fetch h := fetch_of_asked h.asked fun hasked => hasked.load

end Coincide

/-- What has been recorded of a reader has no influence on the tokens ahead. -/
@[simp] theorem ahead_note [Sink σ] (reader : Reader σ) (event : Event) :
    (reader.note event).ahead = reader.ahead :=
  Alike.lockstep.ahead ⟨rfl, rfl, rfl, rfl⟩

end ReversePolish.Reader
