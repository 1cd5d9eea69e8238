import ReversePolish.Proofs.FirstToken
import ReversePolish.Proofs.ReliableSink
import ReversePolish.Proofs.TokensAhead

/-!
# The tokens ahead where nothing fails

On a sink that never fails the tokens ahead are decided by the line and the replies; neither the
prompt nor what the sink holds has any influence on them. Where only blanks are left of the line,
the place on it has none either.
-/

namespace ReversePolish.Reader

variable {σ τ : Type}

/-- Two readers, perhaps at different sinks, that have the same before them. -/
structure SameText (reader : Reader σ) (reader' : Reader τ) : Prop where
  line : reader.line = reader'.line
  replies : reader.channel.replies = reader'.channel.replies

theorem SameText.load {reader : Reader σ} {reader' : Reader τ} (h : reader.SameText reader') :
    reader.load.1 = reader'.load.1 ∧ reader.load.2.SameText reader'.load.2 := by
  obtain ⟨⟨replies, sink, calls, journal⟩, prompt, line⟩ := reader
  obtain ⟨⟨replies', sink', calls', journal'⟩, prompt', line'⟩ := reader'
  obtain ⟨rfl, rfl⟩ := h
  match replies with
  | [] | .line _ :: _ | .ended :: _ | .failed _ :: _ => exact ⟨rfl, rfl, rfl⟩

variable [Sink σ] [Sink τ]

theorem SameText.lockstep [Sink.Reliable σ] [Sink.Reliable τ] :
    Lockstep (SameText (σ := σ) (τ := τ)) where
  line h := h.line
  token h _ _ := ⟨rfl, h.replies⟩
  fetch {reader reader'} h := by
    have hasked : reader.asked.SameText reader'.asked :=
      ⟨congrArg Line.exhaust h.line, by simpa using h.replies⟩
    rw [fetch_eq_load, fetch_eq_load]
    exact hasked.load

theorem ahead_of_next_eq {reader reader' : Reader σ} (h : reader.next = reader'.next) :
    reader.ahead = reader'.ahead := by
  cases hnext : reader'.next with
  | mk outcome later =>
    rw [hnext] at h
    cases outcome with
    | ok token => rw [ahead_of_token h, ahead_of_token hnext]
    | error stop => rw [ahead_of_stop h, ahead_of_stop hnext]

/-- Giving up a line of which only blanks are left changes nothing. -/
theorem next_skipLine {reader : Reader σ} (hline : reader.line.next? = none) :
    reader.skipLine.next = reader.next := by
  have hfetch : reader.skipLine.fetch = reader.fetch := by
    simp [fetch, skipLine, Line.exhaust]
  cases h : reader.fetch with
  | mk outcome reader' =>
    rw [h] at hfetch
    cases outcome with
    | ok =>
      rw [next_of_fetch hline h]
      exact next_of_fetch rfl hfetch
    | error stop =>
      rw [next_of_stop hline h]
      exact next_of_stop rfl hfetch

end ReversePolish.Reader
