import ReversePolish.Proofs.SpacedText
import ReversePolish.Proofs.SteadyTokens

/-!
# The tokens of a line and those after it

What is ahead of a reader are the tokens left on its line, and then whatever is ahead once the line
has been given up. Where nothing fails these are the tokens of the lines to come, one line after the
other.
-/

namespace ReversePolish

/-- However much of a line is taken, giving it up leaves the same. -/
theorem Line.exhaust_of_next? {line line' : Line} {token : Token}
    (h : line.next? = some (token, line')) : line'.exhaust = line.exhaust := by
  have hexhaust (line : Line) : line.exhaust = ⟨line.chars.reverse, []⟩ := by
    simp [exhaust, chars]
  rw [hexhaust, hexhaust, chars_of_next? h]

namespace Reader

variable {σ : Type} [Sink σ]

/-- The tokens left on the line come first, and the line is given up after them. -/
theorem ahead_eq_append (reader : Reader σ) :
    reader.ahead = Token.scan reader.line.rest ++ reader.skipLine.ahead := by
  generalize hscan : Token.scan reader.line.rest = tokens
  induction tokens generalizing reader with
  | nil => exact (ahead_of_next_eq (next_skipLine (Line.next?_eq_none_of_scan hscan))).symm
  | cons token tokens ih =>
    obtain ⟨line, hline, hrest⟩ := Line.exists_next? hscan
    have hlater : ({ reader with line }.note (.scanned token)).skipLine.ahead =
        reader.skipLine.ahead :=
      Alike.lockstep.ahead ⟨Line.exhaust_of_next? hline, rfl, rfl, rfl⟩
    rw [ahead_of_token (next_of_token hline), ih _ hrest, hlater, List.cons_append]

/-- What is true of every token that a line holds is true of all tokens ahead. -/
theorem forall_mem_ahead {Holds : Token → Prop}
    (h : ∀ {line line' token}, Line.next? line = some (token, line') → Holds token)
    (reader : Reader σ) : ∀ token ∈ reader.ahead, Holds token := by
  generalize hahead : reader.ahead = tokens
  induction tokens generalizing reader with
  | nil => simp
  | cons token tokens ih =>
    obtain ⟨reader', hnext, hahead'⟩ := next_of_ahead hahead
    obtain ⟨line, line', hline⟩ := line_of_next hnext
    exact List.forall_mem_cons.2 ⟨h hline, ih reader' hahead'⟩

/-- Where nothing fails, the lines to come are read to their ends. -/
theorem ahead_of_lines [Sink.Reliable σ] {reader : Reader σ} {lines : List String}
    (h : reader.channel.replies = lines.map .line) :
    reader.ahead =
      Token.scan reader.line.rest ++ lines.flatMap fun line => Token.scan line.toList := by
  have hskipped : reader.skipLine.line.next? = none := rfl
  induction lines generalizing reader with
  | nil =>
    rw [ahead_eq_append, ahead_of_stop (next_of_stop hskipped (fetch_nil h))]
    rfl
  | cons line lines ih =>
    have hreplies : reader.skipLine.channel.replies = .line line :: lines.map .line := h
    have hnext := next_of_fetch hskipped (fetch_line hreplies)
    rw [ahead_eq_append, ahead_of_next_eq hnext, ih rfl rfl, Line.scan_load]
    rfl

end Reader

end ReversePolish
