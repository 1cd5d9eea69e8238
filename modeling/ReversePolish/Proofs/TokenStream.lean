import ReversePolish.Proofs.FirstToken
import ReversePolish.Proofs.ReliableSink
import Mathlib.Control.Monad.Basic

/-!
# The tokens of a text

What a reader delivers, said of the text that it reads and without lines being asked for. The text
is what is left of the current line and the later lines, each with its newline. A request for a
token takes the first token of the text, or finds that only blanks are left; giving up the line
drops what is left of it. Every reader over some lines answers every sequence of requests as the
text does, and delivering all tokens loses nothing but blanks.
-/

namespace ReversePolish

/-- The text that has not been taken: what is left of the current line, and the later lines. -/
structure Unread where
  current : List Char
  later : List String

namespace Unread

def charsOf (lines : List String) : List Char := lines.flatMap fun line => line.toList ++ ['\n']

def chars (unread : Unread) : List Char := unread.current ++ charsOf unread.later

def dropFrom (count : Nat) (current : List Char) : List String → Unread
  | [] => ⟨current.drop count, []⟩
  | line :: later =>
    if count < current.length then ⟨current.drop count, line :: later⟩
    else dropFrom (count - current.length) (line.toList ++ ['\n']) later

/-- The text without so many characters. The line of the next character becomes the current one. -/
def drop (unread : Unread) (count : Nat) : Unread := dropFrom count unread.current unread.later

def dropLine (unread : Unread) : Unread := ⟨[], unread.later⟩

@[simp] theorem charsOf_cons (line : String) (lines : List String) :
    charsOf (line :: lines) = line.toList ++ '\n' :: charsOf lines := by
  simp [charsOf]

theorem filter_charsOf (lines : List String) :
    (charsOf lines).filter (fun c => !isBlank c) =
      (lines.flatMap String.toList).filter (fun c => !isBlank c) := by
  have hnewline : isBlank '\n' := by decide
  induction lines with
  | nil => rfl
  | cons line lines ih => simp [ih, hnewline]

theorem drop_of_lt {unread : Unread} {count : Nat} (h : count < unread.current.length) :
    unread.drop count = ⟨unread.current.drop count, unread.later⟩ := by
  obtain ⟨current, later⟩ := unread
  cases later with
  | nil => rfl
  | cons line later => exact if_pos h

theorem drop_add (count : Nat) (current : List Char) (line : String) (later : List String) :
    drop ⟨current, line :: later⟩ (current.length + count) =
      drop ⟨line.toList ++ ['\n'], later⟩ count := by
  have hge : ¬current.length + count < current.length := by omega
  simp [drop, dropFrom, hge]

theorem chars_drop (unread : Unread) (count : Nat) :
    (unread.drop count).chars = unread.chars.drop count := by
  obtain ⟨current, later⟩ := unread
  induction later generalizing count current with
  | nil => simp [drop, dropFrom, chars, charsOf]
  | cons line later ih =>
    by_cases h : count < current.length
    · rw [drop_of_lt h]
      exact (List.drop_append_of_le_length h.le).symm
    · obtain ⟨count, rfl⟩ := Nat.exists_eq_add_of_le (Nat.not_lt.1 h)
      rw [drop_add, ih]
      simp [chars, List.drop_append]

end Unread

inductive Request where
  | token
  | skipLine

/-- The answers of a text to requests for tokens, the line being given up in between. -/
inductive Answers : Unread → List Request → List (Except Stop Token) → Prop
  | nil {unread} : Answers unread [] []
  | token {unread blanks token rest requests answers}
      (first : FirstToken unread.chars blanks token rest)
      (more : Answers (unread.drop (blanks.length + token.text.length)) requests answers) :
      Answers unread (.token :: requests) (.ok token :: answers)
  | blank {unread requests answers} (blank : ∀ c ∈ unread.chars, isBlank c)
      (more : Answers ⟨[], []⟩ requests answers) :
      Answers unread (.token :: requests) (.error (.ended .endOfInput) :: answers)
  | skipLine {unread requests answers} (more : Answers unread.dropLine requests answers) :
      Answers unread (.skipLine :: requests) answers

theorem Answers.unique {unread : Unread} {requests : List Request}
    {answers answers' : List (Except Stop Token)} (h : Answers unread requests answers)
    (h' : Answers unread requests answers') : answers = answers' := by
  induction h generalizing answers' with
  | nil =>
    cases h'
    rfl
  | token first more ih =>
    cases h' with
    | token first' more' =>
      obtain ⟨rfl, rfl, -⟩ := first.unique first'
      rw [ih more']
    | blank hblank => exact absurd hblank first.not_blank
  | blank hblank more ih =>
    cases h' with
    | token first' => exact absurd hblank first'.not_blank
    | blank _ more' => rw [ih more']
  | skipLine more ih =>
    cases h' with
    | skipLine more' => exact ih more'

namespace Reader

variable {σ : Type}

/-- The reader has exactly this text before it, and its line ends with a newline. -/
structure Stands (reader : Reader σ) (unread : Unread) : Prop where
  rest : reader.line.rest = unread.current
  replies : reader.channel.replies = unread.later.map .line
  newline : unread.current = [] ∨ unread.current.getLast? = some '\n'

theorem Stands.skipLine {reader : Reader σ} {unread : Unread} (h : reader.Stands unread) :
    reader.skipLine.Stands unread.dropLine :=
  ⟨rfl, h.replies, .inl rfl⟩

variable [Sink σ]

def answers (reader : Reader σ) : List Request → List (Except Stop Token)
  | [] => []
  | .token :: requests => reader.next.1 :: answers reader.next.2 requests
  | .skipLine :: requests => answers reader.skipLine requests

theorem Stands.next_of_token {reader : Reader σ} {unread : Unread} {token : Token} {line : Line}
    (h : reader.Stands unread) (hline : reader.line.next? = some (token, line)) :
    reader.next.1 = .ok token ∧ ∃ blanks rest, FirstToken unread.chars blanks token rest ∧
      reader.next.2.Stands (unread.drop (blanks.length + token.text.length)) := by
  have hcurrent : unread.current.getLast? = some '\n' := by
    refine h.newline.resolve_left fun hnil => ?_
    have hnone : reader.line.next? = none := Line.next?_eq_none_iff.2 (by simp [h.rest, hnil])
    simp [hnone] at hline
  obtain ⟨hnewline, blanks, hfirst⟩ :=
    Line.firstToken_of_next? (h.rest ▸ hcurrent) hline (Unread.charsOf unread.later)
  rw [h.rest] at hfirst
  have hsplit : unread.current = blanks ++ (token.text.toList ++ line.rest) := by
    have hsplit := hfirst.split
    simp only [← List.append_assoc] at hsplit ⊢
    exact List.append_cancel_right hsplit
  have hpos : line.rest ≠ [] := by
    intro hnil
    simp [hnil] at hnewline
  have hlt : blanks.length + token.text.length < unread.current.length := by
    have := List.length_pos_iff.2 hpos
    simp only [hsplit, List.length_append, String.length_toList]
    omega
  have hdrop : unread.current.drop (blanks.length + token.text.length) = line.rest := by
    rw [hsplit, ← List.append_assoc]
    exact List.drop_left' (by simp [String.length_toList])
  rw [Reader.next_of_token hline]
  refine ⟨rfl, blanks, _, hfirst, ?_⟩
  rw [Unread.drop_of_lt hlt, hdrop]
  exact ⟨rfl, h.replies, .inr hnewline⟩

variable [Sink.Reliable σ]

theorem Stands.next {reader : Reader σ} {unread : Unread} (h : reader.Stands unread) :
    (∃ blanks token rest, FirstToken unread.chars blanks token rest ∧ reader.next.1 = .ok token ∧
      reader.next.2.Stands (unread.drop (blanks.length + token.text.length))) ∨
    (∀ c ∈ unread.chars, isBlank c) ∧ reader.next.1 = .error (.ended .endOfInput) ∧
      reader.next.2.Stands ⟨[], []⟩ := by
  obtain ⟨current, later⟩ := unread
  induction later generalizing reader current with
  | nil =>
    cases hline : reader.line.next? with
    | some found =>
      obtain ⟨htoken, blanks, rest, hfirst, hstands⟩ := h.next_of_token hline
      exact .inl ⟨blanks, _, rest, hfirst, htoken, hstands⟩
    | none =>
      rw [next_of_stop hline (fetch_nil h.replies)]
      refine .inr ⟨?_, rfl, rfl, rfl, .inl rfl⟩
      simpa [Unread.chars, Unread.charsOf, h.rest] using Line.next?_eq_none_iff.1 hline
  | cons text later ih =>
    cases hline : reader.line.next? with
    | some found =>
      obtain ⟨htoken, blanks, rest, hfirst, hstands⟩ := h.next_of_token hline
      exact .inl ⟨blanks, _, rest, hfirst, htoken, hstands⟩
    | none =>
      have hblank := Line.next?_eq_none_iff.1 hline
      rw [h.rest] at hblank
      have hfetch := fetch_line h.replies
      have hstands : Stands reader.fetch.2 ⟨text.toList ++ ['\n'], later⟩ := by
        rw [hfetch]
        exact ⟨rfl, rfl, .inr List.getLast?_concat⟩
      rw [hfetch] at hstands
      rw [next_of_fetch hline hfetch]
      have hchars : Unread.chars ⟨current, text :: later⟩ =
          current ++ Unread.chars ⟨text.toList ++ ['\n'], later⟩ := by
        simp [Unread.chars]
      rw [hchars]
      rcases ih _ hstands with ⟨blanks, token, rest, hfirst, htoken, hnext⟩ | ⟨hrest, hstop, hnext⟩
      · refine .inl ⟨_, token, rest, hfirst.append_blanks hblank, htoken, ?_⟩
        rwa [List.length_append, Nat.add_assoc, Unread.drop_add]
      · refine .inr ⟨fun c hc => ?_, hstop, hnext⟩
        exact (List.mem_append.1 hc).elim (hblank c) (hrest c)

/-- A reader answers requests as the text before it does. -/
theorem Stands.answers {reader : Reader σ} {unread : Unread} (h : reader.Stands unread)
    (requests : List Request) : Answers unread requests (reader.answers requests) := by
  induction requests generalizing reader unread with
  | nil => exact .nil
  | cons request requests ih =>
    cases request with
    | token =>
      unfold Reader.answers
      rcases h.next with ⟨blanks, token, rest, hfirst, htoken, hnext⟩ | ⟨hblank, hstop, hnext⟩
      · rw [htoken]
        exact .token hfirst (ih hnext)
      · rw [hstop]
        exact .blank hblank (ih hnext)
    | skipLine => exact .skipLine (ih h.skipLine)

/-- Delivering all tokens leaves out nothing but blanks, and stops where the input ends. -/
theorem Stands.drain {reader : Reader σ} {unread : Unread} (h : reader.Stands unread) :
    (reader.drain.1.flatMap fun found => found.1.text.toList) =
        unread.chars.filter (fun c => !isBlank c) ∧
      reader.drain.2.1 = .ended .endOfInput := by
  fun_induction Reader.drain reader generalizing unread with
  | case1 reader token reader' hnext tokens stop last hdrain ih =>
    rcases h.next with ⟨blanks, token', rest, hfirst, htoken, hstands⟩ | ⟨-, hstop, -⟩
    · rw [hnext] at htoken hstands
      obtain rfl := Except.ok.inj htoken
      obtain ⟨htexts, hend⟩ := ih hstands
      rw [hdrain] at htexts hend
      refine ⟨?_, hend⟩
      have hchars : (unread.drop (blanks.length + token.text.length)).chars = rest := by
        rw [Unread.chars_drop, hfirst.split, ← List.append_assoc]
        exact List.drop_left' (by simp [String.length_toList])
      have hblanks : blanks.filter (fun c => !isBlank c) = [] := by
        simpa using hfirst.blank
      have htoken : token.text.toList.filter (fun c => !isBlank c) = token.text.toList := by
        simpa using hfirst.token_visible
      rw [hfirst.split, List.filter_append, List.filter_append, hblanks, htoken, ← hchars,
        ← htexts]
      rfl
    · rw [hnext] at hstop
      simp at hstop
  | case2 reader stop reader' hnext =>
    rcases h.next with ⟨blanks, token, rest, -, htoken, -⟩ | ⟨hblank, hstop, -⟩
    · rw [hnext] at htoken
      simp at htoken
    · rw [hnext] at hstop
      refine ⟨?_, Except.error.inj hstop⟩
      simpa using hblank

/-- A reader over some lines answers every sequence of requests as the text of the lines does, and
in no other way. If it is asked for tokens only, their texts in order are the characters of the
lines that are not blank. -/
theorem answers_as_text (prompt : String) (sink : σ) (lines : List String) :
    let reader : Reader σ := { channel := { replies := lines.map .line, sink }, prompt }
    (∀ requests answers,
      reader.answers requests = answers ↔ Answers ⟨[], lines⟩ requests answers) ∧
    (reader.drain.1.flatMap fun found => found.1.text.toList) =
      (lines.flatMap String.toList).filter (fun c => !isBlank c) ∧
    reader.drain.2.1 = .ended .endOfInput := by
  intro reader
  have hstands : reader.Stands ⟨[], lines⟩ := ⟨rfl, rfl, .inl rfl⟩
  refine ⟨fun requests answers => ⟨?_, ?_⟩, ?_, hstands.drain.2⟩
  · rintro rfl
    exact hstands.answers requests
  · exact fun h => (hstands.answers requests).unique h
  · rw [hstands.drain.1]
    exact Unread.filter_charsOf lines

/-- A point that no digit precedes is no part of a number, and the rest of a line can be given up
in the middle of it. -/
theorem answers_of_two_lines :
    Answers ⟨[], ["1.2.3x 4", "é_9 @"]⟩ [.token, .token, .skipLine, .token]
      [.ok ⟨.number, "1.2"⟩, .ok ⟨.invalid, "."⟩, .ok ⟨.identifier, "é_9"⟩] :=
  (answers_as_text ">> " ({} : Paper) ["1.2.3x 4", "é_9 @"]).1 _ _ |>.1 (by decide +kernel)

end Reader

end ReversePolish
