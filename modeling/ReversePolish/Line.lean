import ReversePolish.Token

/-!
# The line being read

A line is kept as the characters already taken, the latest first, and those still to come. It ends
with a newline, so that a number or a name ends before the line does. Before the first line is
loaded both parts are empty.
-/

namespace ReversePolish

structure Line where
  taken : List Char := []
  rest : List Char := []
  deriving DecidableEq

namespace Line

/-- The start of a line of text, its newline added. -/
def load (text : String) : Line := ⟨[], text.toList ++ ['\n']⟩

def position (line : Line) : Nat := line.taken.length

def chars (line : Line) : List Char := line.taken.reverse ++ line.rest

def text (line : Line) : String := String.ofList line.chars.dropLast

def exhaust (line : Line) : Line := ⟨line.rest.reverse ++ line.taken, []⟩

/-- The next token of the line and the place after it, or nothing if only blanks are left. -/
def next? (line : Line) : Option (Token × Line) :=
  match line.rest.dropWhile isBlank with
  | [] => none
  | first :: others =>
    let lexeme := Token.lexeme first others
    let passed := line.rest.takeWhile isBlank ++ lexeme.chars
    some (lexeme.token, ⟨passed.reverse ++ line.taken, lexeme.rest⟩)

@[simp] theorem rest_load (text : String) : (load text).rest.length = text.toList.length + 1 := by
  simp [load]

@[simp] theorem rest_exhaust (line : Line) : line.exhaust.rest = [] := rfl

@[simp] theorem chars_exhaust (line : Line) : line.exhaust.chars = line.chars := by
  simp [exhaust, chars]

theorem chars_of_next? {line line' : Line} {token : Token}
    (h : line.next? = some (token, line')) : line'.chars = line.chars := by
  unfold next? at h
  split at h
  · simp at h
  · next first others hrest =>
    obtain ⟨-, rfl⟩ := Prod.mk.inj (Option.some.inj h)
    have hsplit := List.takeWhile_append_dropWhile (p := isBlank) (l := line.rest)
    rw [hrest, ← Token.lexeme_append] at hsplit
    simp only [chars, List.reverse_append, List.reverse_reverse, List.append_assoc]
    rw [hsplit]

theorem rest_length_of_next? {line line' : Line} {token : Token}
    (h : line.next? = some (token, line')) : line'.rest.length < line.rest.length := by
  unfold next? at h
  split at h
  · simp at h
  · next first others hrest =>
    obtain ⟨-, rfl⟩ := Prod.mk.inj (Option.some.inj h)
    have hdrop := (List.dropWhile_suffix (l := line.rest) isBlank).length_le
    have hrest' := Token.lexeme_rest_length_le first others
    rw [hrest, List.length_cons] at hdrop
    exact Nat.lt_of_le_of_lt hrest' hdrop

end Line

end ReversePolish
