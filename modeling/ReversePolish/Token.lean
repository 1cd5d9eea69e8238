import ReversePolish.Text.Blank
import ReversePolish.Text.Letter

/-!
# Tokens

A token is a number, a name or a single character. Scanning takes the longest number or name that
begins at a character; blanks only separate.
-/

namespace ReversePolish

inductive Operator where
  | add
  | subtract
  | multiply
  | divide
  deriving DecidableEq

inductive Token.Kind where
  | operator (op : Operator)
  | negate
  | assign
  | endMark
  | number
  | identifier
  | invalid
  deriving DecidableEq

/-- A kind of token with the characters it was read from. -/
structure Token where
  kind : Token.Kind
  text : String
  deriving DecidableEq

namespace Token

/-- The kind of a character that begins neither a number nor a name. -/
def Kind.ofSymbol : Char → Kind
  | '+' => .operator .add
  | '-' => .operator .subtract
  | '*' => .operator .multiply
  | '/' => .operator .divide
  | '~' => .negate
  | '=' => .assign
  | '@' => .endMark
  | _ => .invalid

def Kind.name : Kind → String
  | operator .add => "Add"
  | operator .subtract => "Subtract"
  | operator .multiply => "Multiply"
  | operator .divide => "Divide"
  | negate => "Negate"
  | assign => "Assign"
  | endMark => "EndOfLine"
  | number => "Number"
  | identifier => "Variable"
  | invalid => "Invalid"

def isNameChar (c : Char) : Bool := isLetter c || c.isDigit || c == '_'

/-- The longest number at the front of a text, and what follows it. -/
def splitNumber (text : List Char) : List Char × List Char :=
  let whole := text.takeWhile Char.isDigit
  match text.dropWhile Char.isDigit with
  | '.' :: rest => (whole ++ '.' :: rest.takeWhile Char.isDigit, rest.dropWhile Char.isDigit)
  | rest => (whole, rest)

/-- A token as the characters it takes from the front of a text, and what it leaves. -/
structure Lexeme where
  kind : Kind
  chars : List Char
  rest : List Char

def Lexeme.token (lexeme : Lexeme) : Token := ⟨lexeme.kind, String.ofList lexeme.chars⟩

def lexeme (first : Char) (others : List Char) : Lexeme :=
  if first.isDigit then
    let (chars, rest) := splitNumber (first :: others)
    ⟨.number, chars, rest⟩
  else if isLetter first then
    ⟨.identifier, first :: others.takeWhile isNameChar, others.dropWhile isNameChar⟩
  else ⟨.ofSymbol first, [first], others⟩

theorem splitNumber_append (text : List Char) :
    (splitNumber text).1 ++ (splitNumber text).2 = text := by
  have hsplit := List.takeWhile_append_dropWhile (p := Char.isDigit) (l := text)
  unfold splitNumber
  split
  · next rest htail =>
    rw [htail] at hsplit
    simpa [List.takeWhile_append_dropWhile] using hsplit
  · exact hsplit

theorem splitNumber_ne_nil {first : Char} (h : first.isDigit) (others : List Char) :
    (splitNumber (first :: others)).1 ≠ [] := by
  unfold splitNumber
  split <;> simp [h]

/-- A lexeme loses nothing and reorders nothing. -/
theorem lexeme_append (first : Char) (others : List Char) :
    (lexeme first others).chars ++ (lexeme first others).rest = first :: others := by
  unfold lexeme
  split
  · exact splitNumber_append (first :: others)
  · split <;> simp [List.takeWhile_append_dropWhile]

theorem lexeme_chars_ne_nil (first : Char) (others : List Char) :
    (lexeme first others).chars ≠ [] := by
  unfold lexeme
  split
  · next h => exact splitNumber_ne_nil h others
  · split <;> simp

theorem lexeme_rest_length_le (first : Char) (others : List Char) :
    (lexeme first others).rest.length ≤ others.length := by
  have happend := congrArg List.length (lexeme_append first others)
  have hpos := List.length_pos_iff.2 (lexeme_chars_ne_nil first others)
  simp only [List.length_append, List.length_cons] at happend
  omega

end Token

end ReversePolish
