import ReversePolish.Decimal.Basic

/-!
# Reading number literals

A literal is an optional sign and then a word for infinity or NaN in any letter case, or decimal
digits with at most one point and at least one digit, and an optional exponent. The value is the
binary64 number nearest to what the literal denotes.
-/

namespace ReversePolish.Decimal

/-- Whether a literal begins with a minus, and the text after its sign. -/
def splitSign : List Char → Bool × List Char
  | '-' :: text => (true, text)
  | '+' :: text => (false, text)
  | text => (false, text)

/-- An exponent from its digits. Digits after the value has reached `65536` are dropped, which
bounds the powers of ten that reading computes. -/
def exponentOfDigits (digits : List Char) : Nat :=
  digits.foldl (fun e c => if e < 65536 then 10 * e + (c.toNat - '0'.toNat) else e) 0

/-- The exponent that the text after the digits of a literal denotes; none means zero. -/
def exponent? : List Char → Option Int
  | [] => some 0
  | mark :: text =>
    let (negative, digits) := splitSign text
    if (mark = 'e' ∨ mark = 'E') ∧ digits ≠ [] ∧ digits.all Char.isDigit then
      let e : Int := exponentOfDigits digits
      some (if negative then -e else e)
    else none

def splitFraction : List Char → List Char × List Char
  | '.' :: text => (text.takeWhile Char.isDigit, text.dropWhile Char.isDigit)
  | text => ([], text)

def ofText? (text : List Char) : Option Decimal :=
  let whole := text.takeWhile Char.isDigit
  let (fraction, ending) := splitFraction (text.dropWhile Char.isDigit)
  if whole = [] ∧ fraction = [] then none
  else (exponent? ending).map fun e =>
    ⟨Nat.ofDigitChars 10 (whole ++ fraction) 0, e - fraction.length⟩

end ReversePolish.Decimal

namespace ReversePolish.Binary64

/-- The number that a literal denotes, or nothing if the text is no literal. -/
def read? (text : String) : Option Binary64 :=
  let (negative, unsigned) := Decimal.splitSign text.toList
  match String.ofList (unsigned.map Char.toLower) with
  | "inf" | "infinity" => some (.infinite negative)
  | "nan" => some .nan
  | _ => (Decimal.ofText? unsigned).map (Decimal.toBinary64 negative)

end ReversePolish.Binary64
