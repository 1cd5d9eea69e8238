import ReversePolish.Decimal.Shortest

/-!
# Writing numbers

The digits are those of the shortest decimal that reads back. A layout says which magnitudes are
written positionally and which with an exponent, how a whole number ends, and the word for infinity.
-/

namespace ReversePolish

/-- The decisions that a written form leaves open once its digits are known. -/
structure Layout where
  /-- The least power of ten of a first digit that is written positionally. -/
  lowest : Int
  /-- The least power of ten, above `lowest`, of a first digit that needs an exponent. -/
  beyond : Int
  /-- What follows a whole number in positional form. -/
  wholeEnding : List Char
  /-- The word for an unsigned infinity. -/
  infinity : List Char

namespace Layout

/-- Results are positional from `1e-6` up to `1e16`, and whole numbers have no point. -/
def result : Layout := ⟨-6, 16, [], "Infinity".toList⟩

/-- Journal entries are positional from `1e-4` up to `1e16`, and whole numbers end in a zero. -/
def journal : Layout := ⟨-4, 16, ".0".toList, "inf".toList⟩

/-- Digits without an exponent; `lead` is the power of ten of the first digit. -/
def positional (layout : Layout) (digits : List Char) (lead : Int) : List Char :=
  if lead < 0 then '0' :: '.' :: (List.replicate (-lead - 1).toNat '0' ++ digits)
  else
    let places := lead.toNat + 1
    if digits.length ≤ places then
      digits ++ List.replicate (places - digits.length) '0' ++ layout.wholeEnding
    else digits.take places ++ '.' :: digits.drop places

def scientific (digits : List Char) (lead : Int) : List Char :=
  let mantissa := match digits with
    | first :: second :: others => first :: '.' :: second :: others
    | short => short
  mantissa ++ 'e' :: (toString lead).toList

def magnitude (layout : Layout) (d : Decimal) : List Char :=
  let digits := Nat.toDigits 10 d.coefficient
  let lead := d.exponent + digits.length - 1
  if layout.lowest ≤ lead ∧ lead < layout.beyond then layout.positional digits lead
  else scientific digits lead

def signed (negative : Bool) (text : List Char) : List Char :=
  if negative then '-' :: text else text

end Layout

def Binary64.write (layout : Layout) : Binary64 → String
  | nan => "NaN"
  | infinite negative => String.ofList (Layout.signed negative layout.infinity)
  | finite negative rank =>
    String.ofList (Layout.signed negative (layout.magnitude (Decimal.shortest rank)))

end ReversePolish
