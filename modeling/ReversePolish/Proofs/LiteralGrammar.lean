import Mathlib.Data.List.Forall2
import ReversePolish.Expression
import ReversePolish.Proofs.NumberRoundTrip

/-!
# The grammar of literals

The texts that denote numbers, put together from their parts: a sign and a word, or a sign, digits
with at most one point, and an exponent. Reading accepts these texts and no others.
-/

namespace ReversePolish

namespace Literal

/-- What may stand in front of a literal, or of the digits of its exponent. -/
inductive Sign where
  | absent
  | plus
  | minus
  deriving DecidableEq

namespace Sign

def chars : Sign → List Char
  | absent => []
  | plus => ['+']
  | minus => ['-']

def isMinus : Sign → Bool
  | absent | plus => false
  | minus => true

end Sign

/-- The end of a literal that scales it by a power of ten. -/
structure Exponent where
  mark : Char
  sign : Sign
  digits : List Char
  isMark : mark = 'e' ∨ mark = 'E'
  isDigit : ∀ c ∈ digits, c.isDigit
  ne_nil : digits ≠ []

namespace Exponent

def chars (exponent : Exponent) : List Char :=
  exponent.mark :: (exponent.sign.chars ++ exponent.digits)

def value (exponent : Exponent) : Int :=
  let magnitude : Int := Nat.ofDigitChars 10 exponent.digits 0
  if exponent.sign.isMinus then -magnitude else magnitude

end Exponent

/-- An unsigned literal in digits. There is a point exactly if there is a fraction, which may be
empty. -/
structure Numeral where
  whole : List Char
  fraction : Option (List Char) := none
  exponent : Option Exponent := none
  isDigit_whole : ∀ c ∈ whole, c.isDigit
  isDigit_fraction : ∀ c ∈ fraction.getD [], c.isDigit
  ne_nil : whole ≠ [] ∨ fraction.getD [] ≠ []

namespace Numeral

def scaling (numeral : Numeral) : List Char := numeral.exponent.elim [] Exponent.chars

def chars (numeral : Numeral) : List Char :=
  numeral.whole ++ (numeral.fraction.elim [] ('.' :: ·) ++ numeral.scaling)

def exponentValue (numeral : Numeral) : Int := numeral.exponent.elim 0 Exponent.value

def digits (numeral : Numeral) : List Char := numeral.whole ++ numeral.fraction.getD []

/-- The decimal that a numeral denotes, its exponent read as `e`. -/
def scaled (numeral : Numeral) (e : Int) : Decimal :=
  ⟨Nat.ofDigitChars 10 numeral.digits 0, e - (numeral.fraction.getD []).length⟩

end Numeral

/-- A text is a word but for the case of its letters. -/
def Spells (text : List Char) (word : String) : Prop :=
  List.Forall₂ (fun c letter => c = letter ∨ c = letter.toUpper) text word.toList

end Literal

open Literal

/-- A literal is an optional sign and then a word for infinity or NaN in any letter case, or a
numeral. -/
inductive IsLiteral : List Char → Prop
  | word (sign : Sign) {text : List Char} {word : String}
      (mem : word ∈ ["inf", "infinity", "nan"]) (spells : Spells text word) :
      IsLiteral (sign.chars ++ text)
  | numeral (sign : Sign) (numeral : Numeral) : IsLiteral (sign.chars ++ numeral.chars)

namespace Literal

theorem toNat_toLower (c : Char) :
    c.toLower.toNat = if 65 ≤ c.toNat ∧ c.toNat ≤ 90 then c.toNat + 32 else c.toNat := by
  have hcond : (c.val ≥ 'A'.val ∧ c.val ≤ 'Z'.val) ↔ 65 ≤ c.toNat ∧ c.toNat ≤ 90 := Iff.rfl
  unfold Char.toLower
  split
  · next h =>
    have hbounds := hcond.1 h
    have hstep : ('a'.val - 'A'.val).toNat = 32 := by decide
    rw [if_pos hbounds, ← Char.toNat_val, UInt32.toNat_add, hstep, Char.toNat_val]
    omega
  · next h => rw [if_neg (mt hcond.2 h)]

theorem toNat_toUpper (c : Char) :
    c.toUpper.toNat = if 97 ≤ c.toNat ∧ c.toNat ≤ 122 then c.toNat - 32 else c.toNat := by
  have hcond : ('a'.val ≤ c.val ∧ c.val ≤ 'z'.val) ↔ 97 ≤ c.toNat ∧ c.toNat ≤ 122 := Iff.rfl
  unfold Char.toUpper
  split
  · next h =>
    have hbounds := hcond.1 h
    have hstep : ('A'.val - 'a'.val).toNat = 2 ^ 32 - 32 := by decide
    rw [if_pos hbounds, ← Char.toNat_val, UInt32.toNat_add, hstep, Char.toNat_val]
    omega
  · next h => rw [if_neg (mt hcond.2 h)]

theorem toLower_eq_iff {c letter : Char} (h : letter.isLower) :
    c.toLower = letter ↔ c = letter ∨ c = letter.toUpper := by
  have hletter : 97 ≤ letter.toNat ∧ letter.toNat ≤ 122 := by
    obtain ⟨hlow, hhigh⟩ := Bool.and_eq_true_iff.1 h
    exact ⟨of_decide_eq_true hlow, of_decide_eq_true hhigh⟩
  rw [← Char.toNat_inj, ← Char.toNat_inj, ← Char.toNat_inj, toNat_toLower, toNat_toUpper,
    if_pos hletter]
  split <;> omega

theorem spells_iff {word : String} (h : ∀ letter ∈ word.toList, letter.isLower)
    (text : List Char) : Spells text word ↔ String.ofList (text.map Char.toLower) = word := by
  rw [← String.toList_inj, String.toList_ofList, Spells]
  generalize word.toList = letters at h ⊢
  induction text generalizing letters with
  | nil => cases letters <;> simp
  | cons c text ih =>
    cases letters with
    | nil => simp
    | cons letter letters =>
      obtain ⟨hletter, hletters⟩ := List.forall_mem_cons.1 h
      rw [List.forall₂_cons, ih letters hletters, List.map_cons, List.cons.injEq,
        toLower_eq_iff hletter]

/-- In front of anything but another sign, a sign is taken off. -/
theorem splitSign_chars (sign : Sign) {text : List Char}
    (h : ∀ c ∈ text.head?, c ≠ '-' ∧ c ≠ '+') :
    Decimal.splitSign (sign.chars ++ text) = (sign.isMinus, text) := by
  cases sign with
  | plus | minus => rfl
  | absent =>
    cases text with
    | nil => rfl
    | cons first text =>
      obtain ⟨hminus, hplus⟩ := h first rfl
      exact Decimal.splitSign_of_ne hminus hplus text

theorem exists_sign (text : List Char) :
    ∃ sign : Sign, sign.chars ++ (Decimal.splitSign text).2 = text := by
  unfold Decimal.splitSign
  split
  · exact ⟨.minus, rfl⟩
  · exact ⟨.plus, rfl⟩
  · exact ⟨.absent, rfl⟩

theorem ne_sign_of_isDigit {c : Char} (h : c.isDigit) : c ≠ '-' ∧ c ≠ '+' := by
  constructor <;> rintro rfl <;> exact absurd h (by decide)

/-- The exponent of a literal is read, large ones cut short. -/
theorem Exponent.exponent?_chars (exponent : Exponent) :
    let kept : Int := Decimal.exponentOfDigits exponent.digits
    Decimal.exponent? exponent.chars = some (if exponent.sign.isMinus then -kept else kept) := by
  have hhead : ∀ c ∈ exponent.digits.head?, c ≠ '-' ∧ c ≠ '+' :=
    fun c hc => ne_sign_of_isDigit (exponent.isDigit c (List.mem_of_mem_head? hc))
  have hsplit := splitSign_chars exponent.sign hhead
  have hall : exponent.digits.all Char.isDigit = true := List.all_eq_true.2 exponent.isDigit
  simp only [Exponent.chars, Decimal.exponent?, hsplit]
  exact if_pos ⟨exponent.isMark, exponent.ne_nil, hall⟩

theorem Numeral.exists_exponent? (numeral : Numeral) :
    ∃ e, Decimal.exponent? numeral.scaling = some e := by
  rw [Numeral.scaling]
  cases numeral.exponent with
  | none => exact ⟨0, rfl⟩
  | some exponent => exact ⟨_, exponent.exponent?_chars⟩

theorem Numeral.exponent?_scaling {numeral : Numeral} (h : numeral.exponentValue.natAbs < 65536) :
    Decimal.exponent? numeral.scaling = some numeral.exponentValue := by
  rw [Numeral.exponentValue] at h ⊢
  rw [Numeral.scaling]
  cases hexponent : numeral.exponent with
  | none => rfl
  | some exponent =>
    rw [hexponent] at h
    have hdigits : Nat.ofDigitChars 10 exponent.digits 0 < 65536 := by
      simp only [Option.elim, Exponent.value] at h
      split at h <;> omega
    have hread := exponent.exponent?_chars
    rw [Decimal.exponentOfDigits_eq hdigits] at hread
    exact hread

/-- Whatever its exponent is read as, a numeral denotes its digits scaled by it. -/
theorem Numeral.ofText?_chars (numeral : Numeral) {e : Int}
    (h : Decimal.exponent? numeral.scaling = some e) :
    Decimal.ofText? numeral.chars = some (numeral.scaled e) := by
  obtain ⟨whole, fraction, exponent, hwhole, hfraction, hne⟩ := numeral
  cases fraction with
  | none =>
    have hne' : whole ≠ [] := hne.resolve_right fun h => h rfl
    refine (Decimal.ofText?_whole hne' hwhole h).trans ?_
    simp [scaled, digits]
  | some fraction => exact Decimal.ofText?_point whole fraction hne hwhole hfraction h

theorem Numeral.head_chars (numeral : Numeral) :
    ∀ c ∈ numeral.chars.head?, c ≠ '-' ∧ c ≠ '+' := by
  obtain ⟨e, he⟩ := numeral.exists_exponent?
  obtain ⟨first, others, hchars, hfirst⟩ := Decimal.head_of_ofText? (numeral.ofText?_chars he)
  intro c hc
  rw [hchars, List.head?_cons, Option.mem_some_iff] at hc
  obtain rfl := hc
  rcases hfirst with hdigit | rfl
  · exact ne_sign_of_isDigit hdigit
  · decide

theorem exists_exponent {ending : List Char} {e : Int}
    (h : Decimal.exponent? ending = some e) :
    ∃ exponent : Option Exponent, exponent.elim [] Exponent.chars = ending := by
  match ending with
  | [] => exact ⟨none, rfl⟩
  | mark :: text =>
    obtain ⟨sign, htext⟩ := exists_sign text
    simp only [Decimal.exponent?] at h
    split at h
    · next hparts =>
      obtain ⟨hmark, hne, hdigits⟩ := hparts
      refine ⟨some ⟨mark, sign, _, hmark, List.all_eq_true.1 hdigits, hne⟩, ?_⟩
      exact congrArg (mark :: ·) htext
    · simp at h

theorem isDigit_of_mem_takeWhile {c : Char} {text : List Char}
    (h : c ∈ text.takeWhile Char.isDigit) : c.isDigit :=
  List.all_eq_true.1 List.all_takeWhile c h

/-- What denotes a decimal is a numeral. -/
theorem exists_numeral {text : List Char} {d : Decimal} (h : Decimal.ofText? text = some d) :
    ∃ numeral : Numeral, numeral.chars = text := by
  have hparts := List.takeWhile_append_dropWhile (p := Char.isDigit) (l := text)
  simp only [Decimal.ofText?] at h
  split at h
  · simp at h
  · next hne =>
    obtain ⟨e, hending, -⟩ := Option.map_eq_some_iff.1 h
    obtain ⟨exponent, hexponent⟩ := exists_exponent hending
    rw [Classical.not_and_iff_not_or_not] at hne
    unfold Decimal.splitFraction at hne hexponent
    split at hne
    · next rest htail =>
      have hrest := List.takeWhile_append_dropWhile (p := Char.isDigit) (l := rest)
      rw [htail] at hexponent hparts
      refine ⟨⟨text.takeWhile Char.isDigit, some (rest.takeWhile Char.isDigit), exponent,
        fun c => isDigit_of_mem_takeWhile, fun c => isDigit_of_mem_takeWhile, hne⟩, ?_⟩
      rw [Numeral.chars, Numeral.scaling, hexponent]
      exact (congrArg (_ ++ '.' :: ·) hrest).trans hparts
    · next hpoint =>
      refine ⟨⟨text.takeWhile Char.isDigit, none, exponent, fun c => isDigit_of_mem_takeWhile,
        by simp, hne⟩, ?_⟩
      rw [Numeral.chars, Numeral.scaling, hexponent]
      split
      · next rest htail => exact absurd htail (hpoint rest)
      · exact hparts

end Literal

namespace Binary64

theorem isLower_of_mem_words :
    ∀ word ∈ ["inf", "infinity", "nan"], ∀ letter ∈ word.toList, letter.isLower := by
  have hall : ∀ word ∈ ["inf", "infinity", "nan"], word.toList.all Char.isLower := by decide
  exact fun word hword => List.all_eq_true.1 (hall word hword)

theorem read?_word (sign : Sign) {text : List Char} {word : String}
    (hword : word ∈ ["inf", "infinity", "nan"]) (hspells : Spells text word) :
    read? (String.ofList (sign.chars ++ text)) =
      some (if word = "nan" then .nan else .infinite sign.isMinus) := by
  have hlower := isLower_of_mem_words word hword
  have hspelled := (spells_iff hlower text).1 hspells
  have hhead : ∀ c ∈ text.head?, c ≠ '-' ∧ c ≠ '+' := by
    intro c hc
    have hmem : c.toLower ∈ word.toList := by
      rw [← hspelled, String.toList_ofList]
      exact List.mem_map_of_mem (List.mem_of_mem_head? hc)
    have hletter := hlower c.toLower hmem
    constructor <;> rintro rfl <;> exact absurd hletter (by decide)
  rw [read?, String.toList_ofList, splitSign_chars sign hhead]
  dsimp only
  rw [hspelled]
  simp only [List.mem_cons, List.not_mem_nil, or_false] at hword
  rcases hword with rfl | rfl | rfl <;> rfl

theorem read?_numeral (sign : Sign) (numeral : Numeral) {e : Int}
    (h : Decimal.exponent? numeral.scaling = some e) :
    read? (String.ofList (sign.chars ++ numeral.chars)) =
      some ((numeral.scaled e).toBinary64 sign.isMinus) :=
  read?_of_splitSign (splitSign_chars sign numeral.head_chars) (numeral.ofText?_chars h)

theorem exists_read?_of_isLiteral {text : List Char} (h : IsLiteral text) :
    ∃ value, read? (String.ofList text) = some value := by
  cases h with
  | word sign mem spells => exact ⟨_, read?_word sign mem spells⟩
  | numeral sign numeral =>
    obtain ⟨e, he⟩ := numeral.exists_exponent?
    exact ⟨_, read?_numeral sign numeral he⟩

theorem isLiteral_of_read? {text : String} {value : Binary64} (h : read? text = some value) :
    IsLiteral text.toList := by
  obtain ⟨sign, htext⟩ := exists_sign text.toList
  rw [← htext]
  simp only [read?] at h
  have hword : ∀ word ∈ ["inf", "infinity", "nan"],
      String.ofList ((Decimal.splitSign text.toList).2.map Char.toLower) = word →
        IsLiteral (sign.chars ++ (Decimal.splitSign text.toList).2) :=
    fun word hmem hspelled =>
      .word sign hmem ((spells_iff (isLower_of_mem_words word hmem) _).2 hspelled)
  split at h
  · next heq => exact hword _ (by simp) heq
  · next heq => exact hword _ (by simp) heq
  · next heq => exact hword _ (by simp) heq
  · obtain ⟨d, hd, -⟩ := Option.map_eq_some_iff.1 h
    obtain ⟨numeral, hnumeral⟩ := exists_numeral hd
    rw [← hnumeral]
    exact .numeral sign numeral

end Binary64

/-- A text has a value exactly if it is a literal. Any other text is refused, as it stands. -/
theorem numberValue_accepts_literals (text : String) :
    ((∃ value, numberValue text = .ok value) ↔ IsLiteral text.toList) ∧
    (numberValue text = .error (.unreadable text) ↔ ¬IsLiteral text.toList) := by
  have hread : IsLiteral text.toList ↔ ∃ value, Binary64.read? text = some value := by
    refine ⟨fun h => ?_, fun ⟨value, hvalue⟩ => Binary64.isLiteral_of_read? hvalue⟩
    have hsome := Binary64.exists_read?_of_isLiteral h
    rwa [String.ofList_toList] at hsome
  rw [hread, numberValue]
  cases Binary64.read? text <;> simp

/-- A sign, a point without digits before it, and an exponent. -/
example : numberValue "+.5e-1" = .ok (.ofBits 0x3fa999999999999a) ∧
    numberValue "1e" = .error (.unreadable "1e") := by
  decide +kernel

end ReversePolish
