import Mathlib.Data.List.Basic
import ReversePolish.Text.Utf8

/-!
# Characters as bytes

A character is written as a first byte that tells how many more there are, and these more carry six
bits each. So the decoder knows at every byte which ones may follow: a sequence is open as long as
some character's bytes begin with it, and its value and range describe these characters.
-/

namespace ReversePolish

-- Powers are those of the core library, also where another one brings its own.
attribute [local instance (high)] instPowNat

open String (utf8EncodeChar)

def furtherBytes (value : Nat) : Nat :=
  if value < 0x80 then 0 else if value < 0x800 then 1 else if value < 0x10000 then 2 else 3

def leadMark : Nat → Nat
  | 0 => 0
  | 1 => 0xc0
  | 2 => 0xe0
  | _ => 0xf0

/-- The last bytes of a code point, six bits in each. -/
def lastBytes : Nat → Nat → List UInt8
  | 0, _ => []
  | count + 1, value => UInt8.ofNat (value / 64 ^ count % 64 + 0x80) :: lastBytes count value

@[simp] theorem length_lastBytes (count value : Nat) : (lastBytes count value).length = count := by
  induction count with
  | zero => rfl
  | succ count ih => rw [lastBytes, List.length_cons, ih]

theorem lastBytes_add (count front value : Nat) :
    lastBytes count (front * 64 ^ count + value) = lastBytes count value := by
  induction count generalizing front with
  | zero => rfl
  | succ count ih =>
    have hsplit : front * 64 ^ (count + 1) = front * 64 * 64 ^ count := by
      rw [Nat.pow_succ, Nat.mul_assoc, Nat.mul_comm 64]
    have hdiv :
        (front * 64 * 64 ^ count + value) / 64 ^ count = front * 64 + value / 64 ^ count := by
      rw [Nat.add_comm, Nat.add_mul_div_right _ _ (Nat.pow_pos (by decide)), Nat.add_comm]
    have hbits : (front * 64 + value / 64 ^ count) % 64 = value / 64 ^ count % 64 := by omega
    rw [lastBytes, lastBytes, hsplit, ih, hdiv, hbits]

theorem toNat_lt (c : Char) : c.toNat < 0x110000 := by
  rcases c.valid with h | ⟨-, h⟩
  · exact Nat.lt_trans h (by decide)
  · exact h

theorem toNat_ofNat {value : Nat} (h : value.isValidChar) : (Char.ofNat value).toNat = value := by
  rw [Char.ofNat, dif_pos h]
  rfl

/-- The encoding of a character is its first byte and the last ones. -/
theorem utf8EncodeChar_eq (c : Char) :
    utf8EncodeChar c =
      UInt8.ofNat (leadMark (furtherBytes c.toNat) + c.toNat / 64 ^ furtherBytes c.toNat) ::
        lastBytes (furtherBytes c.toNat) c.toNat := by
  have hlt := toNat_lt c
  have hval : c.val.toNat = c.toNat := rfl
  simp only [utf8EncodeChar, furtherBytes, hval]
  by_cases hone : c.toNat < 0x80
  · rw [if_pos (by omega), if_pos hone]
    simp [leadMark, lastBytes]
  · rw [if_neg (by omega), if_neg hone]
    by_cases htwo : c.toNat < 0x800
    · have hbits : c.toNat / 64 % 0x20 = c.toNat / 64 := by omega
      rw [if_pos (by omega), if_pos htwo, hbits, Nat.add_comm (c.toNat / 64)]
      simp [leadMark, lastBytes]
    · rw [if_neg (by omega), if_neg htwo]
      by_cases hthree : c.toNat < 0x10000
      · have hbits : c.toNat / 4096 % 0x10 = c.toNat / 4096 := by omega
        rw [if_pos (by omega), if_pos hthree, hbits, Nat.add_comm (c.toNat / 4096)]
        simp [leadMark, lastBytes]
      · have hbits : c.toNat / 262144 % 0x08 = c.toNat / 262144 := by omega
        rw [if_neg (by omega), if_neg hthree, hbits, Nat.add_comm (c.toNat / 262144)]
        simp [leadMark, lastBytes]

namespace OpenSequence

/-- The bits that an open sequence still admits. -/
def Admits (sequence : OpenSequence) (bits : Nat) : Prop :=
  bits < 64 ^ (sequence.further + 1) ∧
    sequence.low.toNat ≤ bits / 64 ^ sequence.further + 0x80 ∧
    bits / 64 ^ sequence.further + 0x80 ≤ sequence.high.toNat

def codePoint (sequence : OpenSequence) (bits : Nat) : Nat :=
  sequence.value * 64 ^ (sequence.further + 1) + bits

end OpenSequence

/-- The characters whose bytes begin in a certain way, without being complete, are those that an
open sequence describes. -/
structure Opened (front : List UInt8) (sequence : OpenSequence) : Prop where
  ne_nil : front ≠ []
  low : 0x80 ≤ sequence.low.toNat
  range : sequence.low.toNat ≤ sequence.high.toNat
  high : sequence.high.toNat ≤ 0xbf
  incomplete : ∀ c, ¬utf8EncodeChar c <+: front
  encodes : ∀ bits, sequence.Admits bits → (sequence.codePoint bits).isValidChar ∧
    utf8EncodeChar (Char.ofNat (sequence.codePoint bits)) =
      front ++ lastBytes (sequence.further + 1) bits
  only : ∀ c, front <+: utf8EncodeChar c →
    ∃ bits, sequence.Admits bits ∧ c.toNat = sequence.codePoint bits

def leadByte (value : Nat) : Nat :=
  leadMark (furtherBytes value) + value / 64 ^ furtherBytes value

theorem leadByte_lt (c : Char) : leadByte c.toNat < 0x100 := by
  have hlt := toNat_lt c
  rw [leadByte, furtherBytes]
  split
  · simp only [leadMark]
    omega
  · split
    · simp only [leadMark]
      omega
    · split <;> simp only [leadMark] <;> omega

theorem toNat_eq_leadByte {byte : UInt8} {c : Char} {rest : List UInt8}
    (h : utf8EncodeChar c = byte :: rest) : byte.toNat = leadByte c.toNat := by
  rw [utf8EncodeChar_eq] at h
  have hbyte := congrArg UInt8.toNat (List.cons.inj h).1
  have hlt := leadByte_lt c
  rw [UInt8.toNat_ofNat'] at hbyte
  rw [← hbyte]
  exact Nat.mod_eq_of_lt hlt

theorem opened_lead {byte : UInt8} {sequence : OpenSequence}
    (hlow : 0x80 ≤ sequence.low.toNat) (hrange : sequence.low.toNat ≤ sequence.high.toNat)
    (hhigh : sequence.high.toNat ≤ 0xbf)
    (hvalid : ∀ bits, sequence.Admits bits → (sequence.codePoint bits).isValidChar)
    (hlead : ∀ bits, sequence.Admits bits →
      furtherBytes (sequence.codePoint bits) = sequence.further + 1)
    (hbyte : byte.toNat = leadMark (sequence.further + 1) + sequence.value)
    (honly : ∀ value : Nat, value.isValidChar → byte.toNat = leadByte value →
      furtherBytes value = sequence.further + 1 ∧
        ∃ bits, sequence.Admits bits ∧ value = sequence.codePoint bits) :
    Opened [byte] sequence where
  ne_nil := List.cons_ne_nil byte []
  low := hlow
  range := hrange
  high := hhigh
  incomplete c hbegin := by
    rw [utf8EncodeChar_eq, List.cons_prefix_cons, List.prefix_nil] at hbegin
    have hlength := congrArg List.length hbegin.2
    have hencoded : utf8EncodeChar c = [byte] := by
      rw [utf8EncodeChar_eq, hbegin.1, hbegin.2]
    have hfirst := toNat_eq_leadByte hencoded
    have hmore : furtherBytes c.toNat = _ := (honly _ c.valid hfirst).1
    rw [length_lastBytes, hmore] at hlength
    simp at hlength
  encodes bits hbits := by
    refine ⟨hvalid bits hbits, ?_⟩
    have hvalue : sequence.codePoint bits / 64 ^ (sequence.further + 1) = sequence.value := by
      rw [OpenSequence.codePoint, Nat.add_comm,
        Nat.add_mul_div_right _ _ (Nat.pow_pos (by decide)), Nat.div_eq_of_lt hbits.1, Nat.zero_add]
    rw [utf8EncodeChar_eq, toNat_ofNat (hvalid bits hbits), hlead bits hbits, hvalue, ← hbyte,
      UInt8.ofNat_toNat, OpenSequence.codePoint, lastBytes_add]
    rfl
  only c hbegin := by
    obtain ⟨rest, hrest⟩ := hbegin
    exact (honly _ c.valid (toNat_eq_leadByte hrest.symm)).2

namespace Opened

variable {front : List UInt8} {sequence : OpenSequence} {byte : UInt8}

theorem admits_cons (h : Opened front sequence) (hlow : sequence.low ≤ byte)
    (hhigh : byte ≤ sequence.high) {more : Nat} (hmore : more < 64 ^ sequence.further) :
    let bits := (byte.toNat - 0x80) * 64 ^ sequence.further + more
    sequence.Admits bits ∧
      lastBytes (sequence.further + 1) bits = byte :: lastBytes sequence.further more ∧
      sequence.codePoint bits =
        (sequence.value * 64 + (byte.toNat - 0x80)) * 64 ^ sequence.further + more := by
  intro bits
  have hlow' := h.low
  have hhigh' := h.high
  rw [UInt8.le_iff_toNat_le] at hlow hhigh
  have hfirst : bits / 64 ^ sequence.further = byte.toNat - 0x80 := by
    rw [show bits = more + (byte.toNat - 0x80) * 64 ^ sequence.further from Nat.add_comm _ _,
      Nat.add_mul_div_right _ _ (Nat.pow_pos (by decide)), Nat.div_eq_of_lt hmore, Nat.zero_add]
  refine ⟨⟨?_, ?_, ?_⟩, ?_, ?_⟩
  · rw [Nat.pow_succ, Nat.mul_comm, ← Nat.div_lt_iff_lt_mul (Nat.pow_pos (by decide)), hfirst]
    omega
  · omega
  · omega
  · have hbyte : UInt8.ofNat ((byte.toNat - 0x80) % 64 + 0x80) = byte := by
      rw [show (byte.toNat - 0x80) % 64 + 0x80 = byte.toNat by omega, UInt8.ofNat_toNat]
    rw [lastBytes, hfirst, hbyte, lastBytes_add]
  · rw [OpenSequence.codePoint, Nat.pow_succ, Nat.add_mul, Nat.mul_comm (64 ^ _) 64, Nat.mul_assoc,
      Nat.add_assoc]

theorem complete (h : Opened front sequence) (hlow : sequence.low ≤ byte)
    (hhigh : byte ≤ sequence.high) (hfurther : sequence.further = 0) :
    utf8EncodeChar (Char.ofNat (sequence.value * 64 + (byte.toNat - 0x80))) = front ++ [byte] := by
  obtain ⟨hadmits, hbytes, hpoint⟩ := h.admits_cons hlow hhigh (Nat.pow_pos (by decide))
  have hencodes := (h.encodes _ hadmits).2
  rw [hbytes, hpoint, hfurther, Nat.pow_zero, Nat.mul_one, Nat.add_zero] at hencodes
  exact hencodes

theorem exists_bits (h : Opened front sequence) {c : Char} (hbegin : front <+: utf8EncodeChar c) :
    ∃ bits, sequence.Admits bits ∧ c.toNat = sequence.codePoint bits ∧
      utf8EncodeChar c = front ++ lastBytes (sequence.further + 1) bits := by
  obtain ⟨bits, hadmits, hpoint⟩ := h.only c hbegin
  have hencodes := (h.encodes bits hadmits).2
  rw [← hpoint, Char.ofNat_toNat] at hencodes
  exact ⟨bits, hadmits, hpoint, hencodes⟩

/-- Only with a byte in range does a character go on, and the byte carries the first of its bits. -/
theorem of_prefix (h : Opened front sequence) {c : Char}
    (hbegin : front ++ [byte] <+: utf8EncodeChar c) :
    sequence.low ≤ byte ∧ byte ≤ sequence.high ∧
      ∃ more < 64 ^ sequence.further, c.toNat =
        (sequence.value * 64 + (byte.toNat - 0x80)) * 64 ^ sequence.further + more := by
  have hlow := h.low
  have hhigh := h.high
  obtain ⟨bits, hadmits, hpoint, hencodes⟩ := h.exists_bits ((List.prefix_append _ _).trans hbegin)
  obtain ⟨-, hlow', hhigh'⟩ := hadmits
  rw [hencodes, List.prefix_append_right_inj, lastBytes, List.cons_prefix_cons] at hbegin
  have hbyte := congrArg UInt8.toNat hbegin.1
  rw [UInt8.toNat_ofNat', Nat.mod_eq_of_lt (a := _ + 0x80) (by omega)] at hbyte
  refine ⟨?_, ?_, bits % 64 ^ sequence.further, Nat.mod_lt _ (Nat.pow_pos (by decide)), ?_⟩
  · rw [UInt8.le_iff_toNat_le]
    omega
  · rw [UInt8.le_iff_toNat_le]
    omega
  · have hfirst : byte.toNat - 0x80 = bits / 64 ^ sequence.further := by omega
    rw [hpoint, OpenSequence.codePoint, hfirst, Nat.add_mul, Nat.add_assoc, Nat.div_add_mod',
      Nat.pow_succ, Nat.mul_comm (64 ^ _) 64, Nat.mul_assoc]

theorem next {further : Nat} (h : Opened front sequence) (hlow : sequence.low ≤ byte)
    (hhigh : byte ≤ sequence.high) (hfurther : sequence.further = further + 1) :
    Opened (front ++ [byte])
      ⟨sequence.value * 64 + (byte.toNat - 0x80), further, 0x80, 0xbf⟩ where
  ne_nil := List.append_ne_nil_of_right_ne_nil front (List.cons_ne_nil byte [])
  low := Nat.le_refl 0x80
  range := (by decide : 0x80 ≤ 0xbf)
  high := Nat.le_refl 0xbf
  incomplete c hbegin := by
    rcases List.prefix_concat_iff.1 hbegin with heq | hbegin
    · obtain ⟨bits, -, -, hencodes⟩ := h.exists_bits (heq ▸ List.prefix_append _ _)
      have hlength := congrArg List.length (heq.symm.trans hencodes)
      simp [hfurther] at hlength
    · exact h.incomplete c hbegin
  encodes bits hbits := by
    have hbits' : bits < 64 ^ sequence.further := hfurther ▸ hbits.1
    obtain ⟨hadmits, hbytes, hpoint⟩ := h.admits_cons hlow hhigh hbits'
    have hencodes := h.encodes _ hadmits
    rw [hbytes, hpoint, hfurther] at hencodes
    rw [List.append_assoc]
    exact hencodes
  only c hbegin := by
    obtain ⟨-, -, more, hmore, hpoint⟩ := h.of_prefix hbegin
    rw [hfurther] at hmore hpoint
    have hbits : more / 64 ^ further < 64 := by
      apply Nat.div_lt_of_lt_mul
      rw [← Nat.pow_succ]
      exact hmore
    refine ⟨more, ⟨hmore, Nat.le_add_left _ _, ?_⟩, hpoint⟩
    change more / 64 ^ further + 0x80 ≤ 0xbf
    omega

end Opened

/-- What a first byte can be, by the number of bytes after it. -/
theorem leadByte_cases (value : Nat) :
    value < 0x80 ∧ furtherBytes value = 0 ∧ leadByte value = value ∨
      0x80 ≤ value ∧ value < 0x800 ∧ furtherBytes value = 1 ∧ leadByte value = 0xc0 + value / 64 ∨
      0x800 ≤ value ∧ value < 0x10000 ∧ furtherBytes value = 2 ∧
        leadByte value = 0xe0 + value / 4096 ∨
      0x10000 ≤ value ∧ furtherBytes value = 3 ∧ leadByte value = 0xf0 + value / 262144 := by
  simp only [leadByte, furtherBytes]
  split
  · simp [leadMark, *]
  · split
    · simp [leadMark]
      omega
    · split
      · simp [leadMark]
        omega
      · simp [leadMark]
        omega

/-- The range of the second byte leaves out what one byte less could write. -/
theorem opened_two {byte : UInt8} (h : 0xc2 ≤ byte.toNat ∧ byte.toNat ≤ 0xdf) :
    Opened [byte] ⟨byte.toNat - 0xc0, 0, 0x80, 0xbf⟩ := by
  have hlow : (0x80 : UInt8).toNat = 0x80 := rfl
  have hhigh : (0xbf : UInt8).toNat = 0xbf := rfl
  refine opened_lead (Nat.le_refl 0x80) (by decide : 0x80 ≤ 0xbf) (Nat.le_refl 0xbf)
    (fun bits hbits => ?_) (fun bits hbits => ?_) ?_ fun value hvalid hbyte => ?_
  · simp only [OpenSequence.Admits, OpenSequence.codePoint] at hbits ⊢
    left
    omega
  · have hcases := leadByte_cases (OpenSequence.codePoint ⟨byte.toNat - 0xc0, 0, 0x80, 0xbf⟩ bits)
    simp only [OpenSequence.Admits, OpenSequence.codePoint] at hbits hcases ⊢
    omega
  · simp only [leadMark]
    omega
  · have hcases := leadByte_cases value
    have hmore : furtherBytes value = 1 := by
      rcases hvalid with hvalid | hvalid <;> omega
    refine ⟨hmore, value % 64, ?_, ?_⟩
    · simp only [OpenSequence.Admits]
      omega
    · simp only [OpenSequence.codePoint]
      omega

/-- Here it also leaves out the surrogates, which are no characters. -/
theorem opened_three {byte low high : UInt8} (h : 0xe0 ≤ byte.toNat ∧ byte.toNat ≤ 0xef)
    (hlow : byte.toNat = 0xe0 ∧ low.toNat = 0xa0 ∨ byte.toNat ≠ 0xe0 ∧ low.toNat = 0x80)
    (hhigh : byte.toNat = 0xed ∧ high.toNat = 0x9f ∨ byte.toNat ≠ 0xed ∧ high.toNat = 0xbf) :
    Opened [byte] ⟨byte.toNat - 0xe0, 1, low, high⟩ := by
  refine opened_lead (by dsimp only; omega) (by dsimp only; omega) (by dsimp only; omega)
    (fun bits hbits => ?_) (fun bits hbits => ?_) ?_ fun value hvalid hbyte => ?_
  · simp only [OpenSequence.Admits, OpenSequence.codePoint, Nat.isValidChar] at hbits ⊢
    omega
  · have hcases := leadByte_cases (OpenSequence.codePoint ⟨byte.toNat - 0xe0, 1, low, high⟩ bits)
    simp only [OpenSequence.Admits, OpenSequence.codePoint] at hbits hcases ⊢
    omega
  · simp only [leadMark]
    omega
  · have hcases := leadByte_cases value
    have hmore : furtherBytes value = 2 := by
      rcases hvalid with hvalid | hvalid <;> omega
    refine ⟨hmore, value % 4096, ?_, ?_⟩
    · simp only [OpenSequence.Admits]
      rcases hvalid with hvalid | hvalid <;> omega
    · simp only [OpenSequence.codePoint]
      omega

/-- And here the values beyond the last character. -/
theorem opened_four {byte low high : UInt8} (h : 0xf0 ≤ byte.toNat ∧ byte.toNat ≤ 0xf4)
    (hlow : byte.toNat = 0xf0 ∧ low.toNat = 0x90 ∨ byte.toNat ≠ 0xf0 ∧ low.toNat = 0x80)
    (hhigh : byte.toNat = 0xf4 ∧ high.toNat = 0x8f ∨ byte.toNat ≠ 0xf4 ∧ high.toNat = 0xbf) :
    Opened [byte] ⟨byte.toNat - 0xf0, 2, low, high⟩ := by
  refine opened_lead (by dsimp only; omega) (by dsimp only; omega) (by dsimp only; omega)
    (fun bits hbits => ?_) (fun bits hbits => ?_) ?_ fun value hvalid hbyte => ?_
  · simp only [OpenSequence.Admits, OpenSequence.codePoint, Nat.isValidChar] at hbits ⊢
    omega
  · have hcases := leadByte_cases (OpenSequence.codePoint ⟨byte.toNat - 0xf0, 2, low, high⟩ bits)
    simp only [OpenSequence.Admits, OpenSequence.codePoint] at hbits hcases ⊢
    omega
  · simp only [leadMark]
    omega
  · have hcases := leadByte_cases value
    have hmore : furtherBytes value = 3 := by
      rcases hvalid with hvalid | hvalid <;> omega
    refine ⟨hmore, value % 262144, ?_, ?_⟩
    · simp only [OpenSequence.Admits]
      rcases hvalid with hvalid | hvalid <;> omega
    · simp only [OpenSequence.codePoint]
      omega

theorem utf8EncodeChar_ascii {c : Char} (h : c.toNat < 0x80) :
    utf8EncodeChar c = [UInt8.ofNat c.toNat] := by
  rw [utf8EncodeChar_eq, furtherBytes, if_pos h]
  simp [leadMark, lastBytes]

theorem utf8EncodeChar_ofNat {byte : UInt8} (h : byte.toNat < 0x80) :
    utf8EncodeChar (Char.ofNat byte.toNat) = [byte] := by
  have hvalid : byte.toNat.isValidChar := .inl (by omega)
  rw [utf8EncodeChar_ascii (by rwa [toNat_ofNat hvalid]), toNat_ofNat hvalid, UInt8.ofNat_toNat]

theorem le_of_mem_lastBytes {byte : UInt8} {count value : Nat} (h : byte ∈ lastBytes count value) :
    0x80 ≤ byte.toNat := by
  induction count with
  | zero => cases h
  | succ count ih =>
    rcases List.mem_cons.1 h with rfl | h
    · rw [UInt8.toNat_ofNat']
      omega
    · exact ih h

/-- No byte of a longer character could stand for itself. -/
theorem eq_of_mem_utf8EncodeChar {byte : UInt8} {c : Char} (h : byte ∈ utf8EncodeChar c)
    (hbyte : byte.toNat < 0x80) : utf8EncodeChar c = [byte] := by
  have hencode := utf8EncodeChar_eq c
  rw [hencode] at h
  rcases List.mem_cons.1 h with hfirst | hlast
  · rw [← hfirst] at hencode
    have hlead := toNat_eq_leadByte hencode
    have hcases := leadByte_cases c.toNat
    have hmore : furtherBytes c.toNat = 0 := by omega
    rw [hencode, hmore, lastBytes]
  · exact absurd hbyte (Nat.not_lt_of_le (le_of_mem_lastBytes hlast))

end ReversePolish
