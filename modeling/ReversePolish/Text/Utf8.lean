/-!
# Decoding UTF-8 with replacement

Bytes are decoded one at a time. Every maximal part of an ill-formed sequence that could still have
begun a character becomes one replacement character. The decoder is a fold over the bytes, so
decoding a concatenation goes on from the state after its first part.
-/

namespace ReversePolish

def replacementChar : Char := '\ufffd'

/-- A sequence that has begun: the code point so far, how many bytes are still to come after the
next one, and the range in which the next one must lie. -/
structure OpenSequence where
  value : Nat
  further : Nat
  low : UInt8
  high : UInt8
  deriving DecidableEq

/-- A decoder: the characters so far, the latest first, and the sequence that is open. -/
structure Utf8Decoder where
  decoded : List Char := []
  pending : Option OpenSequence := none
  deriving DecidableEq

namespace Utf8Decoder

/-- Takes a byte while no sequence is open. -/
def start (decoded : List Char) (byte : UInt8) : Utf8Decoder :=
  let lead (value further : Nat) (low high : UInt8) : Utf8Decoder :=
    ⟨decoded, some ⟨byte.toNat - value, further, low, high⟩⟩
  if byte < 0x80 then ⟨Char.ofNat byte.toNat :: decoded, none⟩
  else if 0xc2 ≤ byte ∧ byte ≤ 0xdf then lead 0xc0 0 0x80 0xbf
  else if byte = 0xe0 then lead 0xe0 1 0xa0 0xbf
  else if byte = 0xed then lead 0xe0 1 0x80 0x9f
  else if 0xe1 ≤ byte ∧ byte ≤ 0xef then lead 0xe0 1 0x80 0xbf
  else if byte = 0xf0 then lead 0xf0 2 0x90 0xbf
  else if 0xf1 ≤ byte ∧ byte ≤ 0xf3 then lead 0xf0 2 0x80 0xbf
  else if byte = 0xf4 then lead 0xf0 2 0x80 0x8f
  else ⟨replacementChar :: decoded, none⟩

/-- Takes a byte. One that cannot continue the open sequence ends it and begins anew. -/
def feed (decoder : Utf8Decoder) (byte : UInt8) : Utf8Decoder :=
  match decoder.pending with
  | none => start decoder.decoded byte
  | some sequence =>
    if sequence.low ≤ byte ∧ byte ≤ sequence.high then
      let value := sequence.value * 64 + (byte.toNat - 0x80)
      match sequence.further with
      | 0 => ⟨Char.ofNat value :: decoder.decoded, none⟩
      | further + 1 => ⟨decoder.decoded, some ⟨value, further, 0x80, 0xbf⟩⟩
    else start (replacementChar :: decoder.decoded) byte

def finish (decoder : Utf8Decoder) : List Char :=
  match decoder.pending with
  | none => decoder.decoded.reverse
  | some _ => (replacementChar :: decoder.decoded).reverse

end Utf8Decoder

def decodeUtf8 (bytes : List UInt8) : List Char :=
  (bytes.foldl Utf8Decoder.feed {}).finish

end ReversePolish
