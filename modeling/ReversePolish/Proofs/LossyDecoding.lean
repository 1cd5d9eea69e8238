import ReversePolish.Proofs.Utf8Encoding

/-!
# Decoding with replacement

What the text of arbitrary bytes is, said without a decoder: characters are read off as far as their
bytes go, and where no character can be read, the longest part that could have begun one is
replaced, or a single byte if there is none. There is exactly one such text, and it is what the
decoder makes of the bytes.
-/

namespace ReversePolish

open String (utf8EncodeChar)

def BeginsCharacter (part : List UInt8) : Prop := ∃ c, part <+: utf8EncodeChar c

/-- What is replaced at the front of bytes that no character can be read from. -/
structure MaximalPart (bytes part : List UInt8) : Prop where
  illFormed : ∀ c, ¬utf8EncodeChar c <+: bytes
  begins : part <+: bytes
  ne_nil : part ≠ []
  single_or_begins : part.length = 1 ∨ BeginsCharacter part
  longest : ∀ longer, longer <+: bytes → BeginsCharacter longer → longer.length ≤ part.length

/-- Bytes as a text. -/
inductive Decodes : List UInt8 → List Char → Prop
  | nil : Decodes [] []
  | char {bytes text} (c : Char) (later : Decodes bytes text) :
      Decodes (utf8EncodeChar c ++ bytes) (c :: text)
  | replaced {part bytes text} (maximal : MaximalPart (part ++ bytes) part)
      (later : Decodes bytes text) : Decodes (part ++ bytes) (replacementChar :: text)

theorem prefix_append_cases {part front bytes : List UInt8} (h : part <+: front ++ bytes) :
    part <+: front ∨ ∃ byte, bytes.head? = some byte ∧ front ++ [byte] <+: part := by
  rcases List.prefix_or_prefix_of_prefix h (List.prefix_append _ _) with h' | ⟨more, rfl⟩
  · exact .inl h'
  · rw [List.prefix_append_right_inj] at h
    cases more with
    | nil => exact .inl ⟨[], by simp⟩
    | cons byte more =>
      obtain ⟨later, rfl⟩ := h
      exact .inr ⟨byte, rfl, more, by simp⟩

namespace Utf8Decoder

/-- A first byte is a character, opens a sequence or begins no character. -/
theorem start_cases (decoded : List Char) (byte : UInt8) :
    (∃ c, utf8EncodeChar c = [byte] ∧ start decoded byte = ⟨c :: decoded, none⟩) ∨
      (∃ sequence, Opened [byte] sequence ∧ start decoded byte = ⟨decoded, some sequence⟩) ∨
      (∀ c, ¬[byte] <+: utf8EncodeChar c) ∧
        start decoded byte = ⟨replacementChar :: decoded, none⟩ := by
  unfold start
  simp only [UInt8.lt_iff_toNat_lt, UInt8.le_iff_toNat_le, ← UInt8.toNat_inj, UInt8.reduceToNat]
  split
  · next h => exact .inl ⟨_, utf8EncodeChar_ofNat h, rfl⟩
  split
  · next h => exact .inr (.inl ⟨_, opened_two h, rfl⟩)
  split
  · next h =>
    exact .inr (.inl ⟨_, opened_three (by omega) (.inl ⟨h, rfl⟩) (.inr ⟨by omega, rfl⟩), rfl⟩)
  split
  · next h =>
    exact .inr (.inl ⟨_, opened_three (by omega) (.inr ⟨by omega, rfl⟩) (.inl ⟨h, rfl⟩), rfl⟩)
  split
  · next h =>
    exact .inr (.inl
      ⟨_, opened_three (by omega) (.inr ⟨by omega, rfl⟩) (.inr ⟨by omega, rfl⟩), rfl⟩)
  split
  · next h =>
    exact .inr (.inl ⟨_, opened_four (by omega) (.inl ⟨h, rfl⟩) (.inr ⟨by omega, rfl⟩), rfl⟩)
  split
  · next h =>
    exact .inr (.inl ⟨_, opened_four (by omega) (.inr ⟨by omega, rfl⟩) (.inr ⟨by omega, rfl⟩), rfl⟩)
  split
  · next h =>
    exact .inr (.inl ⟨_, opened_four (by omega) (.inr ⟨by omega, rfl⟩) (.inl ⟨h, rfl⟩), rfl⟩)
  · refine .inr (.inr ⟨fun c hbegin => ?_, rfl⟩)
    obtain ⟨rest, hrest⟩ := hbegin
    have hbyte := toNat_eq_leadByte hrest.symm
    have hcases := leadByte_cases c.toNat
    have hlt := toNat_lt c
    omega

/-- A byte in range completes a character or keeps the sequence open. -/
theorem feed_cases (decoded : List Char) {front : List UInt8} {sequence : OpenSequence}
    (h : Opened front sequence) {byte : UInt8}
    (hrange : sequence.low ≤ byte ∧ byte ≤ sequence.high) :
    (∃ c, utf8EncodeChar c = front ++ [byte] ∧
      feed ⟨decoded, some sequence⟩ byte = ⟨c :: decoded, none⟩) ∨
    ∃ sequence', Opened (front ++ [byte]) sequence' ∧
      feed ⟨decoded, some sequence⟩ byte = ⟨decoded, some sequence'⟩ := by
  cases hfurther : sequence.further with
  | zero =>
    refine .inl ⟨_, h.complete hrange.1 hrange.2 hfurther, ?_⟩
    simp only [feed, if_pos hrange, hfurther]
  | succ further =>
    refine .inr ⟨_, h.next hrange.1 hrange.2 hfurther, ?_⟩
    simp only [feed, if_pos hrange, hfurther]

theorem feed_out_of_range (decoded : List Char) {sequence : OpenSequence} {byte : UInt8}
    (hrange : ¬(sequence.low ≤ byte ∧ byte ≤ sequence.high)) :
    feed ⟨decoded, some sequence⟩ byte = start (replacementChar :: decoded) byte := by
  simp only [feed, if_neg hrange]

end Utf8Decoder

namespace Opened

variable {front bytes : List UInt8} {sequence : OpenSequence}

theorem beginsCharacter (h : Opened front sequence) : BeginsCharacter front := by
  obtain ⟨hadmits, -, -⟩ := h.admits_cons (UInt8.le_refl _) (UInt8.le_iff_toNat_le.2 h.range)
    (Nat.pow_pos (by decide))
  exact ⟨_, (h.encodes _ hadmits).2 ▸ List.prefix_append _ _⟩

/-- Up to a byte out of range nothing longer begins a character. -/
theorem prefix_of_stop (h : Opened front sequence)
    (hstop : ∀ byte, bytes.head? = some byte → ¬(sequence.low ≤ byte ∧ byte ≤ sequence.high))
    {longer : List UInt8} (hlonger : longer <+: front ++ bytes) (hbegins : BeginsCharacter longer) :
    longer <+: front := by
  obtain ⟨c, hc⟩ := hbegins
  rcases prefix_append_cases hlonger with h' | ⟨byte, hhead, hfront⟩
  · exact h'
  · obtain ⟨hlow, hhigh, -⟩ := h.of_prefix (hfront.trans hc)
    exact absurd ⟨hlow, hhigh⟩ (hstop byte hhead)

theorem maximalPart (h : Opened front sequence)
    (hstop : ∀ byte, bytes.head? = some byte → ¬(sequence.low ≤ byte ∧ byte ≤ sequence.high)) :
    MaximalPart (front ++ bytes) front where
  illFormed c hc := h.incomplete c (h.prefix_of_stop hstop hc ⟨c, List.prefix_rfl⟩)
  begins := List.prefix_append _ _
  ne_nil := h.ne_nil
  single_or_begins := .inr h.beginsCharacter
  longest _ hlonger hbegins := (h.prefix_of_stop hstop hlonger hbegins).length_le

end Opened

theorem maximalPart_single {byte : UInt8} (h : ∀ c, ¬[byte] <+: utf8EncodeChar c)
    (bytes : List UInt8) : MaximalPart ([byte] ++ bytes) [byte] := by
  have hnone : ∀ part, part <+: [byte] ++ bytes → BeginsCharacter part → part = [] := by
    rintro part hpart ⟨c, hc⟩
    rcases List.prefix_cons_iff.1 hpart with hnil | ⟨more, rfl, -⟩
    · exact hnil
    · exact absurd ((List.prefix_append [byte] more).trans hc) (h c)
  refine ⟨fun c hc => ?_, List.prefix_append _ _, List.cons_ne_nil _ _, .inl rfl, ?_⟩
  · exact String.utf8EncodeChar_ne_nil (hnone _ hc ⟨c, List.prefix_rfl⟩)
  · intro longer hlonger hbegins
    rw [hnone longer hlonger hbegins]
    exact Nat.zero_le _

namespace Utf8Decoder

variable {decoder : Utf8Decoder} {bytes undecoded : List UInt8} {decoded : List Char}

/-- From some state on the decoder adds to what has been decoded a text of the rest. -/
def Finishes (decoder : Utf8Decoder) (bytes : List UInt8) (decoded : List Char)
    (undecoded : List UInt8) : Prop :=
  ∃ text, (bytes.foldl feed decoder).finish = decoded.reverse ++ text ∧ Decodes undecoded text

theorem Finishes.char {c : Char} (h : Finishes decoder bytes (c :: decoded) undecoded) :
    Finishes decoder bytes decoded (utf8EncodeChar c ++ undecoded) := by
  obtain ⟨text, hfinish, hdecodes⟩ := h
  rw [List.reverse_cons, List.append_assoc] at hfinish
  exact ⟨c :: text, hfinish, hdecodes.char c⟩

theorem Finishes.replaced {part : List UInt8}
    (h : Finishes decoder bytes (replacementChar :: decoded) undecoded)
    (hmaximal : MaximalPart (part ++ undecoded) part) :
    Finishes decoder bytes decoded (part ++ undecoded) := by
  obtain ⟨text, hfinish, hdecodes⟩ := h
  rw [List.reverse_cons, List.append_assoc] at hfinish
  exact ⟨replacementChar :: text, hfinish, .replaced hmaximal hdecodes⟩

/-- The bytes of a sequence that is open are among those still to be decoded. -/
theorem finishes (bytes : List UInt8) :
    (∀ decoded, Finishes ⟨decoded, none⟩ bytes decoded bytes) ∧
      ∀ decoded front sequence, Opened front sequence →
        Finishes ⟨decoded, some sequence⟩ bytes decoded (front ++ bytes) := by
  induction bytes with
  | nil =>
    refine ⟨fun decoded => ⟨[], (List.append_nil _).symm, .nil⟩, fun decoded front sequence h => ?_⟩
    exact ⟨[replacementChar], List.reverse_cons, .replaced (h.maximalPart nofun) .nil⟩
  | cons byte bytes ih =>
    obtain ⟨hclosed, hopen⟩ := ih
    have hstart (decoded : List Char) :
        Finishes (start decoded byte) bytes decoded (byte :: bytes) := by
      rcases start_cases decoded byte with ⟨c, hc, heq⟩ | ⟨sequence, hopened, heq⟩ | ⟨hnone, heq⟩
      · have hchar := (hclosed (c :: decoded)).char
        rw [hc] at hchar
        exact heq ▸ hchar
      · exact heq ▸ hopen decoded [byte] sequence hopened
      · exact heq ▸ (hclosed (replacementChar :: decoded)).replaced (maximalPart_single hnone bytes)
    refine ⟨hstart, fun decoded front sequence hopened => ?_⟩
    change Finishes (feed ⟨decoded, some sequence⟩ byte) bytes decoded (front ++ byte :: bytes)
    by_cases hrange : sequence.low ≤ byte ∧ byte ≤ sequence.high
    · rw [← List.singleton_append, ← List.append_assoc]
      rcases feed_cases decoded hopened hrange with ⟨c, hc, heq⟩ | ⟨sequence', hopened', heq⟩
      · rw [heq, ← hc]
        exact (hclosed (c :: decoded)).char
      · rw [heq]
        exact hopen decoded _ sequence' hopened'
    · -- The byte is taken anew once the open sequence has been replaced.
      rw [feed_out_of_range decoded hrange]
      refine (hstart (replacementChar :: decoded)).replaced (hopened.maximalPart ?_)
      rintro byte' hbyte'
      obtain rfl := Option.some.inj hbyte'
      exact hrange

end Utf8Decoder

/-- The decoder makes a text of any bytes. -/
theorem decodes_decodeUtf8 (bytes : List UInt8) : Decodes bytes (decodeUtf8 bytes) := by
  obtain ⟨text, hfinish, hdecodes⟩ := (Utf8Decoder.finishes bytes).1 []
  rw [decodeUtf8, show ({} : Utf8Decoder) = ⟨[], none⟩ from rfl, hfinish]
  exact hdecodes

/-- No character's bytes begin another's. -/
theorem eq_of_utf8EncodeChar_append {c c' : Char} {bytes bytes' : List UInt8}
    (h : utf8EncodeChar c ++ bytes = utf8EncodeChar c' ++ bytes') : c = c' ∧ bytes = bytes' := by
  have harrays := congrArg List.toByteArray h
  rw [List.toByteArray_append, List.toByteArray_append] at harrays
  have hdecode := congrArg (ByteArray.utf8DecodeChar? · 0) harrays
  simp only [ByteArray.utf8DecodeChar?_utf8EncodeChar_append] at hdecode
  obtain rfl := Option.some.inj hdecode
  exact ⟨rfl, List.append_cancel_left h⟩

namespace MaximalPart

variable {bytes part part' : List UInt8}

theorem length_le (h : MaximalPart bytes part) (h' : MaximalPart bytes part') :
    part.length ≤ part'.length := by
  rcases h.single_or_begins with hsingle | hbegins
  · rw [hsingle]
    exact List.length_pos_iff.2 h'.ne_nil
  · exact h'.longest part h.begins hbegins

theorem unique (h : MaximalPart bytes part) (h' : MaximalPart bytes part') : part = part' :=
  (List.prefix_of_prefix_length_le h.begins h'.begins (h.length_le h')).eq_of_length_le
    (h'.length_le h)

end MaximalPart

namespace Decodes

variable {bytes : List UInt8} {text text' : List Char}

theorem unique (h : Decodes bytes text) (h' : Decodes bytes text') : text = text' := by
  induction h generalizing text' with
  | nil =>
    generalize hbytes : [] = bytes at h'
    cases h' with
    | nil => rfl
    | char c => exact absurd (List.append_eq_nil_iff.1 hbytes.symm).1 String.utf8EncodeChar_ne_nil
    | replaced maximal => exact absurd (List.append_eq_nil_iff.1 hbytes.symm).1 maximal.ne_nil
  | @char bytes text c later ih =>
    generalize hbytes : utf8EncodeChar c ++ bytes = all at h'
    cases h' with
    | nil => exact absurd (List.append_eq_nil_iff.1 hbytes).1 String.utf8EncodeChar_ne_nil
    | char c' later' =>
      obtain ⟨rfl, rfl⟩ := eq_of_utf8EncodeChar_append hbytes
      rw [ih later']
    | replaced maximal => exact absurd ⟨_, hbytes⟩ (maximal.illFormed c)
  | @replaced part bytes text maximal later ih =>
    generalize hbytes : part ++ bytes = all at h'
    cases h' with
    | nil => exact absurd (List.append_eq_nil_iff.1 hbytes).1 maximal.ne_nil
    | char c => exact absurd ⟨_, hbytes.symm⟩ (maximal.illFormed c)
    | replaced maximal' later' =>
      obtain rfl := maximal.unique (hbytes ▸ maximal')
      rw [ih (List.append_cancel_left hbytes ▸ later')]

theorem iff_eq_decodeUtf8 : Decodes bytes text ↔ text = decodeUtf8 bytes :=
  ⟨fun h => h.unique (decodes_decodeUtf8 bytes), fun h => h ▸ decodes_decodeUtf8 bytes⟩

end Decodes

/-- Nothing that begins a character goes on with a byte that stands for itself. -/
theorem BeginsCharacter.prefix_of_single {part bytes more : List UInt8} {byte : UInt8}
    (hbyte : byte.toNat < 0x80) (hne : bytes ≠ []) (h : BeginsCharacter part)
    (hpart : part <+: bytes ++ byte :: more) : part <+: bytes := by
  obtain ⟨c, hc⟩ := h
  rcases prefix_append_cases hpart with h' | ⟨byte', hhead, hfront⟩
  · exact h'
  · obtain rfl := Option.some.inj hhead
    have hlonger := hfront.trans hc
    have hsingle := eq_of_mem_utf8EncodeChar (hlonger.subset (by simp)) hbyte
    have hlength := hlonger.length_le
    have hpos := List.length_pos_iff.2 hne
    rw [hsingle, List.length_append, List.length_singleton] at hlength
    omega

theorem MaximalPart.append {bytes part more : List UInt8} {byte : UInt8} (hbyte : byte.toNat < 0x80)
    (h : MaximalPart bytes part) : MaximalPart (bytes ++ byte :: more) part := by
  have hne : bytes ≠ [] := fun hnil => h.ne_nil (List.prefix_nil.1 (hnil ▸ h.begins))
  refine ⟨fun c hc => ?_, h.begins.trans (List.prefix_append _ _), h.ne_nil, h.single_or_begins,
    fun longer hlonger hbegins => ?_⟩
  · exact h.illFormed c (BeginsCharacter.prefix_of_single hbyte hne ⟨c, List.prefix_rfl⟩ hc)
  · exact h.longest longer (hbegins.prefix_of_single hbyte hne hlonger) hbegins

namespace Decodes

variable {bytes more : List UInt8} {text text' : List Char} {byte : UInt8}

theorem single (hbyte : byte.toNat < 0x80) (h : Decodes bytes text) :
    Decodes (byte :: bytes) (Char.ofNat byte.toNat :: text) := by
  have hchar := h.char (Char.ofNat byte.toNat)
  rwa [utf8EncodeChar_ofNat hbyte] at hchar

/-- Texts can be joined at a byte that stands for itself. -/
theorem append (h : Decodes bytes text) (hbyte : byte.toNat < 0x80)
    (h' : Decodes (byte :: more) text') : Decodes (bytes ++ byte :: more) (text ++ text') := by
  induction h with
  | nil => exact h'
  | char c later ih =>
    rw [List.append_assoc]
    exact ih.char c
  | replaced maximal later ih =>
    rw [List.append_assoc]
    refine ih.replaced ?_
    rw [← List.append_assoc]
    exact maximal.append hbyte

theorem mem_of_mem (h : Decodes bytes text) {c : Char} (hc : c ∈ text) (hascii : c.toNat < 0x80) :
    UInt8.ofNat c.toNat ∈ bytes := by
  induction h with
  | nil => cases hc
  | char c' later ih =>
    rcases List.mem_cons.1 hc with rfl | hc
    · simp [utf8EncodeChar_ascii hascii]
    · exact List.mem_append_right _ (ih hc)
  | replaced maximal later ih =>
    rcases List.mem_cons.1 hc with rfl | hc
    · exact absurd hascii (by decide)
    · exact List.mem_append_right _ (ih hc)

theorem eq_nil (h : Decodes bytes []) : bytes = [] := by
  cases h
  rfl

theorem getLast?_of_getLast? (h : Decodes bytes text) {c : Char} (hc : text.getLast? = some c)
    (hascii : c.toNat < 0x80) : bytes.getLast? = some (UInt8.ofNat c.toNat) := by
  have hlater {front bytes : List UInt8}
      (h : bytes.getLast? = some (UInt8.ofNat c.toNat)) :
      (front ++ bytes).getLast? = some (UInt8.ofNat c.toNat) := by
    rw [List.getLast?_append, h, Option.some_or]
  induction h with
  | nil => simp at hc
  | @char bytes text c' later ih =>
    cases text with
    | nil =>
      obtain rfl : c' = c := by simpa using hc
      rw [later.eq_nil, utf8EncodeChar_ascii hascii]
      rfl
    | cons d text => exact hlater (ih hc)
  | @replaced part bytes text maximal later ih =>
    cases text with
    | nil =>
      obtain rfl : replacementChar = c := by simpa using hc
      exact absurd hascii (by decide)
    | cons d text => exact hlater (ih hc)

end Decodes

end ReversePolish
