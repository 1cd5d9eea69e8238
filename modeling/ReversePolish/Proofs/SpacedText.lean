import ReversePolish.Proofs.FirstToken

/-!
# Spaced text

A text consists of words with blanks between them, and blanks may come first and last. Its tokens
are the tokens of the words: how many blanks there are in one place, and whether they are spaces or
newlines, makes no difference.
-/

namespace ReversePolish

def Token.scan (text : List Char) : List Token :=
  match _h : text.dropWhile isBlank with
  | [] => []
  | first :: others => (lexeme first others).token :: scan (lexeme first others).rest
termination_by text.length
decreasing_by
  have hdrop := (List.dropWhile_suffix (l := text) isBlank).length_le
  have hrest := Token.lexeme_rest_length_le first others
  rw [_h, List.length_cons] at hdrop
  omega

def joined (lines : List String) : List Char := ['\n'].intercalate (lines.map String.toList)

theorem joined_cons_cons (line next : String) (lines : List String) :
    joined (line :: next :: lines) = line.toList ++ '\n' :: joined (next :: lines) := by
  simp [joined, List.intercalate]

/-- A text that consists of some words, each with a blank after it if anything comes after it. -/
inductive Spaced : List (List Char) → List Char → Prop
  | blank {text} (blank : ∀ c ∈ text, isBlank c) : Spaced [] text
  | word {blanks word text words} (blank : ∀ c ∈ blanks, isBlank c)
      (visible : ∀ c ∈ word, ¬isBlank c) (nonempty : word ≠ [])
      (apart : ∀ c ∈ text.head?, isBlank c) (later : Spaced words text) :
      Spaced (word :: words) (blanks ++ word ++ text)

/-- Two texts of the same words, which may differ in the blanks between and around them. -/
def Respaced (text text' : List Char) : Prop := ∃ words, Spaced words text ∧ Spaced words text'

def words (text : List Char) : List (List Char) :=
  match _h : text.dropWhile isBlank with
  | [] => []
  | first :: others =>
    (first :: others).takeWhile (!isBlank ·) :: words ((first :: others).dropWhile (!isBlank ·))
termination_by text.length
decreasing_by
  have hdrop := (List.dropWhile_suffix (l := text) isBlank).length_le
  have hvisible := List.head?_dropWhile_not isBlank text
  have hrest := (List.dropWhile_suffix (l := others) (!isBlank ·)).length_le
  rw [_h, List.length_cons] at hdrop
  rw [_h] at hvisible
  rw [List.dropWhile_cons_of_pos (by simpa using hvisible)]
  omega

/-- Every text consists of its words. -/
theorem spaced_words (text : List Char) : Spaced (words text) text := by
  fun_induction words text with
  | case1 text hdrop => exact .blank (List.dropWhile_eq_nil_iff.1 hdrop)
  | case2 text first others hdrop ih =>
    have hfirst := List.head?_dropWhile_not isBlank text
    have hafter := List.head?_dropWhile_not (!isBlank ·) (first :: others)
    rw [hdrop] at hfirst
    have hblanks : ∀ c ∈ text.takeWhile isBlank, isBlank c := fun c hc => List.mem_takeWhile_imp hc
    have hvisible : ∀ c ∈ (first :: others).takeWhile (!isBlank ·), ¬isBlank c := fun c hc => by
      have hc' := List.mem_takeWhile_imp hc
      simpa using hc'
    have hne : (first :: others).takeWhile (!isBlank ·) ≠ [] := by
      rw [List.takeWhile_cons_of_pos (by simpa using hfirst)]
      simp
    have hapart : ∀ c ∈ ((first :: others).dropWhile (!isBlank ·)).head?, isBlank c := by
      intro c hc
      rw [hc] at hafter
      simpa using hafter
    have hspaced := Spaced.word hblanks hvisible hne hapart ih
    rw [List.append_assoc, List.takeWhile_append_dropWhile, ← hdrop,
      List.takeWhile_append_dropWhile] at hspaced
    rw [hdrop] at hspaced
    exact hspaced

theorem Spaced.eq_words {found : List (List Char)} {text : List Char} (h : Spaced found text) :
    found = words text := by
  induction h with
  | @blank text hblank =>
    rw [words]
    split
    · rfl
    · next hdrop => simp [List.dropWhile_eq_nil_iff.2 hblank] at hdrop
  | @word blanks word text later hblanks hvisible hne hapart hlater ih =>
    obtain ⟨first, others, rfl⟩ := List.exists_cons_of_ne_nil hne
    have hword : ∀ c ∈ first :: others, !isBlank c := by simpa using hvisible
    have htake : text.takeWhile (!isBlank ·) = [] ∧ text.dropWhile (!isBlank ·) = text := by
      cases text with
      | nil => exact ⟨rfl, rfl⟩
      | cons c text =>
        have hc : isBlank c := hapart c rfl
        simp [hc]
    have hdrop : (blanks ++ (first :: others) ++ text).dropWhile isBlank =
        first :: (others ++ text) := by
      rw [List.append_assoc, List.dropWhile_append_of_pos hblanks]
      exact List.dropWhile_cons_of_neg (hvisible first List.mem_cons_self)
    rw [words]
    split
    · next hdrop' => exact absurd (hdrop.symm.trans hdrop') (by simp)
    · next hdrop' =>
      obtain ⟨rfl, rfl⟩ := List.cons.inj (hdrop.symm.trans hdrop')
      rw [← List.cons_append, List.takeWhile_append_of_pos hword,
        List.dropWhile_append_of_pos hword, htake.1, htake.2, List.append_nil, ← ih]

theorem respaced_iff {text text' : List Char} : Respaced text text' ↔ words text = words text' := by
  constructor
  · rintro ⟨found, hspaced, hspaced'⟩
    rw [← hspaced.eq_words, ← hspaced'.eq_words]
  · intro heq
    exact ⟨words text, spaced_words text, heq ▸ spaced_words text'⟩

instance : DecidableRel Respaced := fun _ _ => decidable_of_iff _ respaced_iff.symm

namespace Token

theorem scan_eq_nil {text : List Char} (h : ∀ c ∈ text, isBlank c) : scan text = [] := by
  rw [scan]
  split
  · rfl
  · next hdrop =>
    rw [List.dropWhile_eq_nil_iff.2 h] at hdrop
    simp at hdrop

@[simp] theorem scan_nil : scan [] = [] := scan_eq_nil (by simp)

theorem scan_of_dropWhile {text others : List Char} {first : Char}
    (h : text.dropWhile isBlank = first :: others) :
    scan text = (lexeme first others).token :: scan (lexeme first others).rest := by
  rw [scan]
  split
  · next hdrop => simp [h] at hdrop
  · next hdrop =>
    obtain ⟨rfl, rfl⟩ := List.cons.inj (h.symm.trans hdrop)
    rfl

theorem scan_blanks_append {blanks : List Char} (h : ∀ c ∈ blanks, isBlank c) (text : List Char) :
    scan (blanks ++ text) = scan text := by
  have hdrop : (blanks ++ text).dropWhile isBlank = text.dropWhile isBlank :=
    List.dropWhile_append_of_pos h
  cases htext : text.dropWhile isBlank with
  | nil =>
    rw [scan_eq_nil (List.dropWhile_eq_nil_iff.1 htext),
      scan_eq_nil (List.dropWhile_eq_nil_iff.1 (hdrop.trans htext))]
  | cons first others => rw [scan_of_dropWhile htext, scan_of_dropWhile (hdrop.trans htext)]

theorem scan_cons_blank {blank : Char} (h : isBlank blank) (text : List Char) :
    scan (blank :: text) = scan text :=
  scan_blanks_append (List.forall_mem_singleton.2 h) text

/-- No token goes on past a blank. -/
theorem scan_append_blank {blank : Char} (h : isBlank blank) (text more : List Char) :
    scan (text ++ blank :: more) = scan text ++ scan more := by
  fun_induction scan text with
  | case1 text hdrop =>
    have hblanks : ∀ c ∈ text ++ [blank], isBlank c := by
      simpa [h, or_imp, forall_and] using List.dropWhile_eq_nil_iff.1 hdrop
    rw [List.append_cons, scan_blanks_append hblanks, List.nil_append]
  | case2 text first others hdrop ih =>
    have hdrop' : (text ++ blank :: more).dropWhile isBlank =
        first :: (others ++ blank :: more) := by
      rw [List.dropWhile_append, hdrop]
      rfl
    rw [scan_of_dropWhile hdrop', lexeme_blank h, List.cons_append, ← ih]
    rfl

theorem scan_concat_blank {blank : Char} (h : isBlank blank) (text : List Char) :
    scan (text ++ [blank]) = scan text := by
  rw [scan_append_blank h, scan_nil, List.append_nil]

/-- The tokens of a text are those of its words. -/
theorem scan_of_spaced {words : List (List Char)} {text : List Char} (h : Spaced words text) :
    scan text = words.flatMap scan := by
  induction h with
  | blank hblank => exact scan_eq_nil hblank
  | @word blanks word text words hblanks hvisible hne hapart hlater ih =>
    rw [List.append_assoc, scan_blanks_append hblanks, List.flatMap_cons, ← ih]
    cases text with
    | nil => simp
    | cons blank text =>
      have hblank : isBlank blank := hapart blank rfl
      rw [scan_append_blank hblank, scan_cons_blank hblank]

theorem scan_joined (lines : List String) :
    scan (joined lines) = lines.flatMap fun line => scan line.toList := by
  have hnewline : isBlank '\n' := by decide
  induction lines with
  | nil => exact scan_nil
  | cons line lines ih =>
    cases lines with
    | nil => simp [joined]
    | cons next lines =>
      rw [joined_cons_cons, scan_append_blank hnewline, ih]
      rfl

end Token

/-- A numeral is a single token. -/
theorem IsNumeral.scan_eq {front : List Char} (h : IsNumeral front) :
    Token.scan front = [⟨.number, String.ofList front⟩] := by
  obtain ⟨first, others, rfl, hfirst⟩ :
      ∃ first others, front = first :: others ∧ first.isDigit := by
    obtain ⟨whole, hne, hwhole, heq⟩ := h
    obtain ⟨first, others, rfl⟩ := List.exists_cons_of_ne_nil hne
    have hfirst := hwhole first List.mem_cons_self
    rcases heq with rfl | ⟨fraction, -, rfl⟩
    · exact ⟨first, others, rfl, hfirst⟩
    · exact ⟨first, _, rfl, hfirst⟩
  have hlongest := Token.longestFront_splitNumber hfirst others
  have hall : (Token.splitNumber (first :: others)).1 = first :: others :=
    hlongest.begins.eq_of_length_le (hlongest.longest _ List.prefix_rfl h)
  have hrest : (Token.splitNumber (first :: others)).2 = [] := by
    have happend := Token.splitNumber_append (first :: others)
    rw [hall] at happend
    exact List.append_right_eq_self.1 happend
  have hdrop : (first :: others).dropWhile isBlank = first :: others :=
    List.dropWhile_cons_of_neg (not_isBlank_of_isDigit hfirst)
  rw [Token.scan_of_dropWhile hdrop, Token.lexeme_of_digit hfirst, hall, hrest, Token.scan_nil]
  rfl

/-- So is a name. -/
theorem IsName.scan_eq {front : List Char} (h : IsName front) :
    Token.scan front = [⟨.identifier, String.ofList front⟩] := by
  obtain ⟨first, others, rfl⟩ : ∃ first others, front = first :: others := by
    obtain ⟨first, others, heq, -⟩ := id h
    exact ⟨first, others, heq⟩
  obtain ⟨hfirst, hothers⟩ := isName_cons_iff.1 h
  have hall := List.all_eq_true.1 hothers
  have hdrop : (first :: others).dropWhile isBlank = first :: others :=
    List.dropWhile_cons_of_neg (not_isBlank_of_isLetter hfirst)
  rw [Token.scan_of_dropWhile hdrop,
    Token.lexeme_of_letter (fun hdigit => not_isDigit_of_isLetter hfirst hdigit) hfirst,
    List.takeWhile_eq_self_iff.2 hall, List.dropWhile_eq_nil_iff.2 hall, Token.scan_nil]
  rfl

/-- Respacing does not change the tokens. -/
theorem Respaced.scan_eq {text text' : List Char} (h : Respaced text text') :
    Token.scan text = Token.scan text' := by
  obtain ⟨words, hspaced, hspaced'⟩ := h
  rw [Token.scan_of_spaced hspaced, Token.scan_of_spaced hspaced']

namespace Line

theorem scan_of_next? {line line' : Line} {token : Token} (h : line.next? = some (token, line')) :
    Token.scan line.rest = token :: Token.scan line'.rest := by
  unfold next? at h
  split at h
  · simp at h
  · next first others hrest =>
    obtain ⟨rfl, rfl⟩ := Prod.mk.inj (Option.some.inj h)
    exact Token.scan_of_dropWhile hrest

theorem scan_of_none {line : Line} (h : line.next? = none) : Token.scan line.rest = [] :=
  Token.scan_eq_nil (next?_eq_none_iff.1 h)

theorem exists_next? {line : Line} {token : Token} {tokens : List Token}
    (h : Token.scan line.rest = token :: tokens) :
    ∃ line', line.next? = some (token, line') ∧ Token.scan line'.rest = tokens := by
  cases hnext : line.next? with
  | none => simp [scan_of_none hnext] at h
  | some found =>
    obtain ⟨found, line'⟩ := found
    rw [scan_of_next? hnext] at h
    obtain ⟨rfl, hrest⟩ := List.cons.inj h
    exact ⟨line', rfl, hrest⟩

theorem next?_eq_none_of_scan {line : Line} (h : Token.scan line.rest = []) :
    line.next? = none := by
  cases hnext : line.next? with
  | none => rfl
  | some found => simp [scan_of_next? hnext] at h

@[simp] theorem scan_load (text : String) :
    Token.scan (load text).rest = Token.scan text.toList :=
  Token.scan_concat_blank (by decide) text.toList

end Line

end ReversePolish
