import Mathlib.Data.List.Basic
import ReversePolish.Text.Lines

/-!
# Cutting a byte stream at its newlines

Every byte stream is made of lines that end with a newline and of a tail without one. Cut after a
newline, it has the lines of its two parts; cut anywhere else, a line would be torn in two.
-/

namespace ReversePolish

/-- The bytes are none, or the last of them ends a line. -/
def EndsLine (bytes : List UInt8) : Prop := bytes = [] ∨ bytes.getLast? = some newlineByte

/-- The stream of some lines, each ended by a newline. -/
def joinLines (bodies : List (List UInt8)) : List UInt8 := bodies.flatMap (· ++ [newlineByte])

def lineText (body : List UInt8) : String := String.ofList (decodeUtf8 (dropLastReturn body))

/-- A byte stream as its lines and what comes after the last newline. -/
structure Cut (bytes : List UInt8) (bodies : List (List UInt8)) (tail : List UInt8) : Prop where
  eq : bytes = joinLines bodies ++ tail
  bodies : ∀ body ∈ bodies, newlineByte ∉ body
  tail : newlineByte ∉ tail

theorem joinLines_append (bodies bodies' : List (List UInt8)) :
    joinLines (bodies ++ bodies') = joinLines bodies ++ joinLines bodies' :=
  List.flatMap_append

theorem joinLines_cons (body : List UInt8) (bodies : List (List UInt8)) :
    joinLines (body :: bodies) = body ++ newlineByte :: joinLines bodies := by
  rw [joinLines, List.flatMap_cons, List.append_assoc]
  rfl

theorem endsLine_joinLines (bodies : List (List UInt8)) : EndsLine (joinLines bodies) := by
  rcases List.eq_nil_or_concat bodies with rfl | ⟨front, body, rfl⟩
  · exact .inl rfl
  · right
    rw [List.concat_eq_append, joinLines_append, joinLines_cons]
    simp [joinLines]

theorem exists_cut (bytes : List UInt8) : ∃ bodies tail, Cut bytes bodies tail := by
  induction bytes with
  | nil => exact ⟨[], [], rfl, by simp, by simp⟩
  | cons byte bytes ih =>
    obtain ⟨bodies, tail, rfl, hbodies, htail⟩ := ih
    by_cases hbyte : byte = newlineByte
    · subst hbyte
      exact ⟨[] :: bodies, tail, rfl, by simpa using hbodies, htail⟩
    · -- The byte goes to the first line, or to the tail if there is none.
      cases bodies with
      | nil => exact ⟨[], byte :: tail, rfl, hbodies, by simp [htail, Ne.symm hbyte]⟩
      | cons body bodies =>
        rw [List.forall_mem_cons] at hbodies
        refine ⟨(byte :: body) :: bodies, tail, rfl, ?_, htail⟩
        rw [List.forall_mem_cons]
        exact ⟨by simp [hbodies.1, Ne.symm hbyte], hbodies.2⟩

theorem Cut.tail_eq_nil {bytes tail : List UInt8} {bodies : List (List UInt8)}
    (cut : Cut bytes bodies tail) (h : EndsLine bytes) : tail = [] := by
  obtain ⟨rfl, -, htail⟩ := cut
  rcases h with h | h
  · exact (List.append_eq_nil_iff.1 h).2
  · by_cases hne : tail = []
    · exact hne
    · rw [List.getLast?_append_of_ne_nil _ hne] at h
      exact absurd (List.mem_of_getLast? h) htail

theorem exists_joinLines {bytes : List UInt8} (h : EndsLine bytes) :
    ∃ bodies, bytes = joinLines bodies ∧ ∀ body ∈ bodies, newlineByte ∉ body := by
  obtain ⟨bodies, tail, cut⟩ := exists_cut bytes
  obtain rfl := cut.tail_eq_nil h
  exact ⟨bodies, cut.eq.trans (List.append_nil _), cut.bodies⟩

theorem nextLine?_body {body : List UInt8} (hbody : newlineByte ∉ body) (rest : List UInt8) :
    nextLine? (body ++ newlineByte :: rest) = some (lineText body, rest) := by
  have hall : ∀ byte ∈ body, decide (byte ≠ newlineByte) = true := by
    intro byte hbyte
    rw [decide_eq_true_iff]
    rintro rfl
    exact hbody hbyte
  rw [nextLine?, if_neg (by simp), List.takeWhile_append_of_pos hall,
    List.dropWhile_append_of_pos hall]
  simp [lineText]

theorem linesOfBytes_joinLines {bodies : List (List UInt8)}
    (hbodies : ∀ body ∈ bodies, newlineByte ∉ body) (rest : List UInt8) :
    linesOfBytes (joinLines bodies ++ rest) = bodies.map lineText ++ linesOfBytes rest := by
  induction bodies with
  | nil => rfl
  | cons body bodies ih =>
    rw [List.forall_mem_cons] at hbodies
    rw [joinLines_cons, List.append_assoc, List.cons_append, linesOfBytes]
    split
    · next h => simp [nextLine?_body hbodies.1] at h
    · next line rest' h =>
      rw [nextLine?_body hbodies.1] at h
      obtain ⟨rfl, rfl⟩ := Prod.mk.inj (Option.some.inj h)
      rw [ih hbodies.2, List.map_cons, List.cons_append]

theorem linesOfBytes_nil : linesOfBytes [] = [] := by
  rw [linesOfBytes]
  rfl

theorem linesOfBytes_joined {bodies : List (List UInt8)}
    (hbodies : ∀ body ∈ bodies, newlineByte ∉ body) :
    linesOfBytes (joinLines bodies) = bodies.map lineText := by
  have hlines := linesOfBytes_joinLines hbodies []
  rw [List.append_nil, linesOfBytes_nil, List.append_nil] at hlines
  exact hlines

theorem linesOfBytes_append {front : List UInt8} (hfront : EndsLine front) (more : List UInt8) :
    linesOfBytes (front ++ more) = linesOfBytes front ++ linesOfBytes more := by
  obtain ⟨bodies, rfl, hbodies⟩ := exists_joinLines hfront
  rw [linesOfBytes_joinLines hbodies, linesOfBytes_joined hbodies]

/-- Up to the last newline stand the lines, and nothing of the tail. -/
theorem Cut.wholeLines_eq {bytes tail : List UInt8} {bodies : List (List UInt8)}
    (cut : Cut bytes bodies tail) : wholeLines bytes = joinLines bodies := by
  obtain ⟨rfl, -, htail⟩ := cut
  have hall : ∀ byte ∈ tail.reverse, decide (byte ≠ newlineByte) = true := by
    intro byte hbyte
    rw [decide_eq_true_iff]
    rintro rfl
    exact htail (List.mem_reverse.1 hbyte)
  rw [wholeLines, List.reverse_append, List.dropWhile_append_of_pos hall, List.reverse_eq_iff]
  rcases endsLine_joinLines bodies with hnil | hlast
  · simp [hnil]
  · obtain ⟨front, hfront⟩ := List.getLast?_eq_some_iff.1 hlast
    simp [hfront]

theorem endsLine_wholeLines (bytes : List UInt8) : EndsLine (wholeLines bytes) := by
  obtain ⟨bodies, tail, cut⟩ := exists_cut bytes
  rw [cut.wholeLines_eq]
  exact endsLine_joinLines bodies

theorem wholeLines_isPrefix (bytes : List UInt8) : wholeLines bytes <+: bytes := by
  obtain ⟨bodies, tail, cut⟩ := exists_cut bytes
  rw [cut.wholeLines_eq]
  exact ⟨tail, cut.eq.symm⟩

/-- No longer part of the stream ends a line. -/
theorem prefix_wholeLines {bytes front : List UInt8} (hbegins : front <+: bytes)
    (hfront : EndsLine front) : front <+: wholeLines bytes := by
  obtain ⟨bodies, tail, cut⟩ := exists_cut bytes
  have hwhole := wholeLines_isPrefix bytes
  rcases List.prefix_or_prefix_of_prefix hbegins hwhole with h | ⟨extra, rfl⟩
  · exact h
  · -- What goes beyond the last newline begins the tail.
    rw [cut.wholeLines_eq] at hbegins hfront ⊢
    rw [cut.eq, List.prefix_append_right_inj] at hbegins
    have hcut : Cut (joinLines bodies ++ extra) bodies extra :=
      ⟨rfl, cut.bodies, fun h => cut.tail (hbegins.subset h)⟩
    refine ⟨[], ?_⟩
    rw [hcut.tail_eq_nil hfront, List.append_nil, List.append_nil]

end ReversePolish
