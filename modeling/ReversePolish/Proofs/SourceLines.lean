import ReversePolish.Proofs.StreamLines
import ReversePolish.Source

/-!
# Lines of a source

Read line by line, a source that ends after its bytes delivers the lines of the bytes. A source that
fails there delivers those that a newline ends, and then its failure. A channel over the replies of
a source answers as the source does.
-/

namespace ReversePolish.Source

variable {failure : Option String} {body tail : List UInt8}

theorem takeLine_body (hbody : newlineByte ∉ body) (rest : List UInt8) :
    takeLine failure (body ++ newlineByte :: rest) = (.ok (body ++ [newlineByte]), rest) := by
  induction body with
  | nil => exact if_pos rfl
  | cons byte body ih =>
    rw [List.mem_cons, not_or] at hbody
    rw [List.cons_append, takeLine, if_neg (Ne.symm hbody.1), ih hbody.2]
    rfl

theorem takeLine_tail (htail : newlineByte ∉ tail) :
    takeLine failure tail = (match failure with
      | none => .ok tail
      | some message => .error message, []) := by
  induction tail with
  | nil => rfl
  | cons byte tail ih =>
    rw [List.mem_cons, not_or] at htail
    rw [takeLine, if_neg (Ne.symm htail.1), ih htail.2]
    cases failure <;> rfl

theorem readLine_body (hbody : newlineByte ∉ body) (rest : List UInt8) :
    readLine ⟨body ++ newlineByte :: rest, failure⟩ = (.line (lineText body), ⟨rest, failure⟩) := by
  have htext : lineOfBytes (body ++ [newlineByte]) = lineText body := by
    rw [lineOfBytes, if_pos List.getLast?_concat, List.dropLast_concat]
    rfl
  rw [readLine, takeLine_body hbody, ← htext]
  cases body <;> rfl

theorem readLine_nil :
    readLine ⟨[], failure⟩ = (match failure with
      | none => .ended
      | some message => .failed message, ⟨[], failure⟩) := by
  cases failure <;> rfl

theorem readLine_tail (htail : newlineByte ∉ tail) (hne : tail ≠ []) :
    readLine ⟨tail, none⟩ = (.line (String.ofList (decodeUtf8 tail)), ⟨[], none⟩) := by
  have htext : lineOfBytes tail = String.ofList (decodeUtf8 tail) := by
    rw [lineOfBytes, if_neg fun hlast => htail (List.mem_of_getLast? hlast)]
  rw [readLine, takeLine_tail htail, ← htext]
  cases tail with
  | nil => exact absurd rfl hne
  | cons => rfl

theorem readLine_cut_short (htail : newlineByte ∉ tail) (message : String) :
    readLine ⟨tail, some message⟩ = (.failed message, ⟨[], some message⟩) := by
  rw [readLine, takeLine_tail htail]

theorem replies_of_line {source later : Source} {text : String}
    (h : source.readLine = (.line text, later)) :
    source.replies = .line text :: later.replies := by
  rw [replies]
  split
  · next h' =>
    obtain ⟨htext, rfl⟩ := Prod.mk.inj (h.symm.trans h')
    rw [Reply.line.inj htext]
  all_goals
    next h' =>
      rw [h] at h'
      cases h'

theorem replies_of_no_line {source later : Source} {reply : Reply}
    (h : source.readLine = (reply, later)) (hreply : ∀ text, reply ≠ .line text) :
    source.replies = [reply].filter (· ≠ .ended) := by
  rw [replies]
  split <;> next h' => obtain ⟨rfl, rfl⟩ := Prod.mk.inj (h.symm.trans h'); simp_all

theorem replies_joinLines {bodies : List (List UInt8)}
    (hbodies : ∀ body ∈ bodies, newlineByte ∉ body) (rest : List UInt8) :
    replies ⟨joinLines bodies ++ rest, failure⟩ =
      (bodies.map lineText).map .line ++ replies ⟨rest, failure⟩ := by
  induction bodies with
  | nil => rfl
  | cons body bodies ih =>
    rw [List.forall_mem_cons] at hbodies
    rw [joinLines_cons, List.append_assoc, List.cons_append,
      replies_of_line (readLine_body hbodies.1 _), ih hbodies.2]
    rfl

/-- A source that ends delivers the lines of its bytes. -/
theorem replies_ending (bytes : List UInt8) :
    ({ bytes } : Source).replies = repliesOfBytes bytes := by
  obtain ⟨bodies, tail, rfl, hbodies, htail⟩ := exists_cut bytes
  rw [replies_joinLines hbodies, repliesOfBytes, linesOfBytes_joinLines hbodies, List.map_append]
  by_cases hne : tail = []
  · rw [hne, linesOfBytes_nil, replies_of_no_line readLine_nil (by simp)]
    rfl
  · rw [replies_of_line (readLine_tail htail hne),
      linesOfBytes_of_nextLine? (nextLine?_tail htail hne), linesOfBytes_nil,
      replies_of_no_line readLine_nil (by simp)]
    rfl

/-- A source that fails delivers the lines that a newline ends, and then it fails. -/
theorem replies_failing (bytes : List UInt8) (message : String) :
    ({ bytes, failure := some message } : Source).replies = repliesUntilFailure bytes message := by
  obtain ⟨bodies, tail, cut⟩ := exists_cut bytes
  have hlast : replies ⟨tail, some message⟩ = [.failed message] :=
    (replies_of_no_line (readLine_cut_short cut.tail message) (by simp)).trans rfl
  rw [repliesUntilFailure, repliesOfBytes, cut.wholeLines_eq, linesOfBytes_joined cut.bodies,
    cut.eq, replies_joinLines cut.bodies, hlast]

/-- Once a source has delivered no line, it answers every request in the same way. -/
theorem readLine_again {source later : Source} {reply : Reply}
    (h : source.readLine = (reply, later)) (hreply : ∀ text, reply ≠ .line text) :
    later.readLine = (reply, later) := by
  obtain ⟨bytes, failure⟩ := source
  obtain ⟨bodies, tail, rfl, hbodies, htail⟩ := exists_cut bytes
  cases bodies with
  | cons body bodies =>
    rw [List.forall_mem_cons] at hbodies
    rw [joinLines_cons, List.append_assoc, List.cons_append, readLine_body hbodies.1] at h
    exact absurd (Prod.mk.inj h).1.symm (hreply _)
  | nil =>
    rw [show joinLines [] ++ tail = tail from rfl] at h
    cases failure with
    | some message =>
      rw [readLine_cut_short htail] at h
      obtain ⟨rfl, rfl⟩ := Prod.mk.inj h
      exact readLine_nil
    | none =>
      by_cases hne : tail = []
      · rw [hne, readLine_nil] at h
        obtain ⟨rfl, rfl⟩ := Prod.mk.inj h
        exact readLine_nil
      · rw [readLine_tail htail hne] at h
        exact absurd (Prod.mk.inj h).1.symm (hreply _)

/-- A channel over the replies of a source answers a request as the source does, and unless that is
the failure it is then over the replies of what is left of the source. -/
theorem readLine_channel {σ : Type} (source : Source) {channel : Channel σ}
    (h : channel.replies = source.replies) :
    channel.readLine.1 = source.readLine.1 ∧
      ((∀ message, source.readLine.1 ≠ .failed message) →
        channel.readLine.2.replies = source.readLine.2.replies) := by
  generalize hread : source.readLine = read
  obtain ⟨reply, later⟩ := read
  cases reply with
  | line text =>
    rw [replies_of_line hread] at h
    simp [Channel.readLine, h]
  | ended =>
    rw [replies_of_no_line hread (by simp)] at h
    rw [replies_of_no_line (readLine_again hread (by simp)) (by simp)]
    simp [Channel.readLine, h]
  | failed message =>
    rw [replies_of_no_line hread (by simp)] at h
    simp [Channel.readLine, h]

/-- A line that is cut short by the failure, and the same bytes from a source that ends. -/
example :
    ({ bytes := [0x31, 0x0d, 0x0a, 0x32], failure := some "gone" } : Source).replies =
        [.line "1", .failed "gone"] ∧
      ({ bytes := [0x31, 0x0d, 0x0a, 0x32] } : Source).replies = [.line "1", .line "2"] := by
  rw [replies_failing, replies_ending]
  decide +kernel

end ReversePolish.Source
