import Mathlib.Data.List.TakeWhile
import ReversePolish.Channel
import ReversePolish.Proofs.ByteLines
import ReversePolish.Proofs.LossyDecoding

/-!
# Lines of a whole stream

Lines are taken from a stream one by one, and each is decoded on its own. That comes to the same as
decoding the whole stream at once and cutting the text after its newlines, however ill-formed the
bytes are: a newline byte is part of no other character, so it ends every sequence that is open.
-/

namespace ReversePolish

def pieces : List Char → List (List Char)
  | [] => []
  | c :: text =>
    if c = '\n' then [c] :: pieces text
    else match pieces text with
      | [] => [[c]]
      | piece :: later => (c :: piece) :: later

/-- A piece without the newline at its end, and then without one carriage return. A piece without a
newline is kept as it is. -/
def bareLine (piece : List Char) : List Char :=
  if piece.getLast? = some '\n' then
    let line := piece.dropLast
    if line.getLast? = some '\r' then line.dropLast else line
  else piece

def linesOfText (text : List Char) : List String :=
  (pieces text).map fun piece => String.ofList (bareLine piece)

theorem pieces_line {line : List Char} (h : '\n' ∉ line) (text : List Char) :
    pieces (line ++ '\n' :: text) = (line ++ ['\n']) :: pieces text := by
  induction line with
  | nil => exact if_pos rfl
  | cons c line ih =>
    rw [List.mem_cons, not_or] at h
    rw [List.cons_append, pieces, if_neg (Ne.symm h.1), ih h.2, List.cons_append]

theorem pieces_tail {tail : List Char} (h : '\n' ∉ tail) (hne : tail ≠ []) :
    pieces tail = [tail] := by
  induction tail with
  | nil => exact absurd rfl hne
  | cons c tail ih =>
    rw [List.mem_cons, not_or] at h
    rw [pieces, if_neg (Ne.symm h.1)]
    cases tail with
    | nil => rfl
    | cons c' tail => rw [ih h.2 (List.cons_ne_nil _ _)]

theorem decodeUtf8_append_newline (body rest : List UInt8) :
    decodeUtf8 (body ++ newlineByte :: rest) = decodeUtf8 body ++ '\n' :: decodeUtf8 rest := by
  have hnewline : newlineByte.toNat < 0x80 := by decide
  have hrest := (decodes_decodeUtf8 rest).single hnewline
  exact (Decodes.iff_eq_decodeUtf8.1 ((decodes_decodeUtf8 body).append hnewline hrest)).symm

theorem newline_not_mem_decodeUtf8 {body : List UInt8} (h : newlineByte ∉ body) :
    '\n' ∉ decodeUtf8 body :=
  fun hmem => h ((decodes_decodeUtf8 body).mem_of_mem hmem (by decide))

/-- The carriage return that is dropped is the same before and after decoding. -/
theorem bareLine_decodeUtf8 (body : List UInt8) :
    bareLine (decodeUtf8 body ++ ['\n']) = decodeUtf8 (dropLastReturn body) := by
  have hdecodes := decodes_decodeUtf8 body
  rw [bareLine, if_pos (by simp), List.dropLast_concat, dropLastReturn]
  by_cases hreturn : body.getLast? = some returnByte
  · obtain ⟨front, rfl⟩ := List.getLast?_eq_some_iff.1 hreturn
    have hascii : returnByte.toNat < 0x80 := by decide
    have hlast := (decodes_decodeUtf8 front).append hascii (Decodes.nil.single hascii)
    have htext : decodeUtf8 (front ++ [returnByte]) = decodeUtf8 front ++ ['\r'] :=
      (Decodes.iff_eq_decodeUtf8.1 hlast).symm
    rw [htext, if_pos hreturn]
    simp
  · have hother : (decodeUtf8 body).getLast? ≠ some '\r' := fun h =>
      hreturn (hdecodes.getLast?_of_getLast? h (by decide))
    rw [if_neg hreturn]
    exact if_neg hother

theorem linesOfText_line {body : List UInt8} (h : newlineByte ∉ body) (rest : List UInt8) :
    linesOfText (decodeUtf8 (body ++ newlineByte :: rest)) =
      lineText body :: linesOfText (decodeUtf8 rest) := by
  rw [decodeUtf8_append_newline, linesOfText, pieces_line (newline_not_mem_decodeUtf8 h),
    List.map_cons, bareLine_decodeUtf8]
  rfl

theorem linesOfText_tail {tail : List UInt8} (h : newlineByte ∉ tail) (hne : tail ≠ []) :
    linesOfText (decodeUtf8 tail) = [String.ofList (decodeUtf8 tail)] := by
  have hnewline := newline_not_mem_decodeUtf8 h
  have hdecoded : decodeUtf8 tail ≠ [] := fun hnil =>
    hne (hnil ▸ decodes_decodeUtf8 tail).eq_nil
  have hkept : bareLine (decodeUtf8 tail) = decodeUtf8 tail :=
    if_neg fun hlast => hnewline (List.mem_of_getLast? hlast)
  rw [linesOfText, pieces_tail hnewline hdecoded, List.map_singleton, hkept]

def request (bytes : List UInt8) : Option String × List UInt8 :=
  match nextLine? bytes with
  | none => (none, bytes)
  | some (line, rest) => (some line, rest)

def requests : Nat → List UInt8 → List (Option String) × List UInt8
  | 0, bytes => ([], bytes)
  | count + 1, bytes =>
    let (answer, rest) := request bytes
    let (answers, last) := requests count rest
    (answer :: answers, last)

theorem nextLine?_tail {tail : List UInt8} (h : newlineByte ∉ tail) (hne : tail ≠ []) :
    nextLine? tail = some (String.ofList (decodeUtf8 tail), []) := by
  have hall : ∀ byte ∈ tail, decide (byte ≠ newlineByte) = true := by
    intro byte hbyte
    rw [decide_eq_true_iff]
    rintro rfl
    exact h hbyte
  rw [nextLine?, if_neg hne, List.dropWhile_eq_nil_iff.2 hall, List.takeWhile_eq_self_iff.2 hall]

theorem nextLine?_eq_none_iff {bytes : List UInt8} : nextLine? bytes = none ↔ bytes = [] := by
  unfold nextLine?
  split
  · simp [*]
  · split <;> simp [*]

theorem linesOfBytes_of_nextLine? {bytes rest : List UInt8} {line : String}
    (h : nextLine? bytes = some (line, rest)) : linesOfBytes bytes = line :: linesOfBytes rest := by
  rw [linesOfBytes]
  split
  · next h' => simp [h] at h'
  · next h' =>
    rw [h] at h'
    obtain ⟨rfl, rfl⟩ := Prod.mk.inj (Option.some.inj h')
    rfl

theorem linesOfBytes_eq (bytes : List UInt8) :
    linesOfBytes bytes = linesOfText (decodeUtf8 bytes) := by
  obtain ⟨bodies, tail, rfl, hbodies, htail⟩ := exists_cut bytes
  rw [linesOfBytes_joinLines hbodies]
  induction bodies with
  | nil =>
    change linesOfBytes tail = linesOfText (decodeUtf8 tail)
    by_cases hne : tail = []
    · rw [hne, linesOfBytes_nil]
      rfl
    · rw [linesOfBytes_of_nextLine? (nextLine?_tail htail hne), linesOfText_tail htail hne,
        linesOfBytes_nil]
  | cons body bodies ih =>
    rw [List.forall_mem_cons] at hbodies
    rw [joinLines_cons, List.append_assoc, List.cons_append, linesOfText_line hbodies.1,
      ← ih hbodies.2, List.map_cons, List.cons_append]

/-- The requests deliver the lines one after the other, and then nothing. -/
theorem requests_answers (count : Nat) (bytes : List UInt8) :
    (requests count bytes).1 = (List.range count).map ((linesOfBytes bytes)[·]?) := by
  induction count generalizing bytes with
  | zero => rfl
  | succ count ih =>
    rw [List.range_succ_eq_map, List.map_cons, List.map_map, requests, request]
    cases hnext : nextLine? bytes with
    | none =>
      obtain rfl := nextLine?_eq_none_iff.1 hnext
      have hanswers := ih []
      rw [linesOfBytes_nil] at hanswers ⊢
      exact congrArg (none :: ·) hanswers
    | some found =>
      obtain ⟨line, rest⟩ := found
      rw [linesOfBytes_of_nextLine? hnext]
      exact congrArg (some line :: ·) (ih rest)

theorem requests_nil (count : Nat) : (requests count []).2 = [] := by
  induction count with
  | zero => rfl
  | succ count ih => exact ih

/-- So many requests leave what comes after as many newlines, and nothing if there are fewer. -/
theorem requests_rest (count : Nat) (bytes : List UInt8) :
    (∃ read, bytes = read ++ (requests count bytes).2 ∧ EndsLine read ∧
      read.count newlineByte = count) ∨
    bytes.count newlineByte < count ∧ (requests count bytes).2 = [] := by
  induction count generalizing bytes with
  | zero => exact .inl ⟨[], rfl, .inl rfl, rfl⟩
  | succ count ih =>
    by_cases hmem : newlineByte ∈ bytes
    · obtain ⟨body, rest, rfl, hbody⟩ := List.eq_append_cons_of_mem hmem
      have hrest : (requests (count + 1) (body ++ newlineByte :: rest)).2 =
          (requests count rest).2 := by
        rw [requests, request, nextLine?_body hbody]
      have hcount :
          (body ++ newlineByte :: rest).count newlineByte = rest.count newlineByte + 1 := by
        rw [List.count_append, List.count_cons_self, List.count_eq_zero_of_not_mem hbody,
          Nat.zero_add]
      rw [hrest]
      rcases ih rest with ⟨read, hread, hends, hnewlines⟩ | ⟨hfew, hnil⟩
      · refine .inl ⟨body ++ newlineByte :: read, ?_, .inr ?_, ?_⟩
        · rw [List.append_assoc, List.cons_append, ← hread]
        · rcases hends with rfl | hlast
          · simp
          · rw [List.getLast?_append, List.getLast?_cons, hlast]
            rfl
        · rw [List.count_append, List.count_cons_self, List.count_eq_zero_of_not_mem hbody,
            hnewlines, Nat.zero_add]
      · exact .inr ⟨by omega, hnil⟩
    · right
      rw [List.count_eq_zero_of_not_mem hmem]
      refine ⟨Nat.succ_pos count, ?_⟩
      by_cases hne : bytes = []
      · rw [hne, requests_nil]
      · rw [requests, request, nextLine?_tail hmem hne]
        exact requests_nil count

/-- For all bytes there is exactly one text with every ill-formed part replaced. The lines that are
delivered, and that repeated requests deliver before they find nothing for ever, are the lines of
this text, although each is decoded on its own. So many requests leave exactly the bytes after as
many newline bytes, and none if there are fewer. -/
theorem lines_of_whole_text (bytes : List UInt8) :
    ∃ text, (∀ other, Decodes bytes other ↔ other = text) ∧
      linesOfBytes bytes = linesOfText text ∧
      repliesOfBytes bytes = (linesOfText text).map .line ∧
      ∀ count, (requests count bytes).1 = (List.range count).map ((linesOfText text)[·]?) ∧
        ((∃ read, bytes = read ++ (requests count bytes).2 ∧ EndsLine read ∧
            read.count newlineByte = count) ∨
          bytes.count newlineByte < count ∧ (requests count bytes).2 = []) := by
  have hlines := linesOfBytes_eq bytes
  refine ⟨decodeUtf8 bytes, fun _ => Decodes.iff_eq_decodeUtf8, hlines, ?_, fun count =>
    ⟨?_, requests_rest count bytes⟩⟩
  · rw [repliesOfBytes, hlines]
  · rw [requests_answers, hlines]

/-- A sequence that a line end cuts off, two carriage returns, an empty line and a last line. -/
example :
    linesOfText (decodeUtf8 [0xe2, 0x82, 0x0d, 0x0a, 0x0d, 0x0d, 0x0a, 0x0a, 0xc0, 0x41, 0x0d]) =
      ["\ufffd", "\r", "", "\ufffdA\r"] := by
  decide

end ReversePolish
