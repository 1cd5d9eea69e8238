import ReversePolish.Proofs.CanonicalResults
import ReversePolish.Proofs.NumberTokens
import ReversePolish.Proofs.SessionJournal
import ReversePolish.Proofs.SpacedText
import ReversePolish.Proofs.WorksheetRun

/-!
# Results as input

The text of a moderate magnitude is a single number token. Turned to the other sign where need be,
it is an expression, and a line with nothing else evaluates to the number that was written, zeros
with their signs included.
-/

namespace ReversePolish

open Binary64

/-- The line that enters a number again: its magnitude as it is written, and its sign. -/
def resultLine (negative : Bool) (rank : Fin rankCount) : String :=
  (finite false rank).write .result ++ ((if negative then " ~" else "") ++ " @")

def resultTokens (negative : Bool) (rank : Fin rankCount) : List Token :=
  ⟨.number, (finite false rank).write .result⟩ ::
    ((if negative then [⟨.negate, "~"⟩] else []) ++ [⟨.endMark, "@"⟩])

theorem Literal.Numeral.IsPlain.isNumeral {numeral : Literal.Numeral} (h : numeral.IsPlain) :
    IsNumeral numeral.chars := by
  refine isNumeral_iff.2 ⟨numeral, ?_, h.exponent, rfl⟩
  intro hnil
  rcases h.head with hzero | ⟨first, hfirst, -⟩
  · simp [hnil] at hzero
  · simp [hnil] at hfirst

theorem isNumeral_write {rank : Fin rankCount} (h : Moderate rank) :
    IsNumeral ((finite false rank).write .result).toList := by
  have hcanonical := canonical_write_finite false rank
  generalize ((finite false rank).write .result).toList = text at hcanonical
  cases hcanonical with
  | plain _ _ form => exact form.isNumeral
  | scientific _ extreme => exact absurd h extreme

theorem scan_resultLine (negative : Bool) {rank : Fin rankCount} (h : Moderate rank) :
    Token.scan (resultLine negative rank).toList = resultTokens negative rank := by
  have hblank : isBlank ' ' := by decide
  have hmark : Token.scan ['@'] = [⟨.endMark, "@"⟩] := by decide +kernel
  have hturned : Token.scan ['~', ' ', '@'] = [⟨.negate, "~"⟩, ⟨.endMark, "@"⟩] := by
    decide +kernel
  have hnumber := (isNumeral_write h).scan_eq
  rw [String.ofList_toList] at hnumber
  rw [resultLine, resultTokens, String.toList_append]
  cases negative
  · exact (Token.scan_append_blank hblank _ ['@']).trans (by rw [hnumber, hmark]; rfl)
  · exact (Token.scan_append_blank hblank _ ['~', ' ', '@']).trans (by rw [hnumber, hturned]; rfl)

namespace Calculator

variable {σ : Type} [Sink σ] {calculator : Calculator σ}

/-- The calculator has taken its tokens from the line that it had, and noted some events. -/
structure Consumes (earlier later : Calculator σ) (tokens : List Token) (events : List Event) :
    Prop where
  scan : Token.scan earlier.reader.line.rest = tokens ++ Token.scan later.reader.line.rest
  replies : later.reader.channel.replies = earlier.reader.channel.replies
  records : Records earlier later events

omit [Sink σ] in
theorem Consumes.trans {earlier later : Calculator σ} {tokens tokens' : List Token}
    {events events' : List Event} (h : Consumes earlier calculator tokens events)
    (h' : Consumes calculator later tokens' events') :
    Consumes earlier later (tokens ++ tokens') (events ++ events') where
  scan := by rw [h.scan, h'.scan, List.append_assoc]
  replies := h'.replies.trans h.replies
  records := h.records.trans h'.records

theorem exists_consumes {token : Token} {tokens : List Token}
    (hscan : Token.scan calculator.reader.line.rest = token :: tokens) :
    ∃ reader, calculator.reader.next = (.ok token, reader) ∧
      Token.scan reader.line.rest = tokens ∧
      ∀ operands, Consumes calculator { calculator with reader, operands } [token]
        [.scanned token] := by
  obtain ⟨line, hline, hrest⟩ := Line.exists_next? hscan
  have hnext := Reader.next_of_token hline
  exact ⟨_, hnext, hrest,
    fun _ => ⟨hscan.trans (congrArg _ hrest.symm), rfl, records_of_token hnext⟩⟩

theorem goes_on_of_more {progress progress' : Progress} {operands : Operands} {token : Token}
    {tokens : List Token} (hscan : Token.scan calculator.reader.line.rest = token :: tokens)
    (hstep : progress.step calculator.memory.get calculator.operands token =
      .more progress' operands) :
    ∃ later : Calculator σ, calculator.advance progress = later.advance progress' ∧
      later.operands = operands ∧ Token.scan later.reader.line.rest = tokens ∧
      Consumes calculator later [token] [.scanned token] := by
  obtain ⟨reader, hnext, hrest, hconsumes⟩ := exists_consumes hscan
  refine ⟨{ calculator with reader, operands }, ?_, rfl, hrest, hconsumes operands⟩
  rw [advance_of_token hnext, hstep]

theorem completes_of_value {progress : Progress} {token : Token} {tokens : List Token}
    {value : Binary64} {operands : Operands}
    (hscan : Token.scan calculator.reader.line.rest = token :: tokens)
    (hstep : progress.step calculator.memory.get calculator.operands token =
      .value value operands) :
    ∃ later : Calculator σ, calculator.advance progress = (.ok (.value value), later) ∧
      Consumes calculator later [token]
        [.scanned token, .evaluated calculator.memory.target value] := by
  obtain ⟨reader, hnext, -, hconsumes⟩ := exists_consumes hscan
  have hlater := hconsumes operands
  refine ⟨{ calculator with reader, operands }.store value, ?_, hlater.scan, hlater.replies,
    hlater.records.trans ⟨rfl, rfl⟩⟩
  rw [advance_of_token hnext, hstep]

/-- What the line of a result comes to once it has been taken. -/
theorem advance_resultTokens {negative : Bool} {rank : Fin rankCount}
    (hoperands : calculator.operands = {})
    (hscan : Token.scan calculator.reader.line.rest = resultTokens negative rank) :
    ∃ later : Calculator σ,
      calculator.advance .fresh = (.ok (.value (finite negative rank)), later) ∧
      Consumes calculator later (resultTokens negative rank)
        ((resultTokens negative rank).map .scanned ++
          [.evaluated calculator.memory.target (finite negative rank)]) := by
  have hnumber : Progress.fresh.step calculator.memory.get calculator.operands
      ⟨.number, (finite false rank).write .result⟩ = .more .body ⟨[finite false rank]⟩ := by
    simp only [hoperands, Progress.step, Progress.operate, numberValue, read?_write]
    rfl
  obtain ⟨found, hfound, hsingle, hrest, hconsumes⟩ := goes_on_of_more hscan hnumber
  have hmemory : found.memory = calculator.memory := hconsumes.records.memory
  rw [hfound, ← hmemory]
  cases negative with
  | false =>
    obtain ⟨later, hlater, hconsumes'⟩ := completes_of_value hrest
      (show Progress.body.step found.memory.get found.operands _ =
        .value (finite false rank) {} by rw [hsingle]; rfl)
    exact ⟨later, hlater, hconsumes.trans hconsumes'⟩
  | true =>
    obtain ⟨turned, hturned, hsingle', hrest', hconsumes'⟩ := goes_on_of_more hrest
      (show Progress.body.step found.memory.get found.operands _ =
        .more .body ⟨[finite true rank]⟩ by rw [hsingle]; rfl)
    have hmemory' : turned.memory = found.memory := hconsumes'.records.memory
    obtain ⟨later, hlater, hconsumes''⟩ := completes_of_value hrest'
      (show Progress.body.step turned.memory.get turned.operands _ =
        .value (finite true rank) {} by rw [hsingle']; rfl)
    rw [hmemory'] at hconsumes''
    refine ⟨later, hturned.trans hlater, ?_⟩
    exact (hconsumes.trans hconsumes').trans hconsumes''

/-- A calculator that is about to begin with an expression and gets the line of a moderate number
takes the number from it as a single token. It comes to that number and stores it in its target, and
nothing of the line is left. -/
theorem evaluate_result_line {calculator : Calculator σ} {rank : Fin rankCount}
    {later : List Reply} (negative : Bool) (hmoderate : Moderate rank)
    (hline : calculator.reader.line.next? = none)
    (hreplies : calculator.reader.channel.replies = .line (resultLine negative rank) :: later)
    (hfetch : calculator.reader.fetch.1 = .ok ()) :
    let v := finite negative rank
    let evaluated := calculator.evaluate.2
    calculator.evaluate.1 = .ok (.value v) ∧
      evaluated.memory = calculator.memory.store v ∧
      Records calculator evaluated ((resultTokens negative rank).map .scanned ++
        [.evaluated calculator.memory.target v]) ∧
      evaluated.reader.line.next? = none ∧ evaluated.reader.channel.replies = later := by
  have hfetched : calculator.reader.fetch = (.ok (), calculator.reader.fetch.2) :=
    Prod.ext hfetch rfl
  obtain ⟨text, htext, hload⟩ := Reader.fetch_ok hfetched
  obtain ⟨htext, hlater⟩ := List.cons.inj (htext.symm.trans hreplies)
  obtain rfl := Reply.line.inj htext
  let fetched : Calculator σ := { calculator with reader := calculator.reader.fetch.2 }.clear
  have hscan : Token.scan fetched.reader.line.rest = resultTokens negative rank := by
    change Token.scan calculator.reader.fetch.2.line.rest = _
    rw [hload, Line.scan_load, scan_resultLine negative hmoderate]
  have hevaluate : calculator.evaluate = fetched.advance .fresh :=
    evaluate_of_next_eq (Reader.next_of_fetch hline hfetched)
  have hquiet : Records calculator fetched [] := ⟨calculator.reader.journal_fetch, rfl⟩
  obtain ⟨evaluated, hevaluated, hconsumes⟩ := advance_resultTokens rfl hscan
  have hrecords := hquiet.trans hconsumes.records
  have hmemory : evaluated.memory = calculator.memory.store (finite negative rank) := by
    rw [hrecords.memory]
    cases negative <;> rfl
  have hrest : Token.scan evaluated.reader.line.rest = [] :=
    List.append_right_eq_self.1 (hconsumes.scan.symm.trans hscan)
  rw [hevaluate, hevaluated]
  exact ⟨rfl, hmemory, hrecords, Line.next?_eq_none_of_scan hrest, hconsumes.replies.trans hlater⟩

/-- A negative zero, entered again. -/
theorem evaluate_result_line_of_zero :
    let calculator : Calculator Paper := .start {} { replies := [.line "0 ~ @"], sink := {} }
    calculator.evaluate.1 = .ok (.value (.zero true)) ∧
      calculator.evaluate.2.memory = ⟨[("it", .zero true)], "it"⟩ := by
  intro calculator
  have hreplies : calculator.reader.channel.replies =
      .line (resultLine true ⟨0, by decide⟩) :: [] := by
    decide +kernel
  obtain ⟨hvalue, hmemory, -⟩ :=
    evaluate_result_line true (.inl rfl) (by decide +kernel) hreplies rfl
  exact ⟨hvalue, hmemory⟩

end Calculator

end ReversePolish
