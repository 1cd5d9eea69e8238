import Mathlib.Data.PFun
import ReversePolish.Calculator

/-!
# Calculators that take one character at a time

A machine does what a calculator does, on a line that it keeps whole with a cursor in it. It takes
the characters one by one, puts the last one back after a number or a name, and asks for a line
whenever the cursor has come to the end. Nothing is granted to it: a character beyond the line, a
character put back twice and one put back before the line crash it, and its loops are not known to
end.
-/

namespace ReversePolish

inductive Crash where
  /-- Part of a line is asked for that the line does not have. -/
  | pastEnd
  /-- A character is put back and none has been taken since the last one. -/
  | unreadTwice
  /-- A character is put back in front of the line. -/
  | beforeStart
  deriving DecidableEq

/-- A program on states of type `S`. It comes to a value or stops with a reason, in a new state, or
it crashes. A program that never comes to an end is `none`. -/
abbrev Program (S ε : Type) := ExceptT ε (StateT S (ExceptT Crash Option))

namespace Program

variable {S ε ε' α β : Type}

def crash (fault : Crash) : Program S ε α := fun _ => some (.error fault)

def require (condition : Prop) [Decidable condition] (fault : Crash) : Program S ε Unit :=
  if condition then pure () else crash fault

/-- Goes on with whatever a program has come to. -/
def outcome (program : Program S ε α) : Program S ε' (Except ε α) := fun state =>
  match program state with
  | none => none
  | some (.error crash) => some (.error crash)
  | some (.ok (answer, later)) => some (.ok (.ok answer, later))

/-- A program comes to an end in a state, without a crash. -/
def Gives (program : Program S ε α) (state : S) (answer : Except ε α) (later : S) : Prop :=
  program state = some (.ok (answer, later))

variable {program : Program S ε α} {next : α → Program S ε β} {state later last : S}

theorem gives_pure (value : α) (state : S) :
    (pure value : Program S ε α).Gives state (.ok value) state := rfl

theorem gives_throw (reason : ε) (state : S) :
    (throw reason : Program S ε α).Gives state (.error reason) state := rfl

theorem gives_get (state : S) : (get : Program S ε S).Gives state (.ok state) state := rfl

theorem gives_set (state later : S) : (set later : Program S ε PUnit).Gives state (.ok ⟨⟩) later :=
  rfl

theorem gives_modify (f : S → S) (state : S) :
    (modify f : Program S ε PUnit).Gives state (.ok ⟨⟩) (f state) := rfl

theorem gives_require {condition : Prop} [Decidable condition] (h : condition) (fault : Crash)
    (state : S) : (require condition fault : Program S ε Unit).Gives state (.ok ()) state := by
  rw [require, if_pos h]
  exact gives_pure () state

theorem crashes_require {condition : Prop} [Decidable condition] (h : ¬condition) (fault : Crash)
    (next : Unit → Program S ε β) (state : S) :
    (require condition fault >>= next) state = some (.error fault) := by
  rw [require, if_neg h]
  rfl

theorem run_bind (program : Program S ε α) (next : α → Program S ε β) (state : S) :
    (program >>= next) state = match program state with
      | none => none
      | some (.error crash) => some (.error crash)
      | some (.ok (.error reason, later)) => some (.ok (.error reason, later))
      | some (.ok (.ok value, later)) => next value later := by
  change ExceptT.bind program next state = _
  simp only [ExceptT.bind, ExceptT.mk, bind, StateT.bind, ExceptT.bindCont]
  match program state with
  | none => rfl
  | some (.error crash) => rfl
  | some (.ok (.error reason, later)) => rfl
  | some (.ok (.ok value, later)) => rfl

theorem bind_eq (next : α → Program S ε β) {value : α}
    (h : program.Gives state (.ok value) later) : (program >>= next) state = next value later := by
  rw [run_bind, show program state = _ from h]

/-- What a program does next depends on what it has come to, not on how. -/
theorem bind_congr {program' : Program S ε α} {state' : S} (h : program state = program' state')
    (next : α → Program S ε β) : (program >>= next) state = (program' >>= next) state' := by
  rw [run_bind, run_bind, h]

theorem Gives.bind {value : α} {answer : Except ε β} (h : program.Gives state (.ok value) later)
    (h' : (next value).Gives later answer last) : (program >>= next).Gives state answer last :=
  (bind_eq next h).trans h'

theorem Gives.stop {reason : ε} (h : program.Gives state (.error reason) later)
    (next : α → Program S ε β) : (program >>= next).Gives state (.error reason) later := by
  rw [Gives, run_bind, show program state = _ from h]

theorem Gives.unique {answer answer' : Except ε α} (h : program.Gives state answer later)
    (h' : program.Gives state answer' last) : answer = answer' ∧ later = last :=
  Prod.mk.inj (Except.ok.inj (Option.some.inj (h.symm.trans h')))

/-- What a turn of a loop leads to by what its body has come to: the end of the loop, or another
turn. -/
def turn : Except Crash (Except ε (β ⊕ α) × S) → Except Crash (Except ε β × S) ⊕ α × S
  | .error crash => .inl (.error crash)
  | .ok (.error reason, later) => .inl (.ok (.error reason, later))
  | .ok (.ok (.inl result), later) => .inl (.ok (.ok result, later))
  | .ok (.ok (.inr value), later) => .inr (value, later)

def turns (body : α → Program S ε (β ⊕ α)) : α × S →. Except Crash (Except ε β × S) ⊕ α × S :=
  fun (value, state) => (Part.ofOption (body value state)).map turn

open Classical in
/-- Repeats its body until that comes to a result. If this never happens, the loop is `none`. -/
noncomputable def loop (body : α → Program S ε (β ⊕ α)) (value : α) : Program S ε β :=
  fun state => ((turns body).fix (value, state)).toOption

open Classical in
/-- A loop begins with its body and goes on as that says. -/
theorem loop_eq (body : α → Program S ε (β ⊕ α)) (value : α) :
    loop body value = body value >>= Sum.elim pure (loop body) := by
  funext state
  rw [run_bind]
  cases hbody : body value state with
  | none =>
    refine Part.toOption_eq_none_iff.2 fun hdom => ?_
    have hfirst := PFun.dom_of_mem_fix (Part.get_mem hdom)
    rw [turns, hbody] at hfirst
    exact hfirst
  | some outcome =>
    have hturn : turn outcome ∈ turns body (value, state) :=
      Part.mem_map _ (Part.mem_ofOption.2 hbody)
    match outcome with
    | .error crash => exact Part.toOption_eq_some_iff.2 (PFun.fix_stop hturn)
    | .ok (.error reason, later) => exact Part.toOption_eq_some_iff.2 (PFun.fix_stop hturn)
    | .ok (.ok (.inl result), later) => exact Part.toOption_eq_some_iff.2 (PFun.fix_stop hturn)
    | .ok (.ok (.inr value), later) => simp only [loop, PFun.fix_fwd_eq hturn, Sum.elim_inr]

theorem Gives.outcome {answer : Except ε α} (h : program.Gives state answer later) :
    (program.outcome : Program S ε' _).Gives state (.ok answer) later := by
  rw [Gives, Program.outcome, show program state = _ from h]

end Program

open Program

/-- A calculator that keeps its line whole and counts the characters taken from it. -/
structure Machine (σ : Type) where
  channel : Channel σ
  prompt : String
  chars : List Char := []
  cursor : Nat := 0
  /-- A character has been taken since the last one was put back. -/
  canUnread : Bool := false
  memory : Memory
  farewell : String
  operands : Operands := {}

namespace Machine

variable {σ ε : Type}

def start (settings : Settings) (channel : Channel σ) : Machine σ :=
  { channel, prompt := settings.prompt, memory := { target := settings.target },
    farewell := settings.farewell }

def use (reason : String → ε) (operation : Channel σ → Except String Unit × Channel σ) :
    Program (Machine σ) ε Unit := fun machine =>
  let (answer, channel) := operation machine.channel
  some (.ok (answer.mapError reason, { machine with channel }))

def note (event : Event) : Program (Machine σ) ε Unit :=
  modify fun machine => { machine with channel := machine.channel.note event }

def clear : Program (Machine σ) ε Unit :=
  modify fun machine => { machine with operands := machine.operands.clear }

def skipLine : Program (Machine σ) ε Unit :=
  modify fun machine => { machine with cursor := machine.chars.length, canUnread := false }

def currentLine : Program (Machine σ) ε String := do
  let machine ← get
  let stop := machine.chars.length - 1
  require (stop ≤ machine.chars.length) .pastEnd
  return String.ofList (machine.chars.take stop)

def load : Program (Machine σ) Stop Unit := fun machine =>
  let (reply, channel) := machine.channel.readLine
  some <| .ok <| match reply with
    | .line text => (.ok (), { machine with channel, chars := text.toList ++ ['\n'], cursor := 0 })
    | .ended => (.error (.ended .endOfInput), { machine with channel })
    | .failed message => (.error (.failed message), { machine with channel })

def takeChar : Program (Machine σ) Stop Char := do
  let machine ← get
  match machine.chars[machine.cursor]? with
  | none => crash .pastEnd
  | some c =>
    set { machine with cursor := machine.cursor + 1, canUnread := true }
    return c

def unread : Program (Machine σ) Stop Unit := do
  let machine ← get
  require machine.canUnread .unreadTwice
  require (0 < machine.cursor) .beforeStart
  set { machine with cursor := machine.cursor - 1, canUnread := false }

variable [Sink σ]

def ask : Program (Machine σ) Stop Unit := do
  let prompt := (← get).prompt
  if prompt = "" then use .failed (·.flush)
  else
    use .failed (·.write prompt)
    use .failed (·.flush)

def fetch : Program (Machine σ) Stop Unit := do
  ask
  load

/-- Takes the next character, from a new line if there is none left on this one. -/
def nextChar : Program (Machine σ) Stop Char := do
  let machine ← get
  if machine.chars.length ≤ machine.cursor then
    fetch
    takeChar
  else takeChar

/-- Takes characters until one is not blank, beginning with one already taken. -/
noncomputable def skipBlanks : Char → Program (Machine σ) Stop Char :=
  loop fun c => do
    if isBlank c then
      let c ← nextChar
      return .inr c
    else return .inl c

theorem skipBlanks_eq (c : Char) :
    (skipBlanks c : Program (Machine σ) _ _) = if isBlank c then nextChar >>= skipBlanks
      else pure c := by
  refine (loop_eq _ _).trans ?_
  split
  · simp only [bind_assoc, pure_bind]
    rfl
  · exact pure_bind _ _

noncomputable def collect (kind : Char → Bool) (text : List Char) (c : Char) :
    Program (Machine σ) Stop (List Char × Char) :=
  loop (fun (text, c) => do
    if kind c then
      let c' ← nextChar
      return .inr (text ++ [c], c')
    else return .inl (text, c)) (text, c)

theorem collect_eq (kind : Char → Bool) (text : List Char) (c : Char) :
    (collect kind text c : Program (Machine σ) _ _) =
      if kind c then nextChar >>= collect kind (text ++ [c]) else pure (text, c) := by
  refine (loop_eq _ _).trans ?_
  dsimp only
  split
  · simp only [bind_assoc, pure_bind]
    rfl
  · exact pure_bind _ _

noncomputable def number (first : Char) : Program (Machine σ) Stop Token := do
  let (whole, c) ← collect Char.isDigit [] first
  if c = '.' then
    let c' ← nextChar
    let (text, _) ← collect Char.isDigit (whole ++ [c]) c'
    unread
    return ⟨.number, String.ofList text⟩
  else
    unread
    return ⟨.number, String.ofList whole⟩

noncomputable def name (first : Char) : Program (Machine σ) Stop Token := do
  let (text, _) ← collect Token.isNameChar [] first
  unread
  return ⟨.identifier, String.ofList text⟩

noncomputable def tokenFrom (first : Char) : Program (Machine σ) Stop Token :=
  if first.isDigit then number first
  else if isLetter first then name first
  else return ⟨.ofSymbol first, String.ofList [first]⟩

noncomputable def nextVisible : Program (Machine σ) Stop Char := do
  let c ← nextChar
  skipBlanks c

noncomputable def nextToken : Program (Machine σ) Stop Token := do
  let first ← nextVisible
  let token ← tokenFrom first
  note (.scanned token)
  return token

def reject (rejection : Rejection) : Program (Machine σ) Stop Outcome := do
  clear
  let position := (← get).cursor
  note (.rejected rejection position)
  let source ← currentLine
  use .failed (·.writeLines (rejection.report source position))
  skipLine
  return .rejected rejection

def heed (machine : Machine σ) : Verdict → Program (Machine σ) Stop (Outcome ⊕ Progress)
  | .more progress operands => do
    set { machine with operands }
    return .inr progress
  | .retarget name operands => do
    set { machine with memory := machine.memory.retarget name, operands }
    note (.retargeted name)
    return .inr (.assigned name)
  | .ignore operands => do
    set { machine with operands }
    note .assignIgnored
    return .inr .body
  | .value value operands => do
    set { machine with memory := machine.memory.store value, operands }
    note (.evaluated machine.memory.target value)
    return .inl (.value value)
  | .reject rejection => do
    let outcome ← reject rejection
    return .inl outcome
  | .exit => throw (.ended .exit)

noncomputable def advance : Progress → Program (Machine σ) Stop Outcome :=
  loop fun progress => do
    let token ← nextToken
    let machine ← get
    heed machine (progress.step machine.memory.get machine.operands token)

noncomputable def evaluate : Program (Machine σ) Stop Outcome := do
  clear
  advance .fresh

def close (how : Ending) : Program (Machine σ) String Ending := do
  note (.ended how)
  let farewell := (← get).farewell
  use id (·.writeLine ("\n" ++ farewell))
  use id (·.flush)
  return how

noncomputable def converse : Program (Machine σ) String Ending :=
  loop (fun () => do
    match ← evaluate.outcome with
    | .ok outcome =>
      use id (·.writeLine outcome.line)
      return .inr ()
    | .error (.ended how) =>
      let ending ← close how
      return .inl ending
    | .error (.failed message) => throw message) ()

theorem converse_eq :
    (converse : Program (Machine σ) _ _) = evaluate.outcome >>= fun
      | .ok outcome => do
        use id (·.writeLine outcome.line)
        converse
      | .error (.ended how) => close how
      | .error (.failed message) => throw message := by
  refine (loop_eq _ _).trans ((bind_assoc _ _ _).trans (bind_congr fun result => ?_))
  match result with
  | .ok outcome => exact (bind_assoc _ _ _).trans (bind_congr fun _ => pure_bind _ _)
  | .error (.ended how) => exact (bind_assoc _ _ _).trans (bind_pure _)
  | .error (.failed message) => rfl

noncomputable def run : Program (Machine σ) String Ending := do
  note .started
  converse

end Machine

end ReversePolish
