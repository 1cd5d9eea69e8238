import ReversePolish.Proofs.ExpressionValue
import ReversePolish.Proofs.FailingRequests
import ReversePolish.Proofs.NumberTokens
import ReversePolish.Proofs.SessionJournal
import ReversePolish.Proofs.TakenWrites

/-!
# What is wrong with an expression

An expression is refused for the first token that is out of place, and what is out of place is said
by counting: the depth before a token is how many operands there are before it, less the operators.
A name by itself makes demands of its own on the token after it, and an equals sign after it starts
the count anew. An evaluation finds that token whatever else is wrong later on, takes nothing after
it, and only then begins the report.
-/

namespace ReversePolish

def Token.isOperand (token : Token) : Bool := token.kind = .number || token.kind = .identifier

def Token.isOperator (token : Token) : Bool :=
  match token.kind with
  | .operator _ => true
  | _ => false

def IsLeadingName (tokens : List Token) : Prop := ∃ name, tokens = [⟨.identifier, name⟩]

def IsBareAssignment (tokens : List Token) : Prop := ∃ name, assignment? tokens = some (name, [])

/-- The tokens that count, those after a leading name and an equals sign. -/
def counted (tokens : List Token) : List Token :=
  ((assignment? tokens).map Prod.snd).getD tokens

def balance (tokens : List Token) : Int :=
  tokens.countP Token.isOperand - tokens.countP Token.isOperator

/-- How many operands the operators have left, of the tokens that count. -/
def depth (tokens : List Token) : Int := balance (counted tokens)

/-- What is wrong with a token that comes after some others. -/
inductive Fault (before : List Token) (token : Token) : Rejection → Prop
  | unexpected (leading : IsLeadingName before)
      (kind : token.isOperator ∨ token.kind = .invalid) :
      Fault before token (.unexpected token.text)
  | unreadable (noLeading : ¬IsLeadingName before) (kind : token.kind = .invalid) :
      Fault before token (.unreadable token.text)
  | negate (kind : token.kind = .negate) (empty : depth before = 0) :
      Fault before token .tooFewOperands
  | operator (noLeading : ¬IsLeadingName before) (kind : token.isOperator)
      (shallow : depth before < 2) : Fault before token .tooFewOperands
  | nothing (kind : token.kind = .endMark) (noAssignment : ¬IsBareAssignment before)
      (empty : depth before = 0) : Fault before token .tooFewOperands
  | several {count : Nat} (kind : token.kind = .endMark) (left : depth before = count)
      (many : 2 ≤ count) : Fault before token (.tooManyOperands count)

def Completes (before : List Token) (token : Token) : Prop :=
  token.kind = .endMark ∧ (IsBareAssignment before ∨ depth before = 1)

def Passes (before : List Token) (token : Token) : Prop :=
  ¬Completes before token ∧ ∀ rejection, ¬Fault before token rejection

def AllPass (tokens : List Token) : Prop :=
  ∀ before token, before ++ [token] <+: tokens → Passes before token

/-- The first of some tokens with which anything is wrong, the expression not being complete before
it. -/
structure FirstFault (tokens before : List Token) (token : Token) (rejection : Rejection) :
    Prop where
  begins : before ++ [token] <+: tokens
  fault : Fault before token rejection
  earliest : AllPass before

theorem allPass_nil : AllPass [] := by
  intro before token h
  simp at h

theorem AllPass.concat {tokens : List Token} {token : Token} (h : AllPass tokens)
    (htoken : Passes tokens token) : AllPass (tokens ++ [token]) := by
  intro before found hfound
  rcases List.prefix_concat_iff.1 hfound with heq | hearlier
  · obtain ⟨rfl, hlast⟩ := List.append_inj' heq rfl
    obtain rfl := List.singleton_inj.1 hlast
    exact htoken
  · exact h before found hearlier

theorem AllPass.no_fault {tokens before : List Token} {token : Token} {rejection : Rejection}
    (h : AllPass tokens) : ¬FirstFault tokens before token rejection :=
  fun first => (h before token first.begins).2 rejection first.fault

/-- Of two tokens before which all pass, one that does not pass comes no earlier than the other. -/
theorem AllPass.prefix_of_not_passes {tokens before before' : List Token} {token token' : Token}
    (h : before ++ [token] <+: tokens) (h' : before' ++ [token'] <+: tokens)
    (hpass : AllPass before') (hnot : ¬Passes before token) : before' <+: before := by
  have hbefore := (List.prefix_append before [token]).trans h
  have hbefore' := (List.prefix_append before' [token']).trans h'
  rcases List.prefix_or_prefix_of_prefix hbefore' hbefore with hle | ⟨more, rfl⟩
  · exact hle
  · cases more with
    | nil => simp
    | cons next more =>
      have hnext : before ++ [next] <+: before ++ next :: more := ⟨more, by simp⟩
      have heq : before ++ [token] = before ++ [next] := by
        refine (List.prefix_of_prefix_length_le h (hnext.trans hbefore') ?_).eq_of_length ?_ <;>
          simp
      obtain rfl := List.singleton_inj.1 (List.append_cancel_left heq)
      exact absurd (hpass before token hnext) hnot

/-- The first token that does not pass is the only one. -/
theorem AllPass.unique {tokens before before' : List Token} {token token' : Token}
    (h : before ++ [token] <+: tokens) (h' : before' ++ [token'] <+: tokens)
    (hpass : AllPass before) (hpass' : AllPass before') (hnot : ¬Passes before token)
    (hnot' : ¬Passes before' token') : before = before' ∧ token = token' := by
  have hle := prefix_of_not_passes h h' hpass' hnot
  have hge := prefix_of_not_passes h' h hpass hnot'
  obtain rfl : before = before' := hge.eq_of_length_le hle.length_le
  have heq : before ++ [token] = before ++ [token'] :=
    (List.prefix_of_prefix_length_le h h' (by simp)).eq_of_length (by simp)
  exact ⟨rfl, List.singleton_inj.1 (List.append_cancel_left heq)⟩

theorem balance_concat (tokens : List Token) (token : Token) :
    balance (tokens ++ [token]) = balance tokens + balance [token] := by
  simp only [balance, List.countP_append, Nat.cast_add]
  omega

theorem assignment?_eq_some_iff {tokens rest : List Token} {name : String} :
    assignment? tokens = some (name, rest) ↔
      ∃ text, tokens = ⟨.identifier, name⟩ :: ⟨.assign, text⟩ :: rest := by
  fun_cases assignment? tokens with
  | case1 found text tokens => simp
  | case2 tokens hne =>
    refine ⟨by simp, ?_⟩
    rintro ⟨text, rfl⟩
    exact absurd rfl (hne name text rest)

/-- Whether tokens are an assignment is decided by the first two of them. -/
theorem assignment?_concat {before : List Token} {token : Token}
    (h : IsLeadingName before → token.kind ≠ .assign) :
    assignment? (before ++ [token]) =
      (assignment? before).map fun (name, rest) => (name, rest ++ [token]) := by
  cases hbefore : assignment? before with
  | some found =>
    obtain ⟨name, rest⟩ := found
    obtain ⟨text, rfl⟩ := assignment?_eq_some_iff.1 hbefore
    rfl
  | none =>
    cases hafter : assignment? (before ++ [token]) with
    | none => rfl
    | some found =>
      obtain ⟨name, rest⟩ := found
      obtain ⟨text, htokens⟩ := assignment?_eq_some_iff.1 hafter
      match before with
      | [] => simp at htokens
      | [first] =>
        obtain ⟨rfl, hlast⟩ := List.cons.inj htokens
        obtain ⟨rfl, -⟩ := List.cons.inj hlast
        exact absurd rfl (h ⟨name, rfl⟩)
      | first :: second :: others =>
        obtain ⟨rfl, hlast⟩ := List.cons.inj htokens
        obtain ⟨rfl, -⟩ := List.cons.inj hlast
        simp [assignment?] at hbefore

/-- A leading name is counted until an equals sign comes after it. -/
theorem depth_concat {before : List Token} {token : Token}
    (h : IsLeadingName before → token.kind ≠ .assign) :
    depth (before ++ [token]) = depth before + balance [token] := by
  have hcounted : counted (before ++ [token]) = counted before ++ [token] := by
    rw [counted, counted, assignment?_concat h]
    cases assignment? before <;> rfl
  rw [depth, hcounted]
  exact balance_concat _ _

/-- An expression has come so far over some tokens, which have left so many operands. -/
def Progress.Reads (progress : Progress) (operands : Operands) (before : List Token) : Prop :=
  depth before = operands.size ∧
  match progress with
  | fresh => before = []
  | named name => before = [⟨.identifier, name⟩]
  | assigned name => ∃ text, before = [⟨.identifier, name⟩, ⟨.assign, text⟩]
  | body => before ≠ [] ∧ ¬IsLeadingName before ∧ ¬IsBareAssignment before

theorem Progress.Reads.operands_of_named {name : String} {operands : Operands}
    {before : List Token} (h : (named name).Reads operands before) :
    ∃ value, operands = ⟨[value]⟩ := by
  obtain ⟨hdepth, rfl⟩ := h
  obtain ⟨value, hvalues⟩ := List.length_eq_one_iff.1 (Int.ofNat_inj.1 hdepth.symm)
  exact ⟨value, congrArg Operands.mk hvalues⟩

/-- A verdict is the one that the tokens so far call for. -/
def Verdict.Fits (before : List Token) (token : Token) : Verdict → Prop
  | more progress operands =>
    Passes before token ∧ progress.Reads operands (before ++ [token])
  | retarget name operands =>
    Passes before token ∧ (Progress.assigned name).Reads operands (before ++ [token])
  | ignore operands => Passes before token ∧ Progress.body.Reads operands (before ++ [token])
  | value _ _ => Completes before token
  | reject rejection => Fault before token rejection
  | exit => before = [] ∧ token.IsExit

section Fits

variable {before : List Token} {token : Token}

theorem Fault.kind {rejection : Rejection} (h : Fault before token rejection) :
    token.kind = .invalid ∨ token.kind = .negate ∨ token.isOperator ∨ token.kind = .endMark := by
  cases h with
  | unexpected leading kind => exact kind.elim (.inr ∘ .inr ∘ .inl) .inl
  | unreadable noLeading kind => exact .inl kind
  | negate kind => exact .inr (.inl kind)
  | operator noLeading kind => exact .inr (.inr (.inl kind))
  | nothing kind => exact .inr (.inr (.inr kind))
  | several kind => exact .inr (.inr (.inr kind))

theorem Fault.unique {rejection rejection' : Rejection} (h : Fault before token rejection)
    (h' : Fault before token rejection') : rejection = rejection' := by
  cases h with
  | nothing kind noAssignment empty =>
    cases h' with
    | several kind' left many => omega
    | _ => simp_all [Token.isOperator]
  | several kind left many =>
    cases h' with
    | nothing kind' noAssignment empty => omega
    | several kind' left' many' => rw [Int.ofNat_inj.1 (left.symm.trans left')]
    | _ => simp_all [Token.isOperator]
  | _ => cases h' <;> simp_all [Token.isOperator]

theorem depth_of_isBareAssignment (h : IsBareAssignment before) : depth before = 0 := by
  obtain ⟨name, hassign⟩ := h
  simp [depth, balance, counted, hassign]

theorem Completes.no_fault {rejection : Rejection} (h : Completes before token) :
    ¬Fault before token rejection := by
  obtain ⟨kind, hdone⟩ := h
  intro hfault
  cases hfault with
  | nothing kind' noAssignment empty =>
    have hone := hdone.resolve_left noAssignment
    omega
  | several kind' left many =>
    rcases hdone with hbare | hone
    · have hzero := depth_of_isBareAssignment hbare
      omega
    · omega
  | _ => simp_all [Token.isOperator]

theorem passes_of_kind
    (h : token.kind = .number ∨ token.kind = .identifier ∨ token.kind = .assign) :
    Passes before token := by
  obtain ⟨kind, text⟩ := token
  refine ⟨fun hdone => ?_, fun rejection hfault => ?_⟩
  · have hkind : kind = .endMark := hdone.1
    subst hkind
    simp at h
  · have hkind := hfault.kind
    rcases h with rfl | rfl | rfl <;> simp [Token.isOperator] at hkind

theorem passes_negate {text : String} (h : depth before ≠ 0) : Passes before ⟨.negate, text⟩ := by
  refine ⟨fun hdone => absurd hdone.1 (by simp), fun rejection hfault => ?_⟩
  cases hfault with
  | negate kind empty => exact h empty
  | _ => simp_all [Token.isOperator]

theorem passes_operator {op : Operator} {text : String} (hname : ¬IsLeadingName before)
    (h : 2 ≤ depth before) : Passes before ⟨.operator op, text⟩ := by
  refine ⟨fun hdone => absurd hdone.1 (by simp), fun rejection hfault => ?_⟩
  cases hfault with
  | unexpected leading => exact hname leading
  | operator noLeading kind shallow => omega
  | _ => simp_all

/-- Past the beginning of an expression nothing but the operands matters. -/
theorem reads_body {operands : Operands} (hdepth : depth before + balance [token] = operands.size)
    (hname : IsLeadingName before → token.kind ≠ .assign)
    (hfresh : before = [] → token.kind ≠ .identifier) :
    Progress.body.Reads operands (before ++ [token]) := by
  refine ⟨(depth_concat hname).trans hdepth, by simp, ?_, ?_⟩
  · rintro ⟨name, heq⟩
    obtain ⟨rfl, hlast⟩ := List.append_eq_singleton_iff.1 heq |>.resolve_right (by simp)
    obtain rfl := List.singleton_inj.1 hlast
    exact hfresh rfl rfl
  · rintro ⟨name, hassign⟩
    obtain ⟨text, heq⟩ := assignment?_eq_some_iff.1 hassign
    have htwo : before ++ [token] = [⟨.identifier, name⟩] ++ [⟨.assign, text⟩] := heq
    obtain ⟨rfl, hlast⟩ := List.append_inj' htwo rfl
    obtain rfl := List.singleton_inj.1 hlast
    exact hname ⟨name, rfl⟩ rfl

/-- What a token makes of the operands is what the depth before it says, unless the token is one
that a leading name or an equals sign after it decides on. -/
theorem operate_fits (valueOf : String → Binary64) (operands : Operands)
    (hreadable : token.Readable) (hdepth : depth before = operands.size)
    (hname : IsLeadingName before →
      token.kind ≠ .assign ∧ ¬token.isOperator ∧ token.kind ≠ .invalid)
    (hbare : IsBareAssignment before → token.kind ≠ .endMark)
    (hfresh : before = [] → token.kind ≠ .identifier) :
    (Progress.operate valueOf operands token).Fits before token := by
  have hassign := fun h => (hname h).1
  have hreads : ∀ operands' : Operands, depth before + balance [token] = operands'.size →
      Progress.body.Reads operands' (before ++ [token]) :=
    fun operands' h => reads_body h hassign hfresh
  obtain ⟨kind, text⟩ := token
  obtain ⟨values⟩ := operands
  cases kind with
  | number =>
    obtain ⟨value, hvalue⟩ := hreadable rfl
    have hverdict : Progress.operate valueOf ⟨values⟩ ⟨.number, text⟩ =
        .more .body ⟨value :: values⟩ := by
      simp only [Progress.operate, numberValue, show Binary64.read? text = some value from hvalue]
      rfl
    rw [hverdict]
    refine ⟨passes_of_kind (.inl rfl), hreads _ ?_⟩
    rw [hdepth]
    rfl
  | identifier =>
    refine ⟨passes_of_kind (.inr (.inl rfl)), hreads _ ?_⟩
    rw [hdepth]
    rfl
  | assign =>
    refine ⟨passes_of_kind (.inr (.inr rfl)), hreads _ ?_⟩
    rw [hdepth]
    rfl
  | invalid => exact .unreadable (fun h => (hname h).2.2 rfl) rfl
  | negate =>
    cases values with
    | nil => exact .negate rfl hdepth
    | cons value values =>
      have hne : depth before ≠ 0 := by
        rw [hdepth, Operands.size, List.length_cons]
        omega
      refine ⟨passes_negate hne, hreads ⟨-value :: values⟩ ?_⟩
      rw [hdepth]
      rfl
  | operator op =>
    have hnoLeading : ¬IsLeadingName before := fun h => (hname h).2.1 rfl
    rcases values with _ | ⟨first, _ | ⟨second, values⟩⟩
    · exact .operator hnoLeading rfl (by simp [hdepth, Operands.size])
    · exact .operator hnoLeading rfl (by simp [hdepth, Operands.size])
    · have hle : 2 ≤ depth before := by
        rw [hdepth, Operands.size, List.length_cons, List.length_cons]
        omega
      refine ⟨passes_operator hnoLeading hle, hreads ⟨_ :: values⟩ ?_⟩
      rw [hdepth, show balance [⟨.operator op, text⟩] = -1 from rfl]
      simp only [Operands.size, List.length_cons]
      omega
  | endMark =>
    rcases values with _ | ⟨first, _ | ⟨second, values⟩⟩
    · exact .nothing rfl (fun h => hbare h rfl) hdepth
    · exact ⟨rfl, .inr hdepth⟩
    · exact .several rfl hdepth (Nat.le_add_left 2 values.length)

theorem not_isLeadingName_nil : ¬IsLeadingName [] := by
  rintro ⟨name, h⟩
  simp at h

theorem not_isBareAssignment_of_length_lt (h : before.length < 2) : ¬IsBareAssignment before := by
  rintro ⟨name, hassign⟩
  obtain ⟨text, rfl⟩ := assignment?_eq_some_iff.1 hassign
  simp at h

/-- A step judges its token by the tokens before it. -/
theorem step_fits (valueOf : String → Binary64) {progress : Progress} {operands : Operands}
    (hreads : progress.Reads operands before) (hreadable : token.Readable) :
    (progress.step valueOf operands token).Fits before token := by
  have hprogress := hreads
  obtain ⟨hdepth, hreads⟩ := hreads
  cases progress with
  | fresh =>
    obtain rfl : before = [] := hreads
    by_cases hkind : token.kind = .identifier
    · obtain ⟨kind, name⟩ := token
      obtain rfl : kind = .identifier := hkind
      by_cases hword : isExitWord name
      · simp only [Progress.step, if_pos, hword]
        exact ⟨rfl, rfl, hword⟩
      · simp only [Progress.step, if_pos, hword]
        refine ⟨passes_of_kind (.inr (.inl rfl)), ?_, rfl⟩
        rw [Operands.size_push, Nat.cast_add, ← hdepth]
        rfl
    · simp only [Progress.step, hkind, if_false]
      exact operate_fits valueOf operands hreadable hdepth (fun h => absurd h not_isLeadingName_nil)
        (fun h => absurd h (not_isBareAssignment_of_length_lt (by decide))) fun _ => hkind
  | named name =>
    obtain rfl : before = [⟨.identifier, name⟩] := hreads
    have hleading : IsLeadingName [⟨.identifier, name⟩] := ⟨name, rfl⟩
    have hbare : ¬IsBareAssignment [⟨.identifier, name⟩] :=
      not_isBareAssignment_of_length_lt (by simp)
    obtain ⟨kind, text⟩ := token
    cases kind with
    | assign =>
      obtain ⟨value, rfl⟩ := hprogress.operands_of_named
      exact ⟨passes_of_kind (.inr (.inr rfl)), rfl, text, rfl⟩
    | operator op => exact .unexpected hleading (.inl rfl)
    | invalid => exact .unexpected hleading (.inr rfl)
    | number | identifier | negate | endMark =>
      exact operate_fits valueOf operands hreadable hdepth (by simp [Token.isOperator])
        (fun h => absurd h hbare) (by simp)
  | assigned name =>
    obtain ⟨text, rfl⟩ := hreads
    have hbare : IsBareAssignment [⟨.identifier, name⟩, ⟨.assign, text⟩] := ⟨name, rfl⟩
    by_cases hkind : token.kind = .endMark
    · have hvalues := List.length_eq_zero_iff.1 (Int.ofNat_inj.1 hdepth.symm)
      rw [show operands = {} from congrArg Operands.mk hvalues]
      simp only [Progress.step, Progress.operate, hkind, if_pos]
      exact ⟨hkind, .inl hbare⟩
    · simp only [Progress.step, hkind, if_false]
      exact operate_fits valueOf operands hreadable hdepth (by simp [IsLeadingName])
        (fun _ => hkind) (by simp)
  | body =>
    obtain ⟨hne, hleading, hbare⟩ := hreads
    exact operate_fits valueOf operands hreadable hdepth (fun h => absurd h hleading)
      (fun h => absurd h hbare) fun h => absurd h hne

end Fits

theorem FirstFault.unique {tokens before before' : List Token} {token token' : Token}
    {rejection rejection' : Rejection} (h : FirstFault tokens before token rejection)
    (h' : FirstFault tokens before' token' rejection') :
    before = before' ∧ rejection = rejection' := by
  obtain ⟨rfl, rfl⟩ := AllPass.unique h.begins h'.begins h.earliest h'.earliest
    (fun hpass => hpass.2 _ h.fault) fun hpass => hpass.2 _ h'.fault
  exact ⟨rfl, h.fault.unique h'.fault⟩

/-- An expression that is complete has no fault. -/
theorem Completes.no_firstFault {tokens before before' : List Token} {token token' : Token}
    {rejection : Rejection} (h : Completes before token) (hbegins : before ++ [token] <+: tokens)
    (hpass : AllPass before) : ¬FirstFault tokens before' token' rejection := by
  intro first
  obtain ⟨rfl, rfl⟩ := AllPass.unique hbegins first.begins hpass first.earliest
    (fun hpass => hpass.1 h) fun hpass => hpass.2 _ first.fault
  exact h.no_fault first.fault

theorem Reader.ahead_after {σ : Type} [Sink σ] {reader : Reader σ} {count : Nat}
    (h : count ≤ reader.ahead.length) : (reader.after count).ahead = reader.ahead.drop count := by
  induction count generalizing reader with
  | zero => rfl
  | succ count ih =>
    obtain ⟨token, tokens, hahead⟩ := List.exists_cons_of_length_pos (Nat.zero_lt_of_lt h)
    obtain ⟨reader', hnext, htokens⟩ := next_of_ahead hahead
    rw [hahead, List.length_cons, Nat.add_le_add_iff_right, ← htokens] at h
    rw [after, hnext, hahead, List.drop_succ_cons, ← htokens]
    exact ih h

namespace Calculator

variable {σ : Type} [Sink σ]

/-- An evaluation notes that its expression is refused, whether or not the report can be written. -/
def Refuses (calculator : Calculator σ) (rejection : Rejection) : Prop :=
  ∃ events position, Records calculator calculator.evaluate.2 events ∧
    .rejected rejection position ∈ events

def Quiet (earlier later : Calculator σ) : Prop :=
  ∃ events, Records earlier later events ∧
    ∀ rejection position, .rejected rejection position ∉ events

/-- How an expression ends of which some tokens have been read: at the first fault, where only the
report is left to be written, at the token that completes it, or where the tokens end. Until then
nothing has been done but to ask for the tokens. -/
inductive Ends (before : List Token) (calculator : Calculator σ) :
    Except Stop Outcome × Calculator σ → Prop
  | refused {more token rejection found}
      (first : FirstFault (before ++ calculator.reader.ahead) (before ++ more) token rejection)
      (place : found.reader.Coincide (calculator.reader.after (more.length + 1)))
      (quiet : Quiet calculator found) : Ends before calculator (found.reject rejection)
  | completed {more token value later}
      (begins : before ++ more ++ [token] <+: before ++ calculator.reader.ahead)
      (pass : AllPass (before ++ more)) (completes : Completes (before ++ more) token)
      (place : later.reader.Coincide (calculator.reader.after (more.length + 1)))
      (quiet : Quiet calculator later) : Ends before calculator (.ok (.value value), later)
  | stopped {stop later} (pass : AllPass (before ++ calculator.reader.ahead))
      (place : later.reader.Coincide
        (calculator.reader.after (calculator.reader.ahead.length + 1)))
      (quiet : Quiet calculator later) : Ends before calculator (.error stop, later)

omit [Sink σ] in
theorem Quiet.trans {earlier calculator later : Calculator σ} (h : Quiet earlier calculator)
    (h' : Quiet calculator later) : Quiet earlier later := by
  obtain ⟨events, hrecords, hnone⟩ := h
  obtain ⟨events', hrecords', hnone'⟩ := h'
  refine ⟨events ++ events', hrecords.trans hrecords', fun rejection position hmem => ?_⟩
  rcases List.mem_append.1 hmem with hmem | hmem
  · exact hnone rejection position hmem
  · exact hnone' rejection position hmem

omit [Sink σ] in
theorem quiet_retarget (calculator : Calculator σ) (name : String) :
    Quiet calculator (calculator.retarget name) :=
  ⟨[.retargeted name], ⟨rfl, rfl⟩, by simp⟩

omit [Sink σ] in
theorem quiet_ignore (calculator : Calculator σ) :
    Quiet calculator (calculator.note .assignIgnored) :=
  ⟨_, records_note _ rfl, by simp⟩

omit [Sink σ] in
theorem quiet_store (calculator : Calculator σ) (value : Binary64) :
    Quiet calculator (calculator.store value) :=
  ⟨[.evaluated calculator.memory.target value], ⟨rfl, rfl⟩, by simp⟩

omit [Sink σ] in
theorem quiet_operands (calculator : Calculator σ) (operands : Operands) :
    Quiet calculator { calculator with operands } :=
  ⟨[], records_operands _ _, by simp⟩

omit [Sink σ] in
theorem Quiet.of_clear {calculator later : Calculator σ} (h : Quiet calculator.clear later) :
    Quiet calculator later :=
  (calculator.quiet_operands _).trans h

theorem Ends.of_clear {before : List Token} {calculator : Calculator σ}
    {result : Except Stop Outcome × Calculator σ} (h : Ends before calculator.clear result) :
    Ends before calculator result := by
  cases h with
  | refused first place quiet => exact .refused first place quiet.of_clear
  | completed begins pass completes place quiet =>
    exact .completed begins pass completes place quiet.of_clear
  | stopped pass place quiet => exact .stopped pass place quiet.of_clear

theorem quiet_of_token {calculator : Calculator σ} {token : Token} {reader : Reader σ}
    {operands : Operands} (h : calculator.reader.next = (.ok token, reader)) :
    Quiet calculator { calculator with reader, operands } :=
  ⟨_, records_of_token h, by simp⟩

/-- The end of an expression is that of the same expression one token earlier. -/
theorem Ends.earlier {before : List Token} {token : Token} {reader : Reader σ}
    {calculator calculator' : Calculator σ} {result : Except Stop Outcome × Calculator σ}
    (hnext : calculator.reader.next = (.ok token, reader))
    (hcoincide : calculator'.reader.Coincide reader) (hquiet : Quiet calculator calculator')
    (h : Ends (before ++ [token]) calculator' result) : Ends before calculator result := by
  have hahead : before ++ [token] ++ calculator'.reader.ahead =
      before ++ calculator.reader.ahead := by
    rw [Reader.ahead_of_token hnext, Reader.Coincide.lockstep.ahead hcoincide, List.append_assoc]
    rfl
  have hplace {later : Reader σ} {count : Nat}
      (h : later.Coincide (calculator'.reader.after (count + 1))) :
      later.Coincide (calculator.reader.after (count + 1 + 1)) :=
    (h.trans (Reader.Coincide.lockstep.after hcoincide _)).after_next hnext
  cases h with
  | @refused more token' rejection found first place quiet =>
    rw [hahead, ← List.append_cons] at first
    exact .refused first (hplace place) (hquiet.trans quiet)
  | completed begins pass completes place quiet =>
    rw [hahead, ← List.append_cons] at begins
    rw [← List.append_cons] at pass completes
    exact .completed begins pass completes (hplace place) (hquiet.trans quiet)
  | stopped pass place quiet =>
    rw [hahead] at pass
    refine .stopped pass ?_ (hquiet.trans quiet)
    rw [Reader.ahead_of_token hnext, ← Reader.Coincide.lockstep.ahead hcoincide]
    exact hplace place

theorem fits_of_next {calculator : Calculator σ} {progress : Progress} {before : List Token}
    {token : Token} {reader : Reader σ} {verdict : Verdict}
    (hreads : progress.Reads calculator.operands before)
    (hnext : calculator.reader.next = (.ok token, reader))
    (hstep : progress.step calculator.memory.get calculator.operands token = verdict) :
    verdict.Fits before token :=
  hstep ▸ step_fits calculator.memory.get hreads (Reader.readable_of_next hnext)

/-- Every expression ends in one of these ways. -/
theorem advance_ends (calculator : Calculator σ) {progress : Progress} {before : List Token}
    (hreads : progress.Reads calculator.operands before) (hpass : AllPass before)
    (hexit : before = [] → ¬BeginsWithExit calculator.reader.ahead) :
    Ends before calculator (calculator.advance progress) := by
  fun_induction advance calculator progress generalizing before with
  | case1 calculator progress stop reader hnext =>
    refine .stopped ?_ ?_ ⟨_, records_of_stop hnext, by simp⟩
    · rw [Reader.ahead_of_stop hnext, List.append_nil]
      exact hpass
    · rw [Reader.ahead_of_stop hnext]
      exact (Reader.Coincide.refl reader).of_next hnext
  | case2 calculator progress token reader hnext progress' operands hstep ih =>
    obtain ⟨htoken, hlater⟩ := fits_of_next hreads hnext hstep
    exact (ih hlater (hpass.concat htoken) (by simp)).earlier hnext (.refl reader)
      (quiet_of_token hnext)
  | case3 calculator progress token reader hnext name operands hstep ih =>
    obtain ⟨htoken, hlater⟩ := fits_of_next hreads hnext hstep
    exact (ih hlater (hpass.concat htoken) (by simp)).earlier hnext (.note reader _)
      ((quiet_of_token hnext).trans (quiet_retarget _ name))
  | case4 calculator progress token reader hnext operands hstep ih =>
    obtain ⟨htoken, hlater⟩ := fits_of_next hreads hnext hstep
    exact (ih hlater (hpass.concat htoken) (by simp)).earlier hnext (.note reader _)
      ((quiet_of_token hnext).trans (quiet_ignore _))
  | case5 calculator progress token reader hnext value operands hstep =>
    have hcompletes : Completes before token := fits_of_next hreads hnext hstep
    rw [← List.append_nil before] at hpass hcompletes
    refine .completed ?_ hpass hcompletes ((Reader.Coincide.note reader _).of_next hnext)
      ((quiet_of_token hnext).trans (quiet_store _ value))
    exact ⟨reader.ahead, by simp [Reader.ahead_of_token hnext]⟩
  | case6 calculator progress token reader hnext rejection hstep =>
    have hfault : Fault before token rejection := fits_of_next hreads hnext hstep
    rw [← List.append_nil before] at hpass hfault
    refine .refused ⟨?_, hfault, hpass⟩ ((Reader.Coincide.refl reader).of_next hnext)
      (quiet_of_token hnext)
    exact ⟨reader.ahead, by simp [Reader.ahead_of_token hnext]⟩
  | case7 calculator progress token reader hnext hstep =>
    obtain ⟨rfl, hword⟩ := fits_of_next hreads hnext hstep
    refine absurd ⟨token, ?_, hword⟩ (hexit rfl)
    rw [Reader.ahead_of_token hnext]
    rfl

theorem Refuses.unique_records {calculator : Calculator σ} {rejection : Rejection}
    {events : List Event} (h : calculator.Refuses rejection)
    (hrecords : Records calculator calculator.evaluate.2 events) :
    ∃ position, .rejected rejection position ∈ events := by
  obtain ⟨events', position, hrecords', hmem⟩ := h
  exact ⟨position, hrecords.unique hrecords' ▸ hmem⟩

theorem Quiet.not_refuses {calculator : Calculator σ} {rejection : Rejection}
    (h : Quiet calculator calculator.evaluate.2) : ¬calculator.Refuses rejection := by
  obtain ⟨events, hrecords, hnone⟩ := h
  intro hrefuses
  obtain ⟨position, hmem⟩ := hrefuses.unique_records hrecords
  exact hnone rejection position hmem

theorem eq_of_reject_ok {calculator : Calculator σ} {rejection rejection' : Rejection}
    (h : (calculator.reject rejection).1 = .ok (.rejected rejection')) :
    rejection' = rejection := by
  simp only [reject] at h
  split at h
  · exact (Outcome.rejected.inj (Except.ok.inj h)).symm
  · simp at h

/-- What is noted of a report after a quiet scan is the rejection and nothing else. -/
theorem refuses_reject_iff {calculator found : Calculator σ} {rejection rejection' : Rejection}
    (hresult : calculator.evaluate = found.reject rejection) (hquiet : Quiet calculator found) :
    calculator.Refuses rejection' ↔ rejection' = rejection := by
  obtain ⟨events, hrecords, hnone⟩ := hquiet
  have hall := hrecords.trans (found.records_reject rejection)
  rw [← hresult] at hall
  constructor
  · intro hrefuses
    obtain ⟨position, hmem⟩ := hrefuses.unique_records hall
    rcases List.mem_append.1 hmem with hmem | hmem
    · exact absurd hmem (hnone rejection' position)
    · exact (Event.rejected.inj (List.mem_singleton.1 hmem)).1
  · rintro rfl
    exact ⟨_, _, hall, List.mem_append_right _ (List.mem_singleton.2 rfl)⟩

/-- An expression that does not begin with the exit word is refused exactly if there is a first
token with which anything is wrong, and for what is wrong with that one. When the report begins, the
reader has delivered that token and has done nothing since, and the evaluation goes on to offer the
lines of the report to the sink and makes no other call. If there is no such token, nothing is
written: all calls are those of the requests for tokens. -/
theorem evaluate_refuses_firstFault {calculator : Calculator σ}
    (h : ¬BeginsWithExit calculator.reader.ahead) :
    let tokens := calculator.reader.ahead
    (∀ rejection, calculator.Refuses rejection ↔
      ∃ before token, FirstFault tokens before token rejection) ∧
    (∀ rejection, calculator.evaluate.1 = .ok (.rejected rejection) →
      calculator.Refuses rejection) ∧
    (∀ before token rejection, FirstFault tokens before token rejection →
      let place := calculator.reader.after (before.length + 1)
      (∃ found : Calculator σ, calculator.evaluate = found.reject rejection ∧
        found.reader.Coincide place ∧ found.reader.ahead = tokens.drop (before.length + 1)) ∧
      calculator.evaluate.2.reader.channel.calls =
        (Sink.tries place.channel.sink (rejection.linesAt place)).reverse ++ place.channel.calls) ∧
    ((∀ before token rejection, ¬FirstFault tokens before token rejection) →
      ∃ count, calculator.evaluate.2.reader.Coincide (calculator.reader.after count)) := by
  intro tokens
  have hreads : Progress.fresh.Reads calculator.clear.operands [] := ⟨rfl, rfl⟩
  have hends : Ends [] calculator calculator.evaluate :=
    (calculator.clear.advance_ends hreads allPass_nil fun _ => h).of_clear
  generalize hresult : calculator.evaluate = result at hends
  cases hends with
  | @refused more token rejection found first place quiet =>
    have hrefuses : ∀ rejection', calculator.Refuses rejection' ↔ rejection' = rejection :=
      fun _ => refuses_reject_iff hresult quiet
    refine ⟨fun rejection' => ?_, fun rejection' hrejected => ?_, ?_,
      fun hnone => absurd first (hnone _ _ _)⟩
    · rw [hrefuses]
      constructor
      · rintro rfl
        exact ⟨_, _, first⟩
      · rintro ⟨before, token', first'⟩
        exact (first'.unique first).2
    · exact (hrefuses rejection').2 (eq_of_reject_ok hrejected)
    · intro before token' rejection' first'
      obtain ⟨rfl, rfl⟩ := first.unique first'
      refine ⟨⟨found, rfl, place, ?_⟩, ?_⟩
      · rw [Reader.Coincide.lockstep.ahead place]
        exact Reader.ahead_after (by simpa using first.begins.length_le)
      · rw [calls_reject, place.calls, place.sink, place.linesAt]
        rfl
  | completed begins pass completes place quiet =>
    have hnone : ∀ before token rejection, ¬FirstFault tokens before token rejection :=
      fun _ _ _ => completes.no_firstFault begins pass
    have hquiet : Quiet calculator calculator.evaluate.2 := hresult ▸ quiet
    refine ⟨fun rejection => ⟨fun hrefuses => absurd hrefuses hquiet.not_refuses, ?_⟩, nofun,
      fun before token rejection first => absurd first (hnone before token rejection),
      fun _ => ⟨_, place⟩⟩
    rintro ⟨before, token, first⟩
    exact absurd first (hnone before token rejection)
  | stopped pass place quiet =>
    have hquiet : Quiet calculator calculator.evaluate.2 := hresult ▸ quiet
    refine ⟨fun rejection => ⟨fun hrefuses => absurd hrefuses hquiet.not_refuses, ?_⟩, nofun,
      fun before token rejection first => absurd first pass.no_fault, fun _ => ⟨_, place⟩⟩
    rintro ⟨before, token, first⟩
    exact absurd first pass.no_fault

/-- Of three faults the first is noted and reported, although the line that it is on cannot be
written. -/
theorem evaluate_refuses_first_of_three :
    let calculator : Calculator FaultySink := .start {} {
      replies := [.line "x 1 + # ~ + + @ 3"],
      sink := { failingWrites := (· = 2), failingFlushes := fun _ => false } }
    calculator.Refuses (.unreadable "#") ∧
      calculator.evaluate.1 = .error (.failed "write 2 failed") ∧
      calculator.evaluate.2.reader.channel.calls =
        [.write "x 1 + # ~ + + @ 3\n" false, .write "Bad token: '#'\n" true,
          .readLine (.line "x 1 + # ~ + + @ 3"), .flush true, .write ">> " true] := by
  intro calculator
  have hahead : calculator.reader.ahead =
      [⟨.identifier, "x"⟩, ⟨.number, "1"⟩, ⟨.operator .add, "+"⟩] ++ [⟨.invalid, "#"⟩] ++
        [⟨.negate, "~"⟩, ⟨.operator .add, "+"⟩, ⟨.operator .add, "+"⟩, ⟨.endMark, "@"⟩,
          ⟨.number, "3"⟩] := by
    decide +kernel
  have hexit : ¬BeginsWithExit calculator.reader.ahead := by
    rw [hahead]
    rintro ⟨token, hhead, -, hword⟩
    obtain rfl := Option.some.inj hhead
    exact absurd hword (by decide)
  have hpass : AllPass [⟨.identifier, "x"⟩, ⟨.number, "1"⟩, ⟨.operator .add, "+"⟩] :=
    ((allPass_nil.concat (passes_of_kind (.inr (.inl rfl)))).concat
      (passes_of_kind (.inl rfl))).concat
      (passes_operator (by simp [IsLeadingName]) (by decide))
  have hfirst : FirstFault calculator.reader.ahead
      [⟨.identifier, "x"⟩, ⟨.number, "1"⟩, ⟨.operator .add, "+"⟩] ⟨.invalid, "#"⟩
      (.unreadable "#") :=
    ⟨hahead ▸ List.prefix_append _ _, .unreadable (by simp [IsLeadingName]) rfl, hpass⟩
  obtain ⟨hrefuses, -, hreport, -⟩ := evaluate_refuses_firstFault hexit
  refine ⟨(hrefuses _).2 ⟨_, _, hfirst⟩, by decide +kernel, ?_⟩
  rw [(hreport _ _ _ hfirst).2]
  decide +kernel

end Calculator

end ReversePolish
