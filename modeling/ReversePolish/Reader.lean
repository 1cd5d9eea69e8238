import ReversePolish.Channel
import ReversePolish.Line

/-!
# Reading tokens

A reader asks its channel for a line whenever only blanks are left of the one it has: it writes the
prompt, flushes, and takes the reply. Its callers see tokens and no line ends.
-/

namespace ReversePolish

structure Reader (σ : Type) where
  channel : Channel σ
  prompt : String
  line : Line := {}

namespace Reader

variable {σ : Type}

def note (reader : Reader σ) (event : Event) : Reader σ :=
  { reader with channel := reader.channel.note event }

def skipLine (reader : Reader σ) : Reader σ := { reader with line := reader.line.exhaust }

def replyLength : Reply → Nat
  | .line text => text.toList.length + 1
  | _ => 0

def unread (reader : Reader σ) : Nat :=
  reader.line.rest.length +
    reader.channel.replies.foldr (fun reply length => replyLength reply + length) 0

/-- Takes the next reply as the new line. Without one the old line stays. -/
def load (reader : Reader σ) : Except Stop Unit × Reader σ :=
  match reader.channel.readLine with
  | (.line text, channel) => (.ok (), { reader with channel, line := .load text })
  | (.ended, channel) => (.error (.ended .endOfInput), { reader with channel })
  | (.failed message, channel) => (.error (.failed message), { reader with channel })

theorem load_ok {reader reader' : Reader σ} (h : reader.load = (.ok (), reader')) :
    ∃ text, reader.channel.replies = .line text :: reader'.channel.replies ∧
      reader'.line = .load text := by
  unfold load at h
  split at h
  · next text channel hread =>
    obtain ⟨-, rfl⟩ := Prod.mk.inj h
    exact ⟨text, Channel.replies_of_readLine_line hread, rfl⟩
  · simp at h
  · simp at h

variable [Sink σ]

def ask (reader : Reader σ) : Except String Unit × Channel σ :=
  if reader.prompt = "" then reader.channel.flush
  else match reader.channel.write reader.prompt with
    | (.ok (), channel) => channel.flush
    | failure => failure

/-- Asks for a line and takes it, giving up the rest of the old one. -/
def fetch (reader : Reader σ) : Except Stop Unit × Reader σ :=
  let reader := reader.skipLine
  match reader.ask with
  | (.ok (), channel) => { reader with channel }.load
  | (.error message, channel) => (.error (.failed message), { reader with channel })

@[simp] theorem replies_ask (reader : Reader σ) :
    reader.ask.2.replies = reader.channel.replies := by
  have hwrite := reader.channel.replies_write reader.prompt
  unfold ask
  split
  · simp
  · split
    · next h => rw [Channel.replies_flush, ← hwrite, h]
    · exact hwrite

def asked (reader : Reader σ) : Reader σ :=
  { reader.skipLine with channel := reader.skipLine.ask.2 }

@[simp] theorem line_asked (reader : Reader σ) : reader.asked.line = reader.line.exhaust := rfl

@[simp] theorem replies_asked (reader : Reader σ) :
    reader.asked.channel.replies = reader.channel.replies := reader.skipLine.replies_ask

theorem fetch_of_ask_ok {reader : Reader σ} (h : reader.skipLine.ask.1 = .ok ()) :
    reader.fetch = reader.asked.load := by
  have hask : reader.skipLine.ask = (.ok (), reader.skipLine.ask.2) := Prod.ext h rfl
  dsimp only [fetch]
  rw [hask]
  rfl

theorem fetch_of_ask_error {reader : Reader σ} {message : String}
    (h : reader.skipLine.ask.1 = .error message) :
    reader.fetch = (.error (.failed message), reader.asked) := by
  have hask : reader.skipLine.ask = (.error message, reader.skipLine.ask.2) := Prod.ext h rfl
  dsimp only [fetch]
  rw [hask]
  rfl

theorem fetch_ok {reader reader' : Reader σ} (h : reader.fetch = (.ok (), reader')) :
    ∃ text, reader.channel.replies = .line text :: reader'.channel.replies ∧
      reader'.line = .load text := by
  have hask := reader.skipLine.replies_ask
  simp only [fetch] at h
  split at h
  · next hask' =>
    obtain ⟨text, hreplies, hline⟩ := load_ok h
    rw [hask'] at hask
    exact ⟨text, hask.symm.trans hreplies, hline⟩
  · simp at h

theorem replies_length_of_fetch {reader reader' : Reader σ} (h : reader.fetch = (.ok (), reader')) :
    reader'.channel.replies.length < reader.channel.replies.length := by
  obtain ⟨text, hreplies, -⟩ := fetch_ok h
  simp [hreplies]

/-- The next token, from as many lines as it takes to find one. -/
def next (reader : Reader σ) : Except Stop Token × Reader σ :=
  match reader.line.next? with
  | some (token, line) => (.ok token, { reader with line }.note (.scanned token))
  | none =>
    match _h : reader.fetch with
    | (.ok (), reader) => next reader
    | (.error stop, reader) => (.error stop, reader)
termination_by reader.channel.replies.length
decreasing_by exact replies_length_of_fetch _h

theorem next_of_token {reader : Reader σ} {token : Token} {line : Line}
    (h : reader.line.next? = some (token, line)) :
    reader.next = (.ok token, { reader with line }.note (.scanned token)) := by
  unfold next
  rw [h]

theorem next_of_fetch {reader reader' : Reader σ} (h : reader.line.next? = none)
    (hfetch : reader.fetch = (.ok (), reader')) : reader.next = reader'.next := by
  rw [next, h]
  dsimp only
  split
  · next hfetch' =>
    rw [hfetch] at hfetch'
    rw [(Prod.mk.inj hfetch').2]
  · next hfetch' =>
    rw [hfetch] at hfetch'
    simp at hfetch'

theorem next_of_stop {reader reader' : Reader σ} {stop : Stop} (h : reader.line.next? = none)
    (hfetch : reader.fetch = (.error stop, reader')) : reader.next = (.error stop, reader') := by
  rw [next, h]
  dsimp only
  split
  · next hfetch' =>
    rw [hfetch] at hfetch'
    simp at hfetch'
  · next hfetch' =>
    rw [hfetch] at hfetch'
    obtain ⟨hstop, rfl⟩ := Prod.mk.inj hfetch'
    rw [Except.error.inj hstop]

theorem unread_of_fetch {reader reader' : Reader σ} (h : reader.fetch = (.ok (), reader')) :
    reader'.unread ≤ reader.unread := by
  obtain ⟨text, hreplies, hline⟩ := fetch_ok h
  simp [unread, hreplies, hline, replyLength]

/-- A token takes at least one character. -/
theorem unread_of_next {reader reader' : Reader σ} {token : Token}
    (h : reader.next = (.ok token, reader')) : reader'.unread < reader.unread := by
  fun_induction next reader with
  | case1 reader found line hline =>
    obtain ⟨-, rfl⟩ := Prod.mk.inj h
    exact Nat.add_lt_add_right (Line.rest_length_of_next? hline) _
  | case2 reader hline reader₁ hfetch ih => exact Nat.lt_of_lt_of_le (ih h) (unread_of_fetch hfetch)
  | case3 => simp at h

def drain (reader : Reader σ) : List (Token × Nat) × Stop × Reader σ :=
  match _h : reader.next with
  | (.ok token, reader) =>
    let (tokens, stop, last) := drain reader
    ((token, reader.line.position) :: tokens, stop, last)
  | (.error stop, reader) => ([], stop, reader)
termination_by reader.unread
decreasing_by exact unread_of_next _h

end Reader

end ReversePolish
