import ReversePolish.Proofs.ExecutedSessions

/-!
# Wishes in words

A command line puts wishes into words: flags by themselves or in groups, options by their long
names, a prompt in one argument or in two, a file wherever it cannot be mistaken for an option, and
any file behind a divider. Valid arguments are such words, and they are taken wish by wish, so that
of the wording nothing is left.
-/

namespace ReversePolish.CommandLine

inductive Wish where
  | quiet
  | verbose
  | prompt (value : String)
  | file (name : String)
  deriving DecidableEq

namespace Wish

def prompt? : Wish → Option String
  | prompt value => some value
  | quiet | verbose | file _ => none

def file? : Wish → Option String
  | file name => some name
  | quiet | verbose | prompt _ => none

end Wish

inductive Flag where
  | quiet
  | verbose

namespace Flag

def char : Flag → Char
  | quiet => 'q'
  | verbose => 'v'

def wish : Flag → Wish
  | quiet => .quiet
  | verbose => .verbose

end Flag

/-- A text that is no option, since no dash begins it or there is nothing but a dash. -/
def Plain (text : String) : Prop := text.toList.head? ≠ some '-' ∨ text = "-"

/-- Arguments that belong together, and what they ask for. -/
inductive Phrase : List String → List Wish → Prop
  | quiet : Phrase ["--quiet"] [.quiet]
  | verbose : Phrase ["--verbose"] [.verbose]
  | group {flags : List Flag} (nonempty : flags ≠ []) :
      Phrase [String.ofList ('-' :: flags.map Flag.char)] (flags.map Flag.wish)
  | promptWithin (value : String) : Phrase ["--prompt=" ++ value] [.prompt value]
  | promptApart {value : String} (plain : Plain value) : Phrase ["--prompt", value] [.prompt value]
  | file {name : String} (plain : Plain name) (nonempty : name ≠ "") :
      Phrase [name] [.file name]

/-- The arguments of a command line and all that they ask for, in order. Behind a divider there are
only files. -/
inductive Written : List String → List Wish → Prop
  | done : Written [] []
  | divided {names : List String} (nonempty : "" ∉ names) :
      Written ("--" :: names) (names.map .file)
  | phrase {texts texts' wishes wishes'} (phrase : Phrase texts wishes)
      (more : Written texts' wishes') : Written (texts ++ texts') (wishes ++ wishes')

theorem Written.nonempty {texts : List String} {wishes : List Wish} (h : Written texts wishes) :
    .file "" ∉ wishes := by
  induction h with
  | done => exact List.not_mem_nil
  | divided hnonempty => simpa using hnonempty
  | phrase hphrase more ih =>
    refine fun hmem => (List.mem_append.1 hmem).elim (fun hmem => ?_) ih
    cases hphrase with
    | quiet | verbose | promptWithin | promptApart => simp at hmem
    | group =>
      obtain ⟨flag, -, hflag⟩ := List.mem_map.1 hmem
      cases flag <;> cases hflag
    | file _ hnonempty => simp [hnonempty.symm] at hmem

theorem plain_iff {text : String} : Plain text ↔ ∀ c others, text.toList ≠ '-' :: c :: others := by
  have hdash : text = "-" ↔ text.toList = ['-'] := String.toList_inj.symm
  rw [Plain, hdash]
  match text.toList with
  | [] => simp
  | [c] => simp [Classical.em, or_comm]
  | c :: c' :: others => simp

theorem mayBeValue_iff {text : String} : mayBeValue text ↔ Plain text := by
  rw [plain_iff, mayBeValue]
  split
  · next h => simp [h]
  · next h => simpa using h

namespace Argument

def text : Argument → String
  | file name => name
  | divider => "--"
  | long name none => "--" ++ name
  | long name (some value) => "--" ++ name ++ "=" ++ value
  | short flags => String.ofList ('-' :: flags)

/-- Nothing of an argument is lost in its form. -/
theorem eq_text_of_ofText {text : String} {form : Argument} (h : ofText text = form) :
    text = form.text := by
  subst h
  apply String.toList_injective
  unfold ofText
  split
  · next h => rw [h]; rfl
  · next option _ h =>
    have hsplit := List.takeWhile_append_dropWhile (p := (· ≠ '=')) (l := option)
    have hhead := List.head?_dropWhile_not (fun c : Char => decide (c ≠ '=')) option
    rw [h]
    dsimp only
    split
    · next hnil =>
      rw [hnil, List.append_nil] at hsplit
      simp only [hsplit, Argument.text, String.toList_append, String.toList_ofList]
      rfl
    · next c value hvalue =>
      rw [hvalue] at hsplit hhead
      obtain rfl : c = '=' := by simpa using hhead
      simp only [Argument.text, String.toList_append, String.toList_ofList, List.append_assoc]
      exact congrArg ('-' :: '-' :: ·) hsplit.symm
  · next h => rw [h]; exact String.toList_ofList.symm
  · rfl

theorem ofText_eq_file_iff {text name : String} :
    ofText text = .file name ↔ text = name ∧ Plain text := by
  rw [plain_iff]
  unfold ofText
  split
  · next h => simp [h]
  · next h =>
    dsimp only
    split <;> simp [h]
  · next h => simp [h]
  · next h => simpa using fun _ => h

theorem ne_nil_of_ofText_eq_short {text : String} {flags : List Char}
    (h : ofText text = .short flags) : flags ≠ [] := by
  unfold ofText at h
  split at h
  · cases h
  · dsimp only at h
    split at h <;> cases h
  · obtain rfl := Argument.short.inj h
    exact List.cons_ne_nil _ _
  · cases h

theorem ofText_prompt (value : String) :
    ofText ("--prompt=" ++ value) = .long "prompt" (some value) := by
  have hchars : ("--prompt=" ++ value).toList =
      '-' :: '-' :: 'p' :: 'r' :: 'o' :: 'm' :: 'p' :: 't' :: '=' :: value.toList :=
    String.toList_append
  simp [ofText, hchars]

end Argument

namespace Arguments

variable {arguments later next : Arguments}

def takeWish (arguments : Arguments) : Wish → Except Interruption Arguments
  | .quiet => arguments.takeQuiet
  | .verbose => .ok arguments.takeVerbose
  | .prompt value => arguments.takePrompt value
  | .file name => arguments.takeFile name

theorem takeFlag_char (arguments : Arguments) (flag : Flag) :
    arguments.takeFlag flag.char = arguments.takeWish flag.wish := by
  cases flag <;> rfl

theorem foldlM_takeFlag_char (arguments : Arguments) (flags : List Flag) :
    (flags.map Flag.char).foldlM takeFlag arguments =
      (flags.map Flag.wish).foldlM takeWish arguments := by
  simp only [List.foldlM_map, takeFlag_char]

theorem foldlM_takeFile_eq (arguments : Arguments) (names : List String) :
    names.foldlM takeFile arguments = (names.map .file).foldlM takeWish arguments := by
  simp only [List.foldlM_map]
  rfl

theorem foldlM_takeWish_singleton (arguments : Arguments) (wish : Wish) :
    [wish].foldlM takeWish arguments = arguments.takeWish wish := by
  rw [List.foldlM_cons]
  exact bind_pure _

/-- A phrase is taken as what it asks for, before the rest of the command line. -/
theorem take_phrase {texts : List String} {wishes : List Wish} (h : Phrase texts wishes)
    (arguments : Arguments) (texts' : List String) :
    arguments.take (texts ++ texts') =
      wishes.foldlM takeWish arguments >>= (Arguments.take · texts') := by
  cases h with
  | quiet =>
    rw [List.singleton_append, take.eq_def, foldlM_takeWish_singleton]
    simp only [show Argument.ofText "--quiet" = .long "quiet" none from rfl]
    rfl
  | verbose =>
    rw [List.singleton_append, take.eq_def, foldlM_takeWish_singleton]
    simp only [show Argument.ofText "--verbose" = .long "verbose" none from rfl]
    rfl
  | @group flags hnonempty =>
    obtain ⟨flag, flags, rfl⟩ := List.exists_cons_of_ne_nil hnonempty
    have hflag : flag.char ≠ '-' := by cases flag <;> decide
    rw [List.singleton_append, take.eq_def, List.map_cons]
    simp only [Argument.ofText_short hflag]
    rw [← List.map_cons, foldlM_takeFlag_char]
  | promptWithin value =>
    rw [List.singleton_append, take.eq_def, foldlM_takeWish_singleton]
    simp only [Argument.ofText_prompt]
    rfl
  | promptApart hplain =>
    rw [List.cons_append, List.singleton_append, take.eq_def, foldlM_takeWish_singleton]
    simp only [show Argument.ofText "--prompt" = .long "prompt" none from rfl,
      mayBeValue_iff.2 hplain, if_true]
    rfl
  | file hplain hnonempty =>
    rw [List.singleton_append, take.eq_def, foldlM_takeWish_singleton]
    simp only [Argument.ofText_eq_file_iff.2 ⟨rfl, hplain⟩]
    rfl

/-- The arguments of a command line are taken as what they ask for. -/
theorem take_written {texts : List String} {wishes : List Wish} (h : Written texts wishes)
    (arguments : Arguments) : arguments.take texts = wishes.foldlM takeWish arguments := by
  induction h generalizing arguments with
  | done => rfl
  | @divided names hnonempty =>
    rw [take.eq_def]
    simp only [show Argument.ofText "--" = .divider from rfl]
    exact arguments.foldlM_takeFile_eq names
  | phrase hphrase more ih =>
    rw [take_phrase hphrase, List.foldlM_append]
    exact bind_congr ih

theorem takeQuiet_eq_ok_iff :
    arguments.takeQuiet = .ok next ↔
      arguments.quiet = false ∧ { arguments with quiet := true } = next := by
  cases h : arguments.quiet <;> simp [takeQuiet, h]

theorem takePrompt_eq_ok_iff {value : String} :
    arguments.takePrompt value = .ok next ↔
      arguments.prompt = none ∧ { arguments with prompt := some value } = next := by
  cases h : arguments.prompt <;> simp [takePrompt, h]

theorem takeFile_eq_ok_iff {name : String} :
    arguments.takeFile name = .ok next ↔
      arguments.file = none ∧ name ≠ "" ∧ { arguments with file := some name } = next := by
  cases h : arguments.file with
  | none => by_cases hname : name = "" <;> simp [takeFile, h, hname]
  | some earlier => simp [takeFile, h]

/-- Nothing but flags can make up a valid group. -/
theorem exists_flags {flags : List Char} (h : flags.foldlM takeFlag arguments = .ok later) :
    ∃ flags' : List Flag, flags = flags'.map Flag.char := by
  induction flags generalizing arguments with
  | nil => exact ⟨[], rfl⟩
  | cons flag flags ih =>
    obtain ⟨next, hflag, hlater⟩ := exists_of_bind h
    obtain ⟨flags', rfl⟩ := ih hlater
    unfold takeFlag at hflag
    split at hflag
    · exact ⟨.quiet :: flags', rfl⟩
    · exact ⟨.verbose :: flags', rfl⟩
    all_goals cases hflag

theorem nonempty_of_foldlM_takeFile {names : List String}
    (h : names.foldlM takeFile arguments = .ok later) : "" ∉ names := by
  induction names generalizing arguments with
  | nil => exact List.not_mem_nil
  | cons name names ih =>
    obtain ⟨next, hname, hlater⟩ := exists_of_bind h
    obtain ⟨-, hnonempty, -⟩ := takeFile_eq_ok_iff.1 hname
    exact List.not_mem_cons_of_ne_of_not_mem hnonempty.symm (ih hlater)

/-- Valid arguments put wishes into words. -/
theorem exists_written {texts : List String} (h : arguments.take texts = .ok later) :
    ∃ wishes, Written texts wishes := by
  fun_induction take arguments texts generalizing later with
  | case1 => exact ⟨[], .done⟩
  | case2 arguments text texts name hform ih =>
    obtain ⟨next, hnext, hlater⟩ := exists_of_bind h
    obtain ⟨wishes, hwritten⟩ := ih next hlater
    obtain ⟨rfl, hplain⟩ := Argument.ofText_eq_file_iff.1 hform
    obtain ⟨-, hnonempty, -⟩ := takeFile_eq_ok_iff.1 hnext
    exact ⟨_, .phrase (.file hplain hnonempty) hwritten⟩
  | case3 arguments text texts hform =>
    obtain rfl := Argument.eq_text_of_ofText hform
    exact ⟨_, .divided (nonempty_of_foldlM_takeFile h)⟩
  | case4 arguments text texts flags hform ih =>
    obtain ⟨next, hnext, hlater⟩ := exists_of_bind h
    obtain ⟨wishes, hwritten⟩ := ih next hlater
    obtain ⟨flags, rfl⟩ := exists_flags hnext
    obtain rfl := Argument.eq_text_of_ofText hform
    have hnonempty := Argument.ne_nil_of_ofText_eq_short hform
    exact ⟨_, .phrase (.group (by simpa using hnonempty)) hwritten⟩
  | case5 => cases h
  | case6 arguments text hform value texts hvalue ih =>
    obtain ⟨next, hnext, hlater⟩ := exists_of_bind h
    obtain ⟨wishes, hwritten⟩ := ih next hlater
    obtain rfl := Argument.eq_text_of_ofText hform
    exact ⟨_, .phrase (.promptApart (mayBeValue_iff.1 hvalue)) hwritten⟩
  | case7 => cases h
  | case8 arguments text texts name hprompt hform ih =>
    obtain ⟨next, hnext, hlater⟩ := exists_of_bind h
    obtain ⟨wishes, hwritten⟩ := ih next hlater
    obtain rfl := Argument.eq_text_of_ofText hform
    unfold takeLong at hnext
    split at hnext
    · exact ⟨_, .phrase .quiet hwritten⟩
    · exact ⟨_, .phrase .verbose hwritten⟩
    all_goals cases hnext
  | case9 arguments text texts name value hform ih =>
    obtain ⟨next, hnext, hlater⟩ := exists_of_bind h
    obtain ⟨wishes, hwritten⟩ := ih next hlater
    obtain rfl := Argument.eq_text_of_ofText hform
    unfold takeLongValue at hnext
    split at hnext
    · exact ⟨_, .phrase (.promptWithin value) hwritten⟩
    all_goals cases hnext

end Arguments

end ReversePolish.CommandLine
