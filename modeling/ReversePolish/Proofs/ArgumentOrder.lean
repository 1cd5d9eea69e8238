import Mathlib.Data.List.Perm.Basic
import ReversePolish.Proofs.ExecutedJournals
import ReversePolish.Proofs.WordedArguments

/-!
# The order of arguments

Wishes come to something exactly if none but that for verbosity is repeated. What they come to can
be counted, so that neither their order matters nor the words that they are put into, and verbosity
is counted no further than to where more of it makes no difference.
-/

namespace ReversePolish

/-- The count of the verbosity options ends where more of them show no more. -/
theorem Level.ofVerbosity_min (verbosity : Nat) :
    ofVerbosity (min verbosity 255) = ofVerbosity verbosity := by
  rcases Nat.le_total verbosity 255 with h | h
  · rw [Nat.min_eq_left h]
  · rw [Nat.min_eq_right h, ofVerbosity_of_le (Nat.le_trans (by decide) h)]
    rfl

namespace CommandLine

/-- Wishes of which only that for verbosity is repeated. -/
def asked (quiet : Bool) (prompt : Option String) (verbosity : Nat) (file : Option String) :
    List Wish :=
  List.replicate quiet.toNat .quiet ++ prompt.toList.map .prompt ++
    List.replicate verbosity .verbose ++ file.toList.map .file

namespace Arguments

variable {arguments later next : Arguments}

/-- What arguments gain from wishes. A wish other than that for verbosity comes to something if it
is the only one of its kind. -/
@[mk_iff]
structure Gains (arguments : Arguments) (wishes : List Wish) (later : Arguments) : Prop where
  quiet : later.quiet.toNat = arguments.quiet.toNat + wishes.count .quiet
  prompt : later.prompt.toList = arguments.prompt.toList ++ wishes.filterMap Wish.prompt?
  verbosity : later.verbosity = min (arguments.verbosity + wishes.count .verbose) 255
  file : later.file.toList = arguments.file.toList ++ wishes.filterMap Wish.file?

theorem gains_nil_iff (hverbosity : arguments.verbosity ≤ 255) :
    arguments.Gains [] later ↔ arguments = later := by
  constructor
  · intro h
    obtain ⟨quiet, prompt, verbosity, file⟩ := later
    obtain ⟨hquiet, hprompt, hverbosity', hfile⟩ := h
    obtain rfl : quiet = arguments.quiet := by
      simpa [Bool.ofNat_toNat] using congrArg Bool.ofNat hquiet
    obtain rfl : prompt = arguments.prompt := by simpa using congrArg List.head? hprompt
    obtain rfl : file = arguments.file := by simpa using congrArg List.head? hfile
    obtain rfl : verbosity = arguments.verbosity := by
      simp at hverbosity'
      omega
    rfl
  · rintro rfl
    exact ⟨by simp, by simp, by simpa using hverbosity, by simp⟩

theorem gains_cons_iff {wish : Wish} (hwish : wish ≠ .file "") {wishes : List Wish} :
    arguments.Gains (wish :: wishes) later ↔
      ∃ next, arguments.takeWish wish = .ok next ∧ next.Gains wishes later := by
  cases wish with
  | quiet =>
    simp only [takeWish, takeQuiet_eq_ok_iff]
    cases hold : arguments.quiet with
    | true =>
      refine iff_of_false (fun h => ?_) (by simp)
      have hquiet := h.quiet
      have honce := later.quiet.toNat_le
      rw [hold, Bool.toNat_true, List.count_cons_self] at hquiet
      omega
    | false =>
      simp [gains_iff, hold, List.filterMap_cons, Wish.prompt?, Wish.file?, Nat.add_comm]
  | verbose =>
    have hcount : min (arguments.verbosity + (wishes.count .verbose + 1)) 255 =
        min (min (arguments.verbosity + 1) 255 + wishes.count .verbose) 255 := by
      omega
    simp [takeWish, takeVerbose, gains_iff, hcount, List.filterMap_cons, Wish.prompt?, Wish.file?]
  | prompt value =>
    simp only [takeWish, takePrompt_eq_ok_iff]
    cases hold : arguments.prompt with
    | some earlier =>
      refine iff_of_false (fun h => ?_) (by simp)
      have honce := later.prompt.length_toList_le
      simp [h.prompt, hold, Wish.prompt?] at honce
    | none => simp [gains_iff, hold, List.filterMap_cons, Wish.prompt?, Wish.file?]
  | file name =>
    have hnonempty : name ≠ "" := by simpa using hwish
    simp only [takeWish, takeFile_eq_ok_iff]
    cases hold : arguments.file with
    | some earlier =>
      refine iff_of_false (fun h => ?_) (by simp)
      have honce := later.file.length_toList_le
      simp [h.file, hold, Wish.file?] at honce
    | none => simp [gains_iff, hold, hnonempty, List.filterMap_cons, Wish.prompt?, Wish.file?]

theorem verbosity_of_takeWish {wish : Wish} (h : arguments.takeWish wish = .ok next)
    (hverbosity : arguments.verbosity ≤ 255) : next.verbosity ≤ 255 := by
  cases wish with
  | quiet =>
    obtain ⟨-, rfl⟩ := takeQuiet_eq_ok_iff.1 h
    exact hverbosity
  | verbose =>
    obtain rfl := Except.ok.inj h
    exact Nat.min_le_right _ _
  | prompt value =>
    obtain ⟨-, rfl⟩ := takePrompt_eq_ok_iff.1 h
    exact hverbosity
  | file name =>
    obtain ⟨-, -, rfl⟩ := takeFile_eq_ok_iff.1 h
    exact hverbosity

theorem foldlM_takeWish_eq_ok_iff {wishes : List Wish} (hwishes : .file "" ∉ wishes)
    (hverbosity : arguments.verbosity ≤ 255) :
    wishes.foldlM takeWish arguments = .ok later ↔ arguments.Gains wishes later := by
  induction wishes generalizing arguments with
  | nil =>
    rw [gains_nil_iff hverbosity]
    exact ⟨Except.ok.inj, congrArg Except.ok⟩
  | cons wish wishes ih =>
    obtain ⟨hwish, hwishes⟩ := List.ne_and_not_mem_of_not_mem_cons hwishes
    rw [gains_cons_iff hwish.symm, List.foldlM_cons]
    constructor
    · intro h
      obtain ⟨next, hnext, hlater⟩ := exists_of_bind h
      exact ⟨next, hnext, (ih hwishes (verbosity_of_takeWish hnext hverbosity)).1 hlater⟩
    · rintro ⟨next, hnext, hlater⟩
      rw [hnext]
      exact (ih hwishes (verbosity_of_takeWish hnext hverbosity)).2 hlater

end Arguments

theorem count_quiet_asked (quiet : Bool) (prompt : Option String) (verbosity : Nat)
    (file : Option String) : (asked quiet prompt verbosity file).count .quiet = quiet.toNat := by
  cases prompt <;> cases file <;> simp [asked, List.count_replicate]

theorem count_verbose_asked (quiet : Bool) (prompt : Option String) (verbosity : Nat)
    (file : Option String) : (asked quiet prompt verbosity file).count .verbose = verbosity := by
  cases prompt <;> cases file <;> simp [asked, List.count_replicate]

theorem filterMap_prompt?_asked (quiet : Bool) (prompt : Option String) (verbosity : Nat)
    (file : Option String) :
    (asked quiet prompt verbosity file).filterMap Wish.prompt? = prompt.toList := by
  cases prompt <;> cases file <;>
    simp [asked, List.filterMap_cons, List.filterMap_replicate, Wish.prompt?]

theorem filterMap_file?_asked (quiet : Bool) (prompt : Option String) (verbosity : Nat)
    (file : Option String) :
    (asked quiet prompt verbosity file).filterMap Wish.file? = file.toList := by
  cases prompt <;> cases file <;>
    simp [asked, List.filterMap_cons, List.filterMap_replicate, Wish.file?]

theorem perm_sorted (wishes : List Wish) :
    wishes.Perm (List.replicate (wishes.count .quiet) Wish.quiet ++
      (wishes.filterMap Wish.prompt?).map Wish.prompt ++
      List.replicate (wishes.count .verbose) Wish.verbose ++
      (wishes.filterMap Wish.file?).map Wish.file) := by
  induction wishes with
  | nil => rfl
  | cons wish wishes ih =>
    refine (ih.cons wish).trans ?_
    cases wish with
    | quiet => simp [List.filterMap_cons, List.replicate_succ, Wish.prompt?, Wish.file?]
    | prompt value =>
      simp only [List.filterMap_cons, Wish.prompt?, Wish.file?, List.map_cons, ne_eq, reduceCtorEq,
        not_false_eq_true, List.count_cons_of_ne]
      exact (List.perm_middle.symm.append_right _).append_right _
    | verbose =>
      simp only [List.filterMap_cons, Wish.prompt?, Wish.file?, List.count_cons_self,
        List.replicate_succ, ne_eq, reduceCtorEq, not_false_eq_true, List.count_cons_of_ne]
      exact List.perm_middle.symm.append_right _
    | file name =>
      simp only [List.filterMap_cons, Wish.prompt?, Wish.file?, List.map_cons, ne_eq, reduceCtorEq,
        not_false_eq_true, List.count_cons_of_ne]
      exact List.perm_middle.symm

theorem eq_toList_of_perm {α : Type} {l : List α} {o : Option α} (h : l.Perm o.toList) :
    l = o.toList := by
  cases o with
  | none => exact h.eq_nil
  | some a => exact h.eq_singleton

theorem perm_asked_iff {wishes : List Wish} {quiet : Bool} {prompt : Option String}
    {verbosity : Nat} {file : Option String} :
    wishes.Perm (asked quiet prompt verbosity file) ↔
      wishes.count .quiet = quiet.toNat ∧ wishes.filterMap Wish.prompt? = prompt.toList ∧
      wishes.count .verbose = verbosity ∧ wishes.filterMap Wish.file? = file.toList := by
  constructor
  · intro h
    have hprompt := h.filterMap Wish.prompt?
    have hfile := h.filterMap Wish.file?
    rw [filterMap_prompt?_asked] at hprompt
    rw [filterMap_file?_asked] at hfile
    exact ⟨(h.count_eq _).trans (count_quiet_asked ..), eq_toList_of_perm hprompt,
      (h.count_eq _).trans (count_verbose_asked ..), eq_toList_of_perm hfile⟩
  · rintro ⟨hquiet, hprompt, hverbosity, hfile⟩
    rw [asked, ← hquiet, ← hprompt, ← hverbosity, ← hfile]
    exact perm_sorted wishes

namespace Arguments

theorem gains_iff_perm {wishes : List Wish} {arguments : Arguments} :
    ({} : Arguments).Gains wishes arguments ↔ ∃ verbosity,
      wishes.Perm (asked arguments.quiet arguments.prompt verbosity arguments.file) ∧
      arguments.verbosity = min verbosity 255 := by
  simp only [gains_iff, perm_asked_iff]
  constructor
  · rintro ⟨hquiet, hprompt, hverbosity, hfile⟩
    exact ⟨wishes.count .verbose, ⟨by simpa using hquiet.symm, by simpa using hprompt.symm, rfl,
      by simpa using hfile.symm⟩, by simpa using hverbosity⟩
  · rintro ⟨verbosity, ⟨hquiet, hprompt, rfl, hfile⟩, hverbosity⟩
    exact ⟨by simpa using hquiet.symm, by simpa using hprompt.symm, by simpa using hverbosity,
      by simpa using hfile.symm⟩

/-- Arguments are valid exactly if they put wishes into words of which only that for verbosity is
repeated. -/
theorem ofTexts_eq_ok_iff {texts : List String} {arguments : Arguments} :
    ofTexts texts = .ok arguments ↔ ∃ wishes verbosity, Written texts wishes ∧
      wishes.Perm (asked arguments.quiet arguments.prompt verbosity arguments.file) ∧
      arguments.verbosity = min verbosity 255 := by
  rw [ofTexts]
  constructor
  · intro h
    obtain ⟨wishes, hwritten⟩ := exists_written h
    rw [take_written hwritten, foldlM_takeWish_eq_ok_iff hwritten.nonempty (Nat.zero_le _)] at h
    obtain ⟨verbosity, hwishes⟩ := gains_iff_perm.1 h
    exact ⟨wishes, verbosity, hwritten, hwishes⟩
  · rintro ⟨wishes, verbosity, hwritten, hwishes⟩
    rw [take_written hwritten, foldlM_takeWish_eq_ok_iff hwritten.nonempty (Nat.zero_le _)]
    exact gains_iff_perm.2 ⟨verbosity, hwishes⟩

/-- Arguments that put wishes into words are valid if none but the wish for verbosity is repeated,
whatever the order of the wishes, and whether flags stand in groups and the prompt in an argument of
its own or not. They name the file that is wished for, if any. Their level is that for so many
wishes for verbosity, counted up to 255, which shows no less than the level for all of them. Their
settings are the usual ones but for the prompt, which is empty if the session is to be quiet, and
otherwise the one that is wished for, if any. Exactly those arguments come to the same that put the
same wishes into words, in any order and with verbosity counted so. -/
theorem valid_in_any_order {texts : List String} {wishes : List Wish} {quiet : Bool}
    {prompt : Option String} {verbosity : Nat} {file : Option String}
    (hwritten : Written texts wishes) (hwishes : wishes.Perm (asked quiet prompt verbosity file)) :
    ∃ arguments, ofTexts texts = .ok arguments ∧ arguments.file = file ∧
      arguments.level = .ofVerbosity (min verbosity 255) ∧
      arguments.level = .ofVerbosity verbosity ∧
      arguments.settings = { prompt := if quiet then "" else prompt.getD ">> "
                             farewell := "Bye"
                             target := "it" } ∧
      ∀ texts', ofTexts texts' = .ok arguments ↔
        ∃ wishes' verbosity', Written texts' wishes' ∧
          wishes'.Perm (asked quiet prompt verbosity' file) ∧
          min verbosity 255 = min verbosity' 255 := by
  refine ⟨⟨quiet, prompt, min verbosity 255, file⟩, ?_, rfl, rfl, ?_, ?_, fun texts' => ?_⟩
  · exact ofTexts_eq_ok_iff.2 ⟨wishes, verbosity, hwritten, hwishes, rfl⟩
  · exact Level.ofVerbosity_min verbosity
  · cases quiet <;> rfl
  · exact ofTexts_eq_ok_iff

/-- The count ends within the first group, the value of the prompt could be the name of a file, and
behind the divider a flag is one. -/
theorem valid_in_any_order_past_count :
    let flags := Flag.verbose :: List.replicate 299 .verbose
    let texts := [String.ofList ('-' :: flags.map Flag.char), "--prompt", "notes.txt", "--verbose",
      "-vqv", "--", "-q"]
    ∃ arguments, ofTexts texts = .ok arguments ∧ arguments.file = some "-q" ∧
      arguments.level = .trace ∧ arguments.settings.prompt = "" := by
  intro flags texts
  have hflags : Phrase [String.ofList ('-' :: flags.map Flag.char)] (flags.map Flag.wish) :=
    .group (List.cons_ne_nil _ _)
  have hgroup : Phrase ["-vqv"] [.verbose, .quiet, .verbose] :=
    @Phrase.group [.verbose, .quiet, .verbose] (List.cons_ne_nil _ _)
  let wishes := flags.map Flag.wish ++ ([Wish.prompt "notes.txt"] ++ ([Wish.verbose] ++
    ([Wish.verbose, .quiet, .verbose] ++ [Wish.file "-q"])))
  have hwritten : Written texts wishes :=
    .phrase hflags (.phrase (.promptApart (.inl (by decide))) (.phrase .verbose
      (.phrase hgroup (@Written.divided ["-q"] (by decide)))))
  have hwishes : wishes.Perm (asked true (some "notes.txt") 303 (some "-q")) :=
    perm_asked_iff.2 (by decide +kernel)
  obtain ⟨arguments, hvalid, hfile, -, hlevel, hsettings, -⟩ := valid_in_any_order hwritten hwishes
  refine ⟨arguments, hvalid, hfile, ?_, ?_⟩
  · rw [hlevel]
    rfl
  · rw [hsettings]
    rfl

end Arguments

end CommandLine

end ReversePolish
