import Edn.CommandLine
import Mathlib.Data.List.Induction

/-!
# Arguments

The arguments of the command line are options and positionals.  Which
argument is what is told from left to right; what the arguments ask for
depends on the options and the positionals apart from each other.

* `Splits` cuts a list of arguments into pieces: an option, which takes the
  value behind it along, or a positional.  A list is cut in exactly one way
  (`exists_splits`, `Splits.unique`).
* `takeArguments_eq`: the arguments are taken piece by piece.
* `foldlM_take_eq_ok_iff` is the invariant of the run: the pieces that have
  been taken are acceptable, and the state is told by their options and by
  their positionals.
* `Moves` says that an option stands in another place, and
  `Moves.configuration_eq` that the place does not matter.
* `arguments_split` is the result.
-/

namespace Edn.CommandLine

/-! ## Pieces -/

/-- The options that have no value. -/
inductive Flag where
  | help
  | version
  | strict
deriving DecidableEq, Repr

/-- The words of an option. -/
def Flag.words : Flag → List String
  | help => ["-h", "--help"]
  | version => ["-V", "--version"]
  | strict => ["--strict"]

/-- A piece of the arguments.  `unknown` looks like an option and is none, and `formatAlone` lacks the
value behind it. -/
inductive Piece where
  | flag (f : Flag) (word : String)
  | format (value : String)
  | formatAlone
  | unknown (word : String)
  | positional (word : String)
deriving DecidableEq, Repr

/-- An argument that starts with a hyphen and is not a hyphen alone. -/
abbrev IsHyphened (word : String) : Prop :=
  word.toList.head? = some '-' ∧ word ≠ "-"

namespace Piece

/-- The arguments of a piece. -/
def arguments : Piece → List String
  | flag _ word => [word]
  | format value => [formatOption, value]
  | formatAlone => [formatOption]
  | unknown word => [word]
  | positional word => [word]

/-- The words of a piece are what it says. -/
def IsWritten : Piece → Prop
  | flag f word => word ∈ f.words
  | format _ => True
  | formatAlone => True
  | unknown word => IsHyphened word ∧ word ≠ formatOption ∧ ∀ f : Flag, word ∉ f.words
  | positional word => ¬IsHyphened word

/-- Tells whether a piece is an option that is known and has the value it needs. -/
def isOption : Piece → Bool
  | flag _ _ => true
  | format _ => true
  | _ => false

/-- The word of a positional. -/
def positional? : Piece → Option String
  | positional word => some word
  | _ => none

/-- The value of a format. -/
def format? : Piece → Option String
  | format value => some value
  | _ => none

/-- Tells whether a piece is a given option. -/
def isFlag (f : Flag) : Piece → Bool
  | flag other _ => decide (other = f)
  | _ => false

end Piece

/-- Cuts arguments into pieces from left to right.  A format takes the argument behind it along,
whatever that is, and is alone only at the end. -/
inductive Splits : List String → List Piece → Prop where
  | nil : Splits [] []
  | formatAlone : Splits [formatOption] [.formatAlone]
  | cons {piece : Piece} {arguments : List String} {pieces : List Piece} (written : piece.IsWritten)
      (complete : piece ≠ .formatAlone) (rest : Splits arguments pieces) :
      Splits (piece.arguments ++ arguments) (piece :: pieces)

/-! ## What the pieces ask for -/

/-- The positionals of some pieces, in order. -/
def positionals (pieces : List Piece) : List String :=
  pieces.filterMap Piece.positional?

/-- The values of the formats of some pieces, in order. -/
def formats (pieces : List Piece) : List String :=
  pieces.filterMap Piece.format?

/-- An argument names a command. -/
abbrev IsCommand (word : String) : Prop :=
  word = "fmt" ∨ word = "check"

/-- Positionals are none, one, or a command and one more. -/
def AreAcceptable : List String → Prop
  | [] => True
  | [_] => True
  | [first, _] => IsCommand first
  | _ => False

/-- Pieces are acceptable if they are options and acceptable positionals. -/
def IsAccepted (pieces : List Piece) : Prop :=
  (∀ piece ∈ pieces, piece.isOption = true ∨ piece.positional?.isSome = true) ∧
    AreAcceptable (positionals pieces)

/-- The command of acceptable positionals. -/
def commandOf (positionals : List String) : Command :=
  if positionals.head? = some "check" then .check else .fmt

/-- The file of an input.  A hyphen is the standard input. -/
def fileOf (input : String) : Option String :=
  if input = "-" then none else some input

/-- The input among acceptable positionals: the second of two, or the only one if it is no command. -/
def inputOf : List String → Option String
  | [word] => if IsCommand word then none else some word
  | [_, word] => some word
  | _ => none

@[simp]
theorem positionals_nil : positionals [] = [] :=
  rfl

@[simp]
theorem positionals_append (first second : List Piece) :
    positionals (first ++ second) = positionals first ++ positionals second :=
  List.filterMap_append

@[simp]
theorem positionals_cons (piece : Piece) (rest : List Piece) :
    positionals (piece :: rest) = piece.positional?.toList ++ positionals rest := by
  cases hpiece : piece.positional? <;> simp [positionals, hpiece]

@[simp]
theorem formats_nil : formats [] = [] :=
  rfl

@[simp]
theorem formats_append (first second : List Piece) :
    formats (first ++ second) = formats first ++ formats second :=
  List.filterMap_append

@[simp]
theorem formats_cons (piece : Piece) (rest : List Piece) :
    formats (piece :: rest) = piece.format?.toList ++ formats rest := by
  cases hpiece : piece.format? <;> simp [formats, hpiece]

/-- What acceptable pieces ask for. -/
def configuration (pieces : List Piece) : Options where
  command := commandOf (positionals pieces)
  file := (inputOf (positionals pieces)).bind fileOf
  strict := pieces.any (Piece.isFlag .strict)
  format := (formats pieces).getLast?
  help := pieces.any (Piece.isFlag .help)
  version := pieces.any (Piece.isFlag .version)

/-! ## Cutting -/

/-- The piece of an argument that has no value behind it. -/
def Piece.ofWord (word : String) : Piece :=
  if word ∈ Flag.help.words then .flag .help word
  else if word ∈ Flag.version.words then .flag .version word
  else if word ∈ Flag.strict.words then .flag .strict word
  else if IsHyphened word then .unknown word
  else .positional word

section Cutting

variable {arguments : List String} {piece other : Piece} {pieces : List Piece} {word : String}

theorem Piece.isWritten_ofWord (hword : word ≠ formatOption) : (ofWord word).IsWritten := by
  unfold ofWord
  split_ifs with hhelp hversion hstrict hhyphen
  · exact hhelp
  · exact hversion
  · exact hstrict
  · refine ⟨hhyphen, hword, fun f => ?_⟩
    cases f
    · exact hhelp
    · exact hversion
    · exact hstrict
  · exact hhyphen

theorem Piece.arguments_ofWord : (ofWord word).arguments = [word] := by
  unfold ofWord
  split_ifs <;> rfl

theorem Piece.ofWord_ne_formatAlone : ofWord word ≠ .formatAlone := by
  unfold ofWord
  split_ifs <;> exact Piece.noConfusion

/-- Options look like options, and none is a format. -/
theorem isHyphened_of_mem_words {f : Flag} (h : word ∈ f.words) :
    IsHyphened word ∧ word ≠ formatOption := by
  cases f <;> revert word <;> decide

theorem Piece.ofWord_of_mem_words {f : Flag} (h : word ∈ f.words) : ofWord word = .flag f word := by
  cases f <;> revert word <;> decide

/-- A complete piece is a format, or it is told by its word. -/
theorem Piece.IsWritten.format_or_word (hwritten : piece.IsWritten)
    (hcomplete : piece ≠ .formatAlone) :
    (∃ value, piece = .format value) ∨ ∃ word, word ≠ formatOption ∧ piece = ofWord word := by
  cases piece with
  | flag f word =>
    exact .inr ⟨word, (isHyphened_of_mem_words hwritten).2, (ofWord_of_mem_words hwritten).symm⟩
  | format value => exact .inl ⟨value, rfl⟩
  | formatAlone => exact absurd rfl hcomplete
  | unknown word =>
    obtain ⟨hhyphen, hword, hflags⟩ := hwritten
    refine .inr ⟨word, hword, ?_⟩
    simp [ofWord, hflags, hhyphen]
  | positional word =>
    have hhyphen : ¬IsHyphened word := hwritten
    have hflags : ∀ f : Flag, word ∉ f.words :=
      fun f hmem => hhyphen (isHyphened_of_mem_words hmem).1
    refine .inr ⟨word, ?_, ?_⟩
    · intro hword
      rw [hword] at hhyphen
      exact hhyphen (by decide)
    · simp [ofWord, hflags, hhyphen]

/-- Pieces are told apart by their arguments. -/
theorem Piece.IsWritten.unique {rest rest' : List String} (hpiece : piece.IsWritten)
    (hother : other.IsWritten) (hcomplete : piece ≠ .formatAlone)
    (hcomplete' : other ≠ .formatAlone)
    (h : piece.arguments ++ rest = other.arguments ++ rest') : piece = other ∧ rest = rest' := by
  rcases hpiece.format_or_word hcomplete with ⟨value, rfl⟩ | ⟨word, hword, rfl⟩
  · rcases hother.format_or_word hcomplete' with ⟨value', rfl⟩ | ⟨word', hword', rfl⟩
    · simpa [arguments] using h
    · rw [arguments_ofWord] at h
      exact absurd (List.cons.inj h).1.symm hword'
  · rcases hother.format_or_word hcomplete' with ⟨value', rfl⟩ | ⟨word', hword', rfl⟩
    · rw [arguments_ofWord] at h
      exact absurd (List.cons.inj h).1 hword
    · rw [arguments_ofWord, arguments_ofWord] at h
      obtain ⟨rfl, hrest⟩ := List.cons.inj h
      exact ⟨rfl, hrest⟩

theorem exists_splits (arguments : List String) : ∃ pieces, Splits arguments pieces := by
  match arguments with
  | [] => exact ⟨[], .nil⟩
  | [word] =>
    by_cases hword : word = formatOption
    · rw [hword]
      exact ⟨_, .formatAlone⟩
    · have hsplits := Splits.cons (Piece.isWritten_ofWord hword) Piece.ofWord_ne_formatAlone .nil
      rw [Piece.arguments_ofWord] at hsplits
      exact ⟨_, hsplits⟩
  | word :: value :: rest =>
    by_cases hword : word = formatOption
    · obtain ⟨pieces, hrest⟩ := exists_splits rest
      have hwritten : (Piece.format value).IsWritten := trivial
      rw [hword]
      exact ⟨_, .cons hwritten Piece.noConfusion hrest⟩
    · obtain ⟨pieces, hrest⟩ := exists_splits (value :: rest)
      have hsplits :=
        Splits.cons (Piece.isWritten_ofWord hword) Piece.ofWord_ne_formatAlone hrest
      rw [Piece.arguments_ofWord] at hsplits
      exact ⟨_, hsplits⟩

/-- A format without a value is the last argument. -/
theorem Piece.IsWritten.ne_formatAlone {rest : List String} (hwritten : piece.IsWritten)
    (hcomplete : piece ≠ .formatAlone) : piece.arguments ++ rest ≠ [formatOption] := by
  intro h
  rcases hwritten.format_or_word hcomplete with ⟨value, rfl⟩ | ⟨word, hword, rfl⟩
  · simp [arguments] at h
  · rw [arguments_ofWord] at h
    exact hword (List.cons.inj h).1

theorem Piece.arguments_ne_nil (piece : Piece) (rest : List String) :
    piece.arguments ++ rest ≠ [] := by
  cases piece <;> simp [arguments]

/-- There is one way to cut arguments. -/
theorem Splits.unique {others : List Piece} (h : Splits arguments pieces)
    (hothers : Splits arguments others) : others = pieces := by
  induction h generalizing others with
  | nil =>
    generalize hnil : ([] : List String) = arguments at hothers
    cases hothers with
    | nil => rfl
    | formatAlone => cases hnil
    | cons _ _ _ => exact absurd hnil.symm (Piece.arguments_ne_nil _ _)
  | formatAlone =>
    generalize hword : [formatOption] = arguments at hothers
    cases hothers with
    | nil => cases hword
    | formatAlone => rfl
    | cons hwritten hcomplete _ =>
      exact absurd hword.symm (hwritten.ne_formatAlone hcomplete)
  | cons hwritten hcomplete _ ih =>
    generalize hsame : Piece.arguments _ ++ _ = arguments at hothers
    cases hothers with
    | nil => exact absurd hsame (Piece.arguments_ne_nil _ _)
    | formatAlone => exact absurd hsame (hwritten.ne_formatAlone hcomplete)
    | cons hwritten' hcomplete' hrest =>
      obtain ⟨rfl, rfl⟩ := hwritten.unique hwritten' hcomplete hcomplete' hsame
      rw [ih hrest]

/-- Complete pieces are what their arguments are cut into. -/
theorem splits_arguments (hpieces : ∀ piece ∈ pieces, piece.IsWritten ∧ piece ≠ .formatAlone) :
    Splits (pieces.flatMap Piece.arguments) pieces := by
  induction pieces with
  | nil => exact .nil
  | cons piece pieces ih =>
    obtain ⟨⟨hwritten, hcomplete⟩, hrest⟩ := List.forall_mem_cons.1 hpieces
    exact .cons hwritten hcomplete (ih hrest)

end Cutting

/-! ## Taking pieces -/

/-- Takes a piece. -/
def Progress.take (p : Progress) : Piece → Except ArgumentFault Progress
  | .flag .help _ => .ok { p with help := true }
  | .flag .version _ => .ok { p with version := true }
  | .flag .strict _ => .ok { p with strict := true }
  | .format value => .ok { p with format := some value }
  | .formatAlone => .error .formatMissing
  | .unknown word => .error (.unknownOption word)
  | .positional word => takePositional p word

section Taking

variable {arguments : List String} {pieces : List Piece} {p q : Progress}

theorem takeArgument_eq (p : Progress) (word : String) :
    takeArgument p word = p.take (.ofWord word) := by
  unfold takeArgument Piece.ofWord
  simp only [Flag.words, List.mem_cons, List.not_mem_nil, or_false]
  split_ifs <;> rfl

theorem takeArguments_cons {word : String} (hword : word ≠ formatOption) (p : Progress)
    (rest : List String) :
    takeArguments p (word :: rest) = (p.take (.ofWord word)).bind (takeArguments · rest) := by
  cases rest with
  | nil =>
    rw [takeArguments, if_neg hword, takeArgument_eq]
    cases p.take (.ofWord word) <;> rfl
  | cons value rest =>
    rw [takeArguments, if_neg hword, takeArgument_eq]
    cases p.take (.ofWord word) <;> rfl

/-- Arguments are taken piece by piece. -/
theorem takeArguments_eq (h : Splits arguments pieces) (p : Progress) :
    takeArguments p arguments = pieces.foldlM Progress.take p := by
  induction h generalizing p with
  | nil => rfl
  | formatAlone => rfl
  | cons hwritten hcomplete _ ih =>
    rw [List.foldlM_cons]
    rcases hwritten.format_or_word hcomplete with ⟨value, rfl⟩ | ⟨word, hword, rfl⟩
    · exact ih _
    · rw [Piece.arguments_ofWord, List.singleton_append, takeArguments_cons hword]
      exact congrArg _ (funext ih)

/-! ### The state behind some pieces -/

/-- The command that positionals choose.  An input that comes first chooses the default. -/
def chosen : List String → Option Command
  | [] => none
  | first :: rest => some (commandOf (first :: rest))

/-- A state with the positionals that have been taken. -/
def Progress.withPositionals (p : Progress) (words : List String) : Progress :=
  { p with
    command := chosen words
    inputNamed := (inputOf words).isSome
    file := (inputOf words).bind fileOf }

/-- The state behind acceptable pieces. -/
def progressOf (pieces : List Piece) : Progress :=
  Progress.withPositionals
    { Progress.start with
      strict := pieces.any (Piece.isFlag .strict)
      format := (formats pieces).getLast?
      help := pieces.any (Piece.isFlag .help)
      version := pieces.any (Piece.isFlag .version) }
    (positionals pieces)

theorem options_progressOf (pieces : List Piece) :
    (progressOf pieces).options = configuration pieces := by
  have hcommand : (chosen (positionals pieces)).getD .fmt = commandOf (positionals pieces) := by
    cases positionals pieces <;> rfl
  rw [Progress.options, configuration, ← hcommand]
  rfl

/-- Positionals that are acceptable with one more are so without it. -/
theorem AreAcceptable.of_append {words : List String} {word : String}
    (h : AreAcceptable (words ++ [word])) : AreAcceptable words := by
  match words, h with
  | [], _ => trivial
  | [_], _ => trivial
  | [_, _], h => exact h.elim
  | _ :: _ :: _ :: _, h => exact h.elim

theorem command?_eq (word : String) :
    command? word = if IsCommand word then some (commandOf [word]) else none := by
  unfold command? IsCommand commandOf
  split_ifs <;> simp_all

/-- One more positional is the command, if it comes first and names one, and otherwise the input, if
there is none yet. -/
theorem takePositional_eq_ok_iff {words : List String} {word : String} (h : AreAcceptable words) :
    takePositional (p.withPositionals words) word = .ok q ↔
      AreAcceptable (words ++ [word]) ∧ q = p.withPositionals (words ++ [word]) := by
  match words, h with
  | [], _ =>
    by_cases hword : IsCommand word
    · simp [takePositional, command?_eq, Progress.withPositionals, chosen, inputOf, hword,
        AreAcceptable, eq_comm]
    · have hcommand : commandOf [word] = .fmt := by
        have : word ≠ "check" := fun heq => hword (.inr heq)
        simp [commandOf, this]
      simp [takePositional, nameInput, command?_eq, Progress.withPositionals, chosen, inputOf, hword,
        hcommand, AreAcceptable, fileOf, eq_comm]
  | [first], _ =>
    by_cases hfirst : IsCommand first
    · simp [takePositional, nameInput, Progress.withPositionals, chosen, inputOf, hfirst,
        AreAcceptable, fileOf, commandOf, eq_comm]
    · simp [takePositional, nameInput, Progress.withPositionals, chosen, inputOf, hfirst,
        AreAcceptable]
  | [first, second], _ =>
    simp [takePositional, nameInput, Progress.withPositionals, chosen, inputOf, AreAcceptable]

theorem isAccepted_append {piece : Piece} :
    IsAccepted (pieces ++ [piece]) ↔
      IsAccepted pieces ∧ (piece.isOption = true ∨ piece.positional?.isSome = true) ∧
        AreAcceptable (positionals pieces ++ piece.positional?.toList) := by
  have hbefore : AreAcceptable (positionals pieces ++ piece.positional?.toList) →
      AreAcceptable (positionals pieces) := by
    cases piece.positional? with
    | none => simp
    | some word => exact AreAcceptable.of_append
  have hwords : positionals (pieces ++ [piece]) =
      positionals pieces ++ piece.positional?.toList := by
    simp
  rw [IsAccepted, IsAccepted, hwords, List.forall_mem_append, List.forall_mem_singleton]
  tauto

/-- One piece: it is taken if the pieces are acceptable with it. -/
theorem take_eq_ok_iff {piece : Piece} (h : IsAccepted pieces) :
    (progressOf pieces).take piece = .ok q ↔
      IsAccepted (pieces ++ [piece]) ∧ q = progressOf (pieces ++ [piece]) := by
  have hoption : piece.positional? = none → (IsAccepted (pieces ++ [piece]) ↔
      piece.isOption = true) := by
    intro hnone
    rw [isAccepted_append, hnone]
    simp [h, h.2]
  cases piece with
  | flag f word =>
    rw [hoption rfl]
    cases f <;> simp [Progress.take, progressOf, Progress.withPositionals, Piece.positional?,
      Piece.format?, Piece.isFlag, Piece.isOption, eq_comm]
  | format value =>
    rw [hoption rfl]
    simp [Progress.take, progressOf, Progress.withPositionals, Piece.positional?, Piece.format?,
      Piece.isFlag, Piece.isOption, eq_comm]
  | formatAlone =>
    rw [hoption rfl]
    simp [Progress.take, Piece.isOption]
  | unknown word =>
    rw [hoption rfl]
    simp [Progress.take, Piece.isOption]
  | positional word =>
    have hstate : progressOf (pieces ++ [.positional word]) =
        Progress.withPositionals (progressOf pieces) (positionals pieces ++ [word]) := by
      simp [progressOf, Progress.withPositionals, Piece.positional?, Piece.format?, Piece.isFlag]
    have htake : (progressOf pieces).take (.positional word) = .ok q ↔
        AreAcceptable (positionals pieces ++ [word]) ∧
          q = Progress.withPositionals (progressOf pieces) (positionals pieces ++ [word]) :=
      takePositional_eq_ok_iff (p := progressOf pieces) h.2
    rw [isAccepted_append, hstate, htake]
    simp [h, Piece.positional?]

/-- All pieces: the state behind them is told by their options and their positionals. -/
theorem foldlM_take_eq_ok_iff :
    pieces.foldlM Progress.take .start = .ok q ↔ IsAccepted pieces ∧ q = progressOf pieces := by
  induction pieces using List.reverseRecOn generalizing q with
  | nil =>
    have hnil : IsAccepted [] := ⟨List.forall_mem_nil _, trivial⟩
    have hstart : progressOf [] = .start := rfl
    simp [hnil, hstart, pure, Except.pure, eq_comm]
  | append_singleton pieces piece ih =>
    rw [List.foldlM_append]
    simp only [List.foldlM_cons, List.foldlM_nil, bind_pure]
    cases hrun : pieces.foldlM Progress.take .start with
    | ok before =>
      obtain ⟨haccepted, rfl⟩ := ih.1 hrun
      exact take_eq_ok_iff haccepted
    | error fault =>
      have hrefused : ¬IsAccepted (pieces ++ [piece]) := by
        intro haccepted
        have hok := ih.2 ⟨(isAccepted_append.1 haccepted).1, rfl⟩
        rw [hrun] at hok
        cases hok
      simp [hrefused, bind, Except.bind]

/-- Arguments are read if their pieces are acceptable, as what these ask for. -/
theorem readArguments_eq_ok_iff (h : Splits arguments pieces) {o : Options} :
    readArguments arguments = .ok o ↔ IsAccepted pieces ∧ o = configuration pieces := by
  rw [readArguments, takeArguments_eq h]
  cases hrun : pieces.foldlM Progress.take .start with
  | ok p =>
    obtain ⟨haccepted, rfl⟩ := foldlM_take_eq_ok_iff.1 hrun
    simp [Except.map, options_progressOf, haccepted, eq_comm]
  | error fault =>
    have hrefused : ¬IsAccepted pieces := by
      intro haccepted
      have hok := foldlM_take_eq_ok_iff.2 ⟨haccepted, rfl⟩
      rw [hrun] at hok
      cases hok
    simp [Except.map, hrefused]

end Taking

/-! ## Moving options -/

/-- An option, with its value if it has one, stands at another place.  A format is not moved past
another one. -/
inductive Moves : List Piece → List Piece → Prop where
  | later (before : List Piece) {piece : Piece} {between : List Piece} (after : List Piece)
      (option : piece.isOption = true)
      (formats : piece.format?.isSome = true → formats between = []) :
      Moves (before ++ piece :: (between ++ after)) (before ++ (between ++ piece :: after))
  | earlier (before : List Piece) {piece : Piece} {between : List Piece} (after : List Piece)
      (option : piece.isOption = true)
      (formats : piece.format?.isSome = true → formats between = []) :
      Moves (before ++ (between ++ piece :: after)) (before ++ piece :: (between ++ after))

namespace Moves

variable {pieces moved : List Piece}

theorem perm (h : Moves pieces moved) : pieces.Perm moved := by
  cases h with
  | later before after _ _ => exact List.Perm.append_left before List.perm_middle.symm
  | earlier before after _ _ => exact List.Perm.append_left before List.perm_middle

/-- An option is no positional. -/
theorem positionals_eq (h : Moves pieces moved) : positionals moved = positionals pieces := by
  have hnone : ∀ {piece : Piece}, piece.isOption = true → piece.positional? = none := by
    intro piece hoption
    cases piece <;> first | rfl | cases hoption
  cases h with
  | later before after hoption _ => simp [hnone hoption]
  | earlier before after hoption _ => simp [hnone hoption]

theorem formats_eq (h : Moves pieces moved) : formats moved = formats pieces := by
  have hpasses : ∀ {piece : Piece} {between : List Piece},
      (piece.format?.isSome = true → CommandLine.formats between = []) → ∀ after,
        CommandLine.formats (between ++ piece :: after) =
          CommandLine.formats (piece :: (between ++ after)) := by
    intro piece between hformats after
    cases hpiece : piece.format? with
    | none => simp [hpiece]
    | some value => simp [hpiece, hformats (by rw [hpiece]; rfl)]
  cases h with
  | later before after _ hformats =>
    rw [formats_append before, formats_append before, hpasses hformats]
  | earlier before after _ hformats =>
    rw [formats_append before, formats_append before, hpasses hformats]

theorem isAccepted (h : Moves pieces moved) (haccepted : IsAccepted pieces) : IsAccepted moved := by
  refine ⟨fun piece hpiece => haccepted.1 piece (h.perm.mem_iff.2 hpiece), ?_⟩
  rw [h.positionals_eq]
  exact haccepted.2

/-- It does not matter where an option stands. -/
theorem configuration_eq (h : Moves pieces moved) : configuration moved = configuration pieces := by
  have hflags : ∀ f, moved.any (Piece.isFlag f) = pieces.any (Piece.isFlag f) :=
    fun f => h.perm.any_eq.symm
  simp only [configuration, h.positionals_eq, h.formats_eq, hflags]

end Moves

/-! ## The result -/

/-- The pieces of acceptable arguments are written and complete. -/
theorem Splits.isWritten {arguments : List String} {pieces : List Piece}
    (h : Splits arguments pieces) (haccepted : IsAccepted pieces) :
    arguments = pieces.flatMap Piece.arguments ∧
      ∀ piece ∈ pieces, piece.IsWritten ∧ piece ≠ .formatAlone := by
  obtain ⟨hpieces, -⟩ := haccepted
  induction h with
  | nil => exact ⟨rfl, List.forall_mem_nil _⟩
  | formatAlone => simp [Piece.isOption, Piece.positional?] at hpieces
  | cons hwritten hcomplete _ ih =>
    obtain ⟨-, hrest⟩ := List.forall_mem_cons.1 hpieces
    obtain ⟨harguments, hpieces⟩ := ih hrest
    rw [List.flatMap_cons, ← harguments]
    exact ⟨rfl, List.forall_mem_cons.2 ⟨⟨hwritten, hcomplete⟩, hpieces⟩⟩

/-- Arguments are cut into options and positionals in one way.  They are read exactly if every piece
is a known option with its value or a positional, and the positionals are none, one, or a command and
one more; then the pieces tell what is asked for, and an option may stand anywhere. -/
theorem arguments_split (arguments : List String) :
    ∃ pieces, Splits arguments pieces ∧
      (∀ others, Splits arguments others → others = pieces) ∧
      (∀ o, readArguments arguments = .ok o ↔ IsAccepted pieces ∧ o = configuration pieces) ∧
      (IsAccepted pieces → ∀ moved, Moves pieces moved →
        Splits (moved.flatMap Piece.arguments) moved ∧
          readArguments (moved.flatMap Piece.arguments) = readArguments arguments) := by
  obtain ⟨pieces, hsplits⟩ := exists_splits arguments
  refine ⟨pieces, hsplits, fun others hothers => hsplits.unique hothers,
    fun o => readArguments_eq_ok_iff hsplits, fun haccepted moved hmoves => ?_⟩
  obtain ⟨-, hwritten⟩ := hsplits.isWritten haccepted
  have hmoved : Splits (moved.flatMap Piece.arguments) moved :=
    splits_arguments fun piece hpiece => hwritten piece (hmoves.perm.mem_iff.2 hpiece)
  have hread := (readArguments_eq_ok_iff hsplits).2 ⟨haccepted, rfl⟩
  have hread' := (readArguments_eq_ok_iff hmoved).2 ⟨hmoves.isAccepted haccepted, rfl⟩
  rw [hread, hread', hmoves.configuration_eq]
  exact ⟨hmoved, rfl⟩

/-- A format that looks like an option, a file that is named like a command, and an option between
them that is moved to the front. -/
theorem arguments_split_strict :
    Splits ["--format", "-V", "check", "--strict", "fmt"]
        [.format "-V", .positional "check", .flag .strict "--strict", .positional "fmt"] ∧
      IsAccepted [.format "-V", .positional "check", .flag .strict "--strict", .positional "fmt"] ∧
      readArguments ["--format", "-V", "check", "--strict", "fmt"] =
        .ok ⟨.check, some "fmt", true, some "-V", false, false⟩ ∧
      readArguments ["--strict", "--format", "-V", "check", "fmt"] =
        readArguments ["--format", "-V", "check", "--strict", "fmt"] := by
  have hwritten : ∀ piece ∈ [Piece.format "-V", .positional "check", .flag .strict "--strict",
      .positional "fmt"], piece.IsWritten ∧ piece ≠ .formatAlone := by
    have hformat : (Piece.format "-V").IsWritten := trivial
    have hcheck : (Piece.positional "check").IsWritten := show ¬IsHyphened "check" by decide
    have hstrict : (Piece.flag .strict "--strict").IsWritten :=
      show "--strict" ∈ Flag.strict.words by decide
    have hfmt : (Piece.positional "fmt").IsWritten := show ¬IsHyphened "fmt" by decide
    simp [hformat, hcheck, hstrict, hfmt]
  have hsplits := splits_arguments hwritten
  have haccepted : IsAccepted [.format "-V", .positional "check", .flag .strict "--strict",
      .positional "fmt"] := ⟨by decide, .inr rfl⟩
  have hoption : (Piece.flag .strict "--strict").isOption = true := rfl
  have hformats : (Piece.flag .strict "--strict").format?.isSome = true →
      formats [.format "-V", .positional "check"] = [] := by decide
  have hmoves := Moves.earlier [] [.positional "fmt"] hoption hformats
  obtain ⟨pieces, -, hunique, hread, hmoved⟩ :=
    arguments_split ["--format", "-V", "check", "--strict", "fmt"]
  obtain rfl := hunique _ hsplits
  exact ⟨hsplits, haccepted, (hread _).2 ⟨haccepted, rfl⟩, (hmoved haccepted _ hmoves).2⟩

end Edn.CommandLine
