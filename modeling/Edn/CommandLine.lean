import Edn.Output.Format
import Edn.Reading.Reader

/-!
# The command line

`fmt` prints the canonical text of its input, and `check` only reads it.

* `readArguments` reads the arguments from left to right.
* `Options.report` says what is printed for an input.
* `run` puts both together.  It asks for its input once, and only if it needs
  it, so that the program and a test can supply it in their own ways.
-/

namespace Edn.CommandLine

/-! ## Arguments -/

/-- What to do with the input. -/
inductive Command where
  | fmt
  | check
deriving DecidableEq, Repr

/-- The reasons why arguments are refused. -/
inductive ArgumentFault where
  | formatMissing
  | unknownOption (argument : String)
  | unexpected (argument : String)
deriving DecidableEq, Repr

/-- The wording of a fault. -/
def ArgumentFault.message : ArgumentFault → String
  | .formatMissing => "--format requires a value"
  | .unknownOption argument => "unknown option: " ++ argument
  | .unexpected argument => "unexpected argument: " ++ argument

/-- What the arguments ask for.  No file means the standard input. -/
structure Options where
  command : Command
  file : Option String
  strict : Bool
  format : Option String
  help : Bool
  version : Bool
deriving DecidableEq, Repr

/-- The state between two arguments: a command is not chosen before it is named or an input is. -/
structure Progress where
  command : Option Command
  inputNamed : Bool
  file : Option String
  strict : Bool
  format : Option String
  help : Bool
  version : Bool
deriving DecidableEq, Repr

/-- The state before the first argument. -/
def Progress.start : Progress :=
  ⟨none, false, none, false, none, false, false⟩

/-- The options at the end of the arguments. -/
def Progress.options (p : Progress) : Options :=
  ⟨p.command.getD .fmt, p.file, p.strict, p.format, p.help, p.version⟩

/-- The command of a given name. -/
def command? (argument : String) : Option Command :=
  if argument = "fmt" then some .fmt
  else if argument = "check" then some .check
  else none

/-- Takes an argument as the input; a lone hyphen is the standard input. -/
def nameInput (p : Progress) (argument : String) : Except ArgumentFault Progress :=
  if p.inputNamed then .error (.unexpected argument)
  else
    .ok { p with
      command := some (p.command.getD .fmt)
      inputNamed := true
      file := if argument = "-" then none else some argument }

/-- Takes an argument that is no option: the command, if none is chosen yet and it is the name of
one, otherwise the input. -/
def takePositional (p : Progress) (argument : String) : Except ArgumentFault Progress :=
  match p.command, command? argument with
  | none, some command => .ok { p with command := some command }
  | _, _ => nameInput p argument

/-- Takes an argument that has no value of its own. -/
def takeArgument (p : Progress) (argument : String) : Except ArgumentFault Progress :=
  if argument = "-h" ∨ argument = "--help" then .ok { p with help := true }
  else if argument = "-V" ∨ argument = "--version" then .ok { p with version := true }
  else if argument = "--strict" then .ok { p with strict := true }
  else if argument.toList.head? = some '-' ∧ argument ≠ "-" then .error (.unknownOption argument)
  else takePositional p argument

/-- The option that takes the next argument as its value. -/
def formatOption : String :=
  "--format"

/-- Takes arguments from left to right. -/
def takeArguments (p : Progress) : List String → Except ArgumentFault Progress
  | [] => .ok p
  | [argument] => if argument = formatOption then .error .formatMissing else takeArgument p argument
  | argument :: value :: rest =>
    if argument = formatOption then takeArguments { p with format := some value } rest
    else
      match takeArgument p argument with
      | .error fault => .error fault
      | .ok p => takeArguments p (value :: rest)

/-- Reads the arguments after the name of the program. -/
def readArguments (arguments : List String) : Except ArgumentFault Options :=
  (takeArguments .start arguments).map Progress.options

/-! ## Input and output -/

/-- The text of an input, or the reason why it cannot be read. -/
abbrev Input : Type :=
  Except String String

/-- The input that consists of given bytes, which have to be UTF-8. -/
def Input.ofBytes (bytes : ByteArray) : Input :=
  match String.fromUTF8? bytes with
  | some text => .ok text
  | none => .error "stream did not contain valid UTF-8"

/-- The input of a file that does not exist. -/
def Input.missing : Input :=
  .error "No such file or directory (os error 2)"

/-- What a run leaves behind: the exit code and the texts on the two output streams. -/
structure Report where
  code : UInt32
  output : String
  errors : String
deriving DecidableEq, Repr

/-- The report of a run that succeeded. -/
def Report.success (output : String) : Report :=
  ⟨0, output, ""⟩

/-- The report of a run that failed. -/
def Report.failure (message : String) : Report :=
  ⟨1, "", "error: " ++ message ++ "\n"⟩

/-- The report of a run that stops, without the account that the runtime gives of it. -/
def Report.stopped : Report :=
  ⟨101, "", ""⟩

/-- Short words for texts that are no timestamps and no UUIDs, in place of those of their parsers. -/
def wordings : Wordings
  | .timestamp _ => "malformed timestamp"
  | .uuid _ => "malformed uuid"

/-- The help text. -/
def helpText : String :=
  "evaedn - Reader and writer for the eva notation

USAGE:
    evaedn [COMMAND] [OPTIONS] [FILE]

COMMANDS:
    fmt      Parse the input and print its canonical form (default)
    check    Parse the input and report errors only

ARGUMENTS:
    [FILE]   File to read; stdin when omitted or '-'

OPTIONS:
    -h, --help          Print help information
    -V, --version       Print version information
    --strict            Apply the strict reader limits
    --format MIME       Output format for fmt (default " ++ Format.edn.text ++ ")

ENVIRONMENT:
    RUST_LOG            Log filter, e.g. RUST_LOG=evaedn_reader=trace

EXAMPLES:
    evaedn data.edn
    evaedn fmt --format application/vnd.eva+edn data.edn
    echo '\x7b:a 1\x7d' | evaedn check
"

/-- The version text. -/
def versionText : String :=
  "evaedn 0.1.0\n"

namespace Options

/-- The reader that the options ask for. -/
def reader (o : Options) : Reader :=
  ⟨.standard, if o.strict then .strict else .standard⟩

/-- What is printed for an element. -/
def written (o : Options) (value : Element) : Except Failure String :=
  match o.command with
  | .check => .ok ""
  | .fmt => (value.serialize .standard (o.format.getD Format.edn.text)).map (· ++ "\n")

/-- The report for the text of an input. -/
def reportText (o : Options) (words : Wordings) (text : String) : Report :=
  match (o.reader.parse text).mapError .error >>= o.written with
  | .ok output => .success output
  | .error (.error error) => .failure (error.message words)
  | .error .stop => .stopped

/-- The report for an input.  A file that cannot be read is named. -/
def report (o : Options) (words : Wordings) : Input → Report
  | .ok text => o.reportText words text
  | .error reason =>
    match o.file with
    | some path => .failure ("cannot read " ++ path ++ ": " ++ reason)
    | none => .failure reason

end Options

/-- Runs the command line.  `input` supplies the text of a file, or of the standard input. -/
def run {m : Type → Type} [Monad m] (words : Wordings) (arguments : List String)
    (input : Option String → m Input) : m Report :=
  match readArguments arguments with
  | .error fault => pure (.failure fault.message)
  | .ok options =>
    if options.help then pure (.success helpText)
    else if options.version then pure (.success versionText)
    else options.report words <$> input options.file

end Edn.CommandLine
