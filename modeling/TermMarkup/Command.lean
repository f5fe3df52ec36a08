/-
The command: reads a source, compiles it or dumps its tree, and writes the result to a file or to
the standard output. Nothing is written unless everything before the writing went well. How its
arguments and themes are read is left open: any reader of either will do.
-/
import TermMarkup.Command.Options
import TermMarkup.Document
import TermMarkup.Raw.Printer
import TermMarkup.Theme.File

namespace TermMarkup.Command

/-- Why the command fails. -/
inductive CommandError where
  | inputMissing (path : String)
  | inputUnreadable (path : String) (fault : FileFault)
  | standardInput (fault : FileFault)
  | markup (error : MarkupError)
  | theme (error : ThemeError)
  | emptyOutput
  | notWritten (path : String) (fault : FileFault)
  | notPrinted (fault : FileFault)

def CommandError.message : CommandError → String
  | inputMissing path => "input file `" ++ path ++ "` not found"
  | inputUnreadable path fault => "failed to read `" ++ path ++ "`: " ++ fault.message
  | standardInput fault => "failed to read standard input: " ++ fault.message
  | markup error => error.message
  | theme error => error.message
  | emptyOutput => "output is empty"
  | notWritten path fault => "failed to write `" ++ path ++ "`: " ++ fault.message
  | notPrinted fault => "failed to write output: " ++ fault.message

/-- What the command reads its arguments and its themes with. -/
structure Readers where
  request : List String → Except UsageFault Request := Request.ofArguments
  theme : String → Except Yaml.Failure Theme := Theme.ofYaml

/-- What the command leaves behind besides files: its exit code, and what it printed. -/
structure Outcome where
  exit : Nat := 0
  standardOutput : String := ""
  standardError : String := ""
  deriving DecidableEq, Repr

variable {m : Type → Type} [Monad m]

/-- The source: the markup argument, else the input file, else the standard input. -/
def readSource (files : FileSystem m) (o : Options) : m (Except CommandError String) := do
  match o.markup, o.input with
  | some markup, _ => return .ok markup
  | none, some path =>
    if ← files.isPresent path then
      return (← files.read path).mapError (.inputUnreadable path)
    else return .error (.inputMissing path)
  | none, none => return (← files.standardInput).mapError .standardInput

/-- The theme: that of the theme file, else the built-in one. -/
def readTheme (files : FileSystem m) (o : Options) (readers : Readers) :
    m (Except CommandError Theme) := do
  match o.theme with
  | some path => return (← Theme.ofFile files path readers.theme).mapError .theme
  | none => return .ok .builtin

/-- The tree of some nodes as text. -/
def dump (nodes : List Node) : String :=
  Raw.pretty 0 (.array (Node.toRaws nodes)) ++ "\n"

/-- The text that the command is to write. -/
def result (files : FileSystem m) (o : Options) (readers : Readers) :
    m (Except CommandError String) := do
  match ← readSource files o with
  | .error error => return .error error
  | .ok source =>
    match readNodes source with
    | .error error => return .error (.markup error)
    | .ok nodes =>
      if o.ast then return .ok (dump nodes)
      else
        match ← readTheme files o readers with
        | .error error => return .error error
        | .ok theme =>
          match ({ theme } : Compiler).render (o.format.getD .ansi) nodes with
          | .error diagnostic => return .error (.markup (.render diagnostic))
          | .ok rendering =>
            if rendering.output.isEmpty then return .error .emptyOutput
            else return .ok rendering.output

def failure (error : CommandError) : Outcome :=
  { exit := 1, standardError := "Error: " ++ error.message ++ "\n" }

/-- Writes a text to the output file, if there is one, or else to the standard output. -/
def deliver (files : FileSystem m) (o : Options) (text : String) : m Outcome := do
  match o.output with
  | none =>
    match ← files.print text with
    | .ok () => return { standardOutput := text }
    | .error fault => return failure (.notPrinted fault)
  | some path =>
    match ← files.write path text with
    | .ok () => return {}
    | .error fault => return failure (.notWritten path fault)

/-- Runs the command with the given options. -/
def run (files : FileSystem m) (o : Options) (readers : Readers) : m Outcome := do
  match ← result files o readers with
  | .error error => return failure error
  | .ok text => deliver files o text

def versionText : String := "ansie 0.1.0\n"

def helpText : String :=
  "Compile ansie markup to styled terminal output\n\n" ++
  "Usage: ansie [OPTIONS] [MARKUP]\n\n" ++
  "Arguments:\n" ++
  "  [MARKUP]  Markup to compile; read from --input or stdin when omitted\n\n" ++
  "Options:\n" ++
  "  -i, --input <FILE>     Read markup from FILE\n" ++
  "  -o, --output <FILE>    Write the result to FILE instead of stdout\n" ++
  "      --ast              Print the validated AST as JSON instead of compiling\n" ++
  "  -f, --format <format>  Output format [default: ansi] [possible values: ansi, markup]\n" ++
  "  -t, --theme <FILE>     YAML theme file; unset entries fall back to the built-in theme\n" ++
  "      --log <LEVEL>      Log filter, e.g. `debug` or `ansie=trace` [default: warn]\n" ++
  "  -h, --help             Print help\n" ++
  "  -V, --version          Print version\n"

/-- Prints what there is to know. It is no failure if that cannot be printed. -/
def inform (files : FileSystem m) (text : String) : m Outcome := do
  match ← files.print text with
  | .ok () => return { standardOutput := text }
  | .error _ => return {}

/-- Does what the arguments ask for. -/
def answer (files : FileSystem m) (arguments : List String) (readers : Readers := {}) :
    m Outcome := do
  match readers.request arguments with
  | .error fault =>
    return { exit := 2, standardError := "error: " ++ fault.message ++ "\n" }
  | .ok .version => inform files versionText
  | .ok .help => inform files helpText
  | .ok (.run options) => run files options readers

end TermMarkup.Command
