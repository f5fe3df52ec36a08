/-
The arguments of the command. An option that takes a value takes the rest of its word or the next
word; the next word may start with a dash only if it is a dash and nothing else. Two dashes end the
options. Arguments count in order: a request for the version or the help is answered as soon as it
is met, if nothing before it is wrong.
-/
import TermMarkup.Render.Diagnostic

namespace TermMarkup.Command

/-- The options that take a value. -/
inductive Key where
  | input
  | output
  | format
  | theme
  | log
  deriving DecidableEq, Repr

/-- What the command is asked to do. -/
structure Options where
  markup : Option String := none
  input : Option String := none
  output : Option String := none
  theme : Option String := none
  format : Option Format := none
  log : Option String := none
  ast : Bool := false
  deriving DecidableEq, Repr

inductive Request where
  | run (options : Options)
  | version
  | help
  deriving DecidableEq, Repr

/-- Why the arguments make no request. -/
inductive UsageFault where
  | unknown (argument : String)
  | repeated (option : String)
  | missingValue (option : String)
  | unneededValue (option value : String)
  | invalidValue (option value : String)
  | conflict
  deriving DecidableEq, Repr

namespace Key

def long : Key → String
  | input => "input"
  | output => "output"
  | format => "format"
  | theme => "theme"
  | log => "log"

def short? : Key → Option Char
  | input => some 'i'
  | output => some 'o'
  | format => some 'f'
  | theme => some 't'
  | log => none

def all : List Key := [input, output, format, theme, log]

def valueName : Key → String
  | format => "format"
  | log => "LEVEL"
  | _ => "FILE"

/-- The option as messages show it. -/
def shown (key : Key) : String :=
  "--" ++ key.long ++ " <" ++ key.valueName ++ ">"

end Key

def UsageFault.message : UsageFault → String
  | unknown argument => "unexpected argument '" ++ argument ++ "' found"
  | repeated option => "the argument '" ++ option ++ "' cannot be used multiple times"
  | missingValue option =>
    "a value is required for '" ++ option ++ "' but none was supplied"
  | unneededValue option value =>
    "unexpected value '" ++ value ++ "' for '" ++ option ++ "' found; no more were expected"
  | invalidValue option value => "invalid value '" ++ value ++ "' for '" ++ option ++ "'"
  | conflict => "the argument '[MARKUP]' cannot be used with '--input <FILE>'"

namespace Options

/-- Whether an option was given. -/
def has (o : Options) : Key → Bool
  | .input => o.input.isSome
  | .output => o.output.isSome
  | .format => o.format.isSome
  | .theme => o.theme.isSome
  | .log => o.log.isSome

/-- The options with one more value. A path is not empty, and a format has its exact name. -/
def set (o : Options) (key : Key) (value : String) : Except UsageFault Options :=
  let invalid : Except UsageFault Options := .error (.invalidValue key.shown value)
  if o.has key then .error (.repeated key.shown)
  else
    match key with
    | .input => if value.isEmpty then invalid else .ok { o with input := some value }
    | .output => if value.isEmpty then invalid else .ok { o with output := some value }
    | .theme => if value.isEmpty then invalid else .ok { o with theme := some value }
    | .log => .ok { o with log := some value }
    | .format =>
      match [Format.ansi, Format.markup].find? (·.name == value) with
      | some format => .ok { o with format := some format }
      | none => invalid

def setAst (o : Options) : Except UsageFault Options :=
  if o.ast then .error (.repeated "--ast") else .ok { o with ast := true }

/-- The options with one more argument that is not an option. -/
def addMarkup (o : Options) (argument : String) : Except UsageFault Options :=
  if o.markup.isSome then .error (.unknown argument) else .ok { o with markup := some argument }

/-- The options, once all arguments are read. -/
def check (o : Options) : Except UsageFault Request :=
  if o.markup.isSome && o.input.isSome then .error .conflict else .ok (.run o)

end Options

/-- What a word is. -/
inductive Word where
  | dashes
  | long (name : String) (value : Option String)
  | short (letter : Char) (rest : List Char)
  | plain
  deriving DecidableEq, Repr

def Word.ofArgument (argument : String) : Word :=
  match argument.toList with
  | ['-', '-'] => .dashes
  | '-' :: '-' :: cs =>
    let name := cs.takeWhile (· != '=')
    match cs.dropWhile (· != '=') with
    | '=' :: value => .long (String.ofList name) (some (String.ofList value))
    | _ => .long (String.ofList name) none
  | '-' :: letter :: rest => .short letter rest
  | _ => .plain

/-- The value written behind a letter, with or without an equals sign. -/
def attachedValue : List Char → String
  | '=' :: value => String.ofList value
  | value => String.ofList value

/-- What one word makes of the options: the options, and the option whose value must follow, or a
request that is answered at once. -/
inductive Step where
  | next (options : Options)
  | awaiting (options : Options) (key : Key)
  | done (request : Request)
  deriving DecidableEq, Repr

def stepLong (o : Options) (argument name : String) (value : Option String) :
    Except UsageFault Step :=
  let flag (step : Except UsageFault Step) : Except UsageFault Step :=
    match value with
    | some value => .error (.unneededValue ("--" ++ name) value)
    | none => step
  match Key.all.find? (·.long == name) with
  | some key =>
    match value with
    | some value => (o.set key value).map .next
    | none => .ok (.awaiting o key)
  | none =>
    match name with
    | "ast" => flag (o.setAst.map .next)
    | "version" => flag (.ok (.done .version))
    | "help" => flag (.ok (.done .help))
    | _ => .error (.unknown argument)

def stepShort (o : Options) (letter : Char) (rest : List Char) : Except UsageFault Step :=
  match Key.all.find? (·.short? == some letter) with
  | some key =>
    if rest.isEmpty then .ok (.awaiting o key) else (o.set key (attachedValue rest)).map .next
  | none =>
    if letter == 'V' then .ok (.done .version)
    else if letter == 'h' then .ok (.done .help)
    else .error (.unknown (String.ofList ['-', letter]))

/-- Reads arguments after two dashes. -/
def readPlain (o : Options) : List String → Except UsageFault Request
  | [] => o.check
  | argument :: others => do readPlain (← o.addMarkup argument) others

/-- Reads arguments. -/
def readArguments (o : Options) : List String → Except UsageFault Request
  | [] => o.check
  | argument :: others =>
    let step := match Word.ofArgument argument with
      | .dashes => none
      | .long name value => some (stepLong o argument name value)
      | .short letter rest => some (stepShort o letter rest)
      | .plain => some ((o.addMarkup argument).map .next)
    match step with
    | none => readPlain o others
    | some (.error fault) => .error fault
    | some (.ok (.done request)) => .ok request
    | some (.ok (.next o)) => readArguments o others
    | some (.ok (.awaiting o key)) =>
      match others with
      | [] => .error (.missingValue key.shown)
      | value :: others =>
        match Word.ofArgument value with
        | .plain => do readArguments (← o.set key value) others
        | _ => .error (.missingValue key.shown)

/-- The request that some arguments make. -/
def Request.ofArguments (arguments : List String) : Except UsageFault Request :=
  readArguments {} arguments

end TermMarkup.Command
