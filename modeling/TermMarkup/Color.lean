/-
Named terminal colors and underline styles: their names, how a name is read, and the codes that
select them.
-/
import TermMarkup.Text.Blank
import TermMarkup.Text.Case

namespace TermMarkup

/-- A terminal color; `terminal` is the color the terminal uses by default. -/
inductive Color where
  | black
  | red
  | green
  | yellow
  | blue
  | magenta
  | cyan
  | white
  | gray
  | brightRed
  | brightGreen
  | brightYellow
  | brightBlue
  | brightMagenta
  | brightCyan
  | brightWhite
  | terminal
  deriving DecidableEq, Repr

/-- How text is underlined; `off` overrides an underline set elsewhere. -/
inductive Underline where
  | single
  | double
  | off
  deriving DecidableEq, Repr

namespace Color

def all : List Color :=
  [black, red, green, yellow, blue, magenta, cyan, white, gray, brightRed, brightGreen,
    brightYellow, brightBlue, brightMagenta, brightCyan, brightWhite, terminal]

def name : Color → String
  | black => "black"
  | red => "red"
  | green => "green"
  | yellow => "yellow"
  | blue => "blue"
  | magenta => "magenta"
  | cyan => "cyan"
  | white => "white"
  | gray => "gray"
  | brightRed => "brightred"
  | brightGreen => "brightgreen"
  | brightYellow => "brightyellow"
  | brightBlue => "brightblue"
  | brightMagenta => "brightmagenta"
  | brightCyan => "brightcyan"
  | brightWhite => "brightwhite"
  | terminal => "default"

/-- The code that selects the color for the text. -/
def fgCode : Color → Nat
  | black => 30
  | red => 31
  | green => 32
  | yellow => 33
  | blue => 34
  | magenta => 35
  | cyan => 36
  | white => 37
  | gray => 90
  | brightRed => 91
  | brightGreen => 92
  | brightYellow => 93
  | brightBlue => 94
  | brightMagenta => 95
  | brightCyan => 96
  | brightWhite => 97
  | terminal => 39

/-- The code that selects the color for the background. -/
def bgCode (c : Color) : Nat :=
  c.fgCode + 10

/-- The exact spellings a record accepts; gray has two. -/
def spellings : List (String × Color) :=
  all.flatMap fun c => if c = gray then [(c.name, c), ("grey", c)] else [(c.name, c)]

/-- Reads a color name, in any case and with blanks around it. -/
def ofName? (written : String) : Option Color :=
  spellings.lookup (Text.asciiLower (Text.trim written))

/-- What is said of a text that names no color. -/
def unknownMessage (written : String) : String :=
  "unknown color `" ++ written ++ "`"

end Color

namespace Underline

def name : Underline → String
  | single => "single"
  | double => "double"
  | off => "none"

/-- The code that switches the underline on. -/
def code? : Underline → Option Nat
  | single => some 4
  | double => some 21
  | off => none

/-- The exact spellings a record accepts. -/
def spellings : List (String × Underline) :=
  [("single", single), ("double", double), ("none", off), ("off", off)]

/-- Reads an underline style, in any case and with blanks around it; the truthy words mean a single
underline and the falsy words none. -/
def ofName? (written : String) : Option Underline :=
  match Text.asciiLower (Text.trim written) with
  | "single" | "true" | "yes" => some single
  | "double" => some double
  | "none" | "off" | "false" | "no" => some off
  | _ => none

/-- What is said of a text that names no underline style. -/
def unknownMessage (written : String) : String :=
  "unknown underline style `" ++ written ++ "`"

end Underline

end TermMarkup
