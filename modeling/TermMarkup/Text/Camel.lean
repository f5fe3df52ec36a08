/-
Camel case. Dashes and underscores separate the words of a name; they are dropped, the first word
starts in lower case and each later word in upper case.
-/
import TermMarkup.Text.Case

namespace TermMarkup.Text

/-- Whether a character separates the words of a name. -/
def isWordBreak (c : Char) : Bool :=
  c == '-' || c == '_'

/-- The rest of a name: `started` when a character came before, `atWord` when the next character
starts a later word. -/
def camelChars (started atWord : Bool) : List Char → List Char
  | [] => []
  | c :: cs =>
    if isWordBreak c then camelChars started started cs
    else if !started then lower c ++ camelChars true false cs
    else if atWord then upper c ++ camelChars true false cs
    else c :: camelChars true false cs

/-- The name in camel case. -/
def camelCase (name : String) : String :=
  String.ofList (camelChars false false name.toList)

end TermMarkup.Text
