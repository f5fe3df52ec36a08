/-
Tokens of markup. A text run, a name and a quoted value carry their characters; a quoted value is
kept without its quotes and not yet decoded.
-/
import TermMarkup.Source
import TermMarkup.Text.Quoted

namespace TermMarkup

inductive Token where
  | tagOpen
  | closeOpen
  | text (value : String)
  | name (value : String)
  | equals
  | quoted (value : String)
  | tagEnd
  | selfClose
  deriving DecidableEq, Repr

/-- The token as messages show it. -/
def Token.display : Token → String
  | tagOpen => "`<`"
  | closeOpen => "`</`"
  | text _ => "text"
  | name value => "`" ++ value ++ "`"
  | equals => "`=`"
  | quoted value => Text.quote value
  | tagEnd => "`>`"
  | selfClose => "`/>`"

/-- A token and where it stands. -/
structure Lexeme where
  token : Token
  span : Span
  deriving DecidableEq, Repr

end TermMarkup
