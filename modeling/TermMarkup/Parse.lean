/-
From a source to an untyped tree: tokens, the nesting guard, items, and their meaning, in this
order; the first fault of the earliest stage is the one reported.
-/
import TermMarkup.Item.Meaning
import TermMarkup.Item.Reader
import TermMarkup.Token.Lexer
import TermMarkup.Token.Nesting

namespace TermMarkup

/-- The untyped nodes of a source. -/
def parseNodes (source : String) : Except ParseError (List Raw) := do
  let lexemes ← Token.lex source
  Token.checkNesting lexemes
  let items ← Item.read source.utf8ByteSize lexemes
  Item.toRaws items

/-- The untyped document of a source. -/
def parse (source : String) : Except ParseError Raw :=
  (parseNodes source).map .array

end TermMarkup
