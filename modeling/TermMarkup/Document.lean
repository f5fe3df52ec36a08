/-
From a source to nodes and to output, in one call each.
-/
import TermMarkup.Node.Check
import TermMarkup.Parse
import TermMarkup.Render

namespace TermMarkup

/-- Why a source does not compile. -/
inductive MarkupError where
  | parse (error : ParseError) (source : String)
  | check (issues : List Issue)
  | render (diagnostic : Diagnostic)

def MarkupError.message : MarkupError → String
  | parse error source => error.message source
  | check issues => Issue.summary issues
  | render diagnostic => diagnostic.message

/-- The typed nodes of a source. -/
def readNodes (source : String) : Except MarkupError (List Node) :=
  match parse source with
  | .error error => .error (.parse error source)
  | .ok raw =>
    match Node.ofRaw raw with
    | .error issues => .error (.check issues)
    | .ok nodes => .ok nodes

/-- The output of a source under a theme. -/
def compile (theme : Theme) (format : Format) (source : String) :
    Except MarkupError String := do
  let nodes ← readNodes source
  match ({ theme } : Compiler).render format nodes with
  | .ok rendering => return rendering.output
  | .error diagnostic => throw (.render diagnostic)

end TermMarkup
