/-
What can go wrong while nodes are rendered. A fatal fault ends the rendering; any other is a
warning, and the part it is about renders as nothing.
-/
import TermMarkup.Node

namespace TermMarkup

/-- The output formats. -/
inductive Format where
  | ansi
  | markup
  deriving DecidableEq, Repr

namespace Format

def name : Format → String
  | ansi => "ansi"
  | markup => "markup"

/-- Reads the name of a format, in any case. -/
def ofName? (written : String) : Option Format :=
  match Text.asciiLower written with
  | "ansi" => some ansi
  | "markup" => some markup
  | _ => none

/-- What is said of a text that names no format. -/
def unknownMessage (written : String) : String :=
  "unknown format `" ++ written ++ "` (expected ansi or markup)"

end Format

/-- Why a node does not render. -/
inductive RenderFault where
  /-- No renderer takes nodes of the kind. -/
  | noRenderer
  /-- The node lies too deep. -/
  | tooDeep
  /-- The node was given to the renderer of another kind. -/
  | wrongRenderer (renderer : Kind)
  /-- A color element without a color. -/
  | bareColor
  /-- An underline element without an underline. -/
  | bareUnderline (style : Underline)
  deriving DecidableEq, Repr

namespace RenderFault

def isFatal : RenderFault → Bool
  | noRenderer | tooDeep | wrongRenderer _ => true
  | bareColor | bareUnderline _ => false

/-- What is said of a fault at a node of the given kind. -/
def message (kind : Kind) : RenderFault → String
  | noRenderer => "no handler registered for `" ++ kind.tag ++ "`"
  | tooDeep => "nesting too deep (more than " ++ Nat.repr maxNesting ++ " levels)"
  | wrongRenderer renderer =>
    "handler `" ++ renderer.tag ++ "` cannot render `" ++ kind.tag ++ "`"
  | bareColor => "color node sets neither fg nor bg"
  | bareUnderline style => "underline type `" ++ style.name ++ "` renders nothing"

end RenderFault

/-- A fault, the node it is about, and the kinds of the open nodes, outermost first. -/
structure Diagnostic where
  fault : RenderFault
  node : Node
  stack : List Kind

namespace Diagnostic

def text (d : Diagnostic) : String :=
  d.fault.message d.node.kind

def message (d : Diagnostic) : String :=
  let place := match d.stack with
    | [] => "document root"
    | stack => String.intercalate " > " (stack.map Kind.tag)
  d.text ++ " (at `" ++ d.node.kind.tag ++ "` in " ++ place ++ ")"

end Diagnostic

end TermMarkup
