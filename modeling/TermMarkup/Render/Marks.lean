/-
The marks around the content of a node: what the renderer of a kind writes before it and after it.
A renderer may be handed a node of another kind; those that look into the node refuse it.
-/
import TermMarkup.Emoji
import TermMarkup.Render.Diagnostic
import TermMarkup.Sgr
import TermMarkup.Tag
import TermMarkup.Theme

namespace TermMarkup.Render

/-- What a renderer needs to know besides the node. -/
structure Context where
  format : Format
  theme : Theme

def newlines (n : Count) : String := String.ofList (List.replicate n '\n')

def spaces (n : Count) : String := String.ofList (List.replicate n ' ')

/-! ## Styled nodes -/

/-- The style a node is shown in: its own over that of the theme. -/
def effective (theme : Theme) (kind : StyledKind) (own : Style) : Style :=
  (theme.resolve (.styled kind)).merge own

/-- What a list item writes before its content. -/
def bullet (l : Listing) : String :=
  spaces (l.indent.getD Count.zero) ++ l.bullet.getD ""

def ansiBefore (kind : StyledKind) (style : Style) : String :=
  (if kind.isBlock then "\n" else "") ++ newlines style.spacing.margins.top ++
    Sgr.sequence (Sgr.fontOn style.font) ++ spaces style.spacing.margins.left ++
    (if kind = .listItem then bullet style.list else "")

def ansiAfter (style : Style) : String :=
  spaces style.spacing.margins.right ++ Sgr.sequence (Sgr.fontOff style.font) ++
    newlines style.spacing.margins.bottom

/-! ## Colors -/

/-- The color that the nearest enclosing color element sets on a channel. -/
def enclosing (channel : Option Color → Option Color → Option Color) (above : List Node) :
    Option Color :=
  above.findSome? fun
    | .element (.color fg bg) _ => channel fg bg
    | _ => none

def colorOn (fg bg : Option Color) : List Nat :=
  (fg.map Color.fgCode).toList ++ (bg.map Color.bgCode).toList

/-- The codes that give each channel the element set back to the color around it. -/
def colorOff (fg bg : Option Color) (above : List Node) : List Nat :=
  (if fg.isSome then [((enclosing (fun fg _ => fg) above).map Color.fgCode).getD Sgr.fgDefault]
    else []) ++
  (if bg.isSome then [((enclosing (fun _ bg => bg) above).map Color.bgCode).getD Sgr.bgDefault]
    else [])

/-! ## Renderers -/

/-- What the renderer of a kind writes before the content of a node. -/
def before (context : Context) (renderer : Kind) (node : Node) : Except RenderFault String :=
  match renderer, context.format, node with
  | .text, .ansi, .text value => .ok (Emoji.substitute value)
  | .text, .markup, .text value => .ok (Entity.escapeText value)
  | .lineBreak, .ansi, _ => .ok "\n"
  | .lineBreak, .markup, _ => .ok (Tag.selfClosing "br" [])
  | .bold, .ansi, _ => .ok (Sgr.sequence [Sgr.bold])
  | .italics, .ansi, _ => .ok (Sgr.sequence [Sgr.italics])
  | .bold, .markup, _ | .italics, .markup, _ => .ok (Tag.opening renderer.tag [])
  | .underline, .ansi, .element (.underline style) _ =>
    match style.code? with
    | some code => .ok (Sgr.sequence [code])
    | none => .error (.bareUnderline style)
  | .underline, .markup, .element (.underline style) _ =>
    .ok (Tag.opening "underline" (Element.underline style).attributes)
  | .color, .ansi, .element (.color fg bg) _ =>
    match colorOn fg bg with
    | [] => .error .bareColor
    | codes => .ok (Sgr.sequence codes)
  | .color, .markup, .element (.color fg bg) _ =>
    .ok (Tag.opening "color" (Element.color fg bg).attributes)
  | .styled kind, .ansi, .element (.styled _ own) _ =>
    .ok (ansiBefore kind (effective context.theme kind own))
  | .styled kind, .markup, .element (.styled _ own) _ => .ok (Tag.opening kind.tag own.attributes)
  | _, _, _ => .error (.wrongRenderer renderer)

/-- What the renderer of a kind writes after the content of a node that stands in the nodes
`above`, innermost first. -/
def after (context : Context) (renderer : Kind) (above : List Node) (node : Node) :
    Except RenderFault String :=
  match renderer, context.format, node with
  | .text, _, _ | .lineBreak, _, _ => .ok ""
  | .bold, .ansi, _ => .ok (Sgr.sequence [Sgr.boldOff])
  | .italics, .ansi, _ => .ok (Sgr.sequence [Sgr.italicsOff])
  | .bold, .markup, _ | .italics, .markup, _ => .ok (Tag.closing renderer.tag)
  | .underline, .ansi, .element (.underline style) _ =>
    .ok (if style.code?.isSome then Sgr.sequence [Sgr.underlineOff] else "")
  | .underline, .markup, .element (.underline _) _ => .ok (Tag.closing "underline")
  | .color, .ansi, .element (.color fg bg) _ => .ok (Sgr.sequence (colorOff fg bg above))
  | .color, .markup, .element (.color _ _) _ => .ok (Tag.closing "color")
  | .styled kind, .ansi, .element (.styled _ own) _ =>
    .ok (ansiAfter (effective context.theme kind own))
  | .styled kind, .markup, .element (.styled _ _) _ => .ok (Tag.closing kind.tag)
  | _, _, _ => .error (.wrongRenderer renderer)

end TermMarkup.Render
