/-
Drafts: documents composed in code. A draft knows the settings laid over its theme and, where one
was given, the theme itself. Styled drafts write out the whole style they render with, so the markup
of a draft needs no theme. Two kinds of group leave no trace but their children: bundles and
underlines of type none.
-/
import TermMarkup.Document

namespace TermMarkup

/-- What a group of drafts is. -/
inductive Draft.Group where
  | bundle
  | bold
  | italics
  | underline
  | color
  | styled (kind : StyledKind)
  deriving DecidableEq, Repr

/-- How a draft looks: settings over its theme, and the theme if it has one. -/
structure Draft.Look where
  overrides : Style := {}
  theme : Option Theme := none
  deriving DecidableEq, Repr

inductive Draft where
  | text (value : String) (look : Draft.Look)
  | lineBreak (look : Draft.Look)
  | group (group : Draft.Group) (look : Draft.Look) (children : List Draft)
  deriving Repr

namespace Draft

/-- The kind of node a group stands for; a bundle stands for none. -/
def Group.kind? : Group → Option Kind
  | bundle => none
  | bold => some .bold
  | italics => some .italics
  | underline => some .underline
  | color => some .color
  | styled kind => some (.styled kind)

/-- The group that stands for nodes of a kind with content. -/
def Group.ofKind? : Kind → Option Group
  | .text | .lineBreak => none
  | .bold => some bold
  | .italics => some italics
  | .underline => some underline
  | .color => some color
  | .styled kind => some (styled kind)

def kind? : Draft → Option Kind
  | text _ _ => some .text
  | lineBreak _ => some .lineBreak
  | group g _ _ => g.kind?

def look : Draft → Look
  | text _ look | lineBreak look | group _ look _ => look

def children : Draft → List Draft
  | group _ _ children => children
  | _ => []

def value? : Draft → Option String
  | text value _ => some value
  | _ => none

/-- The draft with its own look changed. -/
def mapLook (f : Look → Look) : Draft → Draft
  | text value look => text value (f look)
  | lineBreak look => lineBreak (f look)
  | group g look children => group g (f look) children

/-! ## Modifiers -/

/-- The draft with a style layered over its settings. -/
def withStyle (style : Style) : Draft → Draft :=
  mapLook fun look => { look with overrides := look.overrides.merge style }

def withFg (color : Color) : Draft → Draft :=
  mapLook fun look =>
    { look with overrides.font.fg := some color }

def withBg (color : Color) : Draft → Draft :=
  mapLook fun look =>
    { look with overrides.font.bg := some color }

mutual

/-- The draft with a theme for itself and for all below that have none. -/
def withTheme (theme : Theme) : Draft → Draft
  | .text value look => .text value { look with theme := some theme }
  | .lineBreak look => .lineBreak { look with theme := some theme }
  | .group g look children =>
    .group g { look with theme := some theme } (inheritThemes theme children)

def inheritThemes (theme : Theme) : List Draft → List Draft
  | [] => []
  | draft :: drafts =>
    (if draft.look.theme.isSome then draft else withTheme theme draft) ::
      inheritThemes theme drafts

end

/-! ## Builders -/

def ofText (value : String) : Draft := text value {}

def newline : Draft := lineBreak {}

def bundleOf (children : List Draft) : Draft := group .bundle {} children

def underlined (style : Underline) (children : List Draft) : Draft :=
  (group .underline {} children).withStyle { font := { underline := some style } }

/-- A list: each item stands in a `li` of the given style and that in a `div` without margins. -/
def listOf (style : Style) (items : List Draft) : Draft :=
  bundleOf (items.map fun item =>
    (group (.styled .div) {} [(group (.styled .listItem) {} [item]).withStyle style]).withStyle
      { spacing := .uniform Count.zero })

/-! ## What a draft writes -/

/-- The style a styled draft renders with: its settings over those of its theme. Only list items
keep the list section. -/
def styledLook (kind : StyledKind) (look : Look) : Style :=
  let style := ((look.theme.getD .builtin).resolve (.styled kind)).merge look.overrides
  if kind = .listItem then style else { style with list := {} }

/-- The style of a draft: of a bundle none, of a styled draft the one it renders with, of any other
its bare settings. -/
def effectiveStyle : Draft → Style
  | group .bundle _ _ => {}
  | group (.styled kind) look _ => styledLook kind look
  | draft => draft.look.overrides

/-- The element a group writes; none where only its children show. -/
def element? (look : Look) : Group → Option Element
  | .bundle => none
  | .bold => some .bold
  | .italics => some .italics
  | .underline =>
    match look.overrides.font.underline with
    | some .off => none
    | some style => some (.underline style)
    | none => some (.underline .single)
  | .color => some (.color look.overrides.font.fg look.overrides.font.bg)
  | .styled kind => some (.styled kind (styledLook kind look))

mutual

/-- The markup of a draft. -/
def toMarkup : Draft → String
  | .text value _ => Entity.escapeText value
  | .lineBreak _ => Tag.selfClosing Kind.lineBreak.tag []
  | .group g look children =>
    match element? look g with
    | none => allMarkup children
    | some e => Tag.opening e.kind.tag e.attributes ++ allMarkup children ++ Tag.closing e.kind.tag

def allMarkup : List Draft → String
  | [] => ""
  | draft :: drafts => toMarkup draft ++ allMarkup drafts

end

mutual

/-- The nodes a draft stands for, text not yet joined with its neighbours. -/
def pieces : Draft → List Node
  | .text value _ => [.text value]
  | .lineBreak _ => [.lineBreak]
  | .group g look children =>
    match element? look g with
    | none => allPieces children
    | some e => [.element e (.ofChildren (Node.joinText (allPieces children)))]

def allPieces : List Draft → List Node
  | [] => []
  | draft :: drafts => pieces draft ++ allPieces drafts

end

/-- The typed nodes of a draft, as its markup reads. -/
def toNodes (draft : Draft) : List Node :=
  Node.joinText draft.pieces

/-- The output of a draft. Themes are in its nodes already. -/
def compile (format : Format) (draft : Draft) : Except Diagnostic String :=
  (({} : Compiler).render format draft.toNodes).map (·.output)

end Draft

end TermMarkup
