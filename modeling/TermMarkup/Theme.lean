/-
Themes: a style for each styled kind and for line breaks. What a node of a kind starts from is the
theme's entry layered over the built-in one.
-/
import TermMarkup.Kind
import TermMarkup.Style

namespace TermMarkup

structure Theme where
  h1 : Style := {}
  h2 : Style := {}
  h3 : Style := {}
  body : Style := {}
  p : Style := {}
  div : Style := {}
  span : Style := {}
  li : Style := {}
  br : Style := {}
  deriving DecidableEq, Repr

namespace Theme

/-- The theme without entries. -/
def empty : Theme := {}

/-- The built-in theme. -/
def builtin : Theme :=
  let top : Spacing := { top := some Count.one }
  { h1 := { font := { fg := some .blue, bold := some true, underline := some .double },
            spacing := top }
    h2 := { font := { fg := some .terminal, bold := some true, underline := some .single },
            spacing := top }
    h3 := { font := { fg := some .gray, bold := some true }, spacing := top }
    p := { spacing := top }
    div := { spacing := top }
    li := { spacing := top, list := { bullet := some "* ", indent := some Count.one } } }

/-- The entry of a styled kind. -/
def styled (t : Theme) : StyledKind → Style
  | .h1 => t.h1
  | .h2 => t.h2
  | .h3 => t.h3
  | .body => t.body
  | .paragraph => t.p
  | .span => t.span
  | .div => t.div
  | .listItem => t.li

/-- The entry of a kind, if the kind has one. -/
def entry? (t : Theme) : Kind → Option Style
  | .styled kind => some (t.styled kind)
  | .lineBreak => some t.br
  | _ => none

/-- The theme with another entry for a kind; a kind without an entry leaves it as it is. -/
def withStyle (t : Theme) (kind : Kind) (style : Style) : Theme :=
  match kind with
  | .styled .h1 => { t with h1 := style }
  | .styled .h2 => { t with h2 := style }
  | .styled .h3 => { t with h3 := style }
  | .styled .body => { t with body := style }
  | .styled .paragraph => { t with p := style }
  | .styled .span => { t with span := style }
  | .styled .div => { t with div := style }
  | .styled .listItem => { t with li := style }
  | .lineBreak => { t with br := style }
  | _ => t

/-- The entry of a kind layered over the built-in one. -/
def resolve (t : Theme) (kind : Kind) : Style :=
  match builtin.entry? kind, t.entry? kind with
  | some base, some upper => base.merge upper
  | _, _ => {}

/-- The names of the entries, in the order in which a record lists them. -/
def entries (t : Theme) : List (String × Style) :=
  [("h1", t.h1), ("h2", t.h2), ("h3", t.h3), ("body", t.body), ("p", t.p), ("div", t.div),
    ("span", t.span), ("li", t.li), ("br", t.br)]

/-- The theme as a record. -/
def toRaw (t : Theme) : Raw :=
  .ofFields (t.entries.map fun entry => (entry.1, entry.2.toRaw))

end Theme

end TermMarkup
