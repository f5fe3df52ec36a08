/-
Styles. Every field is optional: an unset field falls through to the style below. Layering one
style over another takes each field from the upper style where it is set; margins are layered per
direction, after the shorthand of each style has filled the directions it leaves unset.
-/
import TermMarkup.Color
import TermMarkup.Raw

namespace TermMarkup

/-- A margin or an indent. -/
abbrev Count := Fin 65536

abbrev Count.zero : Count := 0

abbrev Count.one : Count := 1

/-- The count with the given value, if it is one. -/
def Count.ofNat? (n : Nat) : Option Count :=
  if h : n < 65536 then some ⟨n, h⟩ else none

structure Font where
  fg : Option Color := none
  bg : Option Color := none
  bold : Option Bool := none
  underline : Option Underline := none
  italics : Option Bool := none
  deriving DecidableEq, Repr

/-- Margins; `margin` stands for every direction that is not set itself. -/
structure Spacing where
  margin : Option Count := none
  left : Option Count := none
  right : Option Count := none
  top : Option Count := none
  bottom : Option Count := none
  deriving DecidableEq, Repr

/-- What a list item writes before its content. -/
structure Listing where
  bullet : Option String := none
  indent : Option Count := none
  deriving DecidableEq, Repr

structure Style where
  font : Font := {}
  spacing : Spacing := {}
  list : Listing := {}
  deriving DecidableEq, Repr

/-- One value per direction. -/
structure Margins (α : Type) where
  top : α
  right : α
  bottom : α
  left : α
  deriving DecidableEq, Repr

/-! ## Layering -/

/-- The font with `upper` layered over it. -/
def Font.merge (base upper : Font) : Font where
  fg := upper.fg.or base.fg
  bg := upper.bg.or base.bg
  bold := upper.bold.or base.bold
  underline := upper.underline.or base.underline
  italics := upper.italics.or base.italics

namespace Spacing

/-- The margin of each direction, from the shorthand where the direction itself is unset. -/
def directions (s : Spacing) : Margins (Option Count) where
  top := s.top.or s.margin
  right := s.right.or s.margin
  bottom := s.bottom.or s.margin
  left := s.left.or s.margin

/-- The margin of each direction; unset is zero. -/
def margins (s : Spacing) : Margins Count where
  top := s.directions.top.getD 0
  right := s.directions.right.getD 0
  bottom := s.directions.bottom.getD 0
  left := s.directions.left.getD 0

/-- The same margin in every direction. -/
def uniform (margin : Count) : Spacing := { margin := some margin }

/-- The spacing with `upper` layered over it; the result sets directions only. -/
def merge (base upper : Spacing) : Spacing where
  margin := none
  left := upper.directions.left.or base.directions.left
  right := upper.directions.right.or base.directions.right
  top := upper.directions.top.or base.directions.top
  bottom := upper.directions.bottom.or base.directions.bottom

end Spacing

/-- The list decoration with `upper` layered over it. -/
def Listing.merge (base upper : Listing) : Listing where
  bullet := upper.bullet.or base.bullet
  indent := upper.indent.or base.indent

/-- The style with `upper` layered over it. -/
def Style.merge (base upper : Style) : Style where
  font := base.font.merge upper.font
  spacing := base.spacing.merge upper.spacing
  list := base.list.merge upper.list

/-! ## Settings -/

/-- The value of a field that is set. -/
inductive Setting where
  | color (value : Color)
  | flag (value : Bool)
  | underline (value : Underline)
  | count (value : Count)
  | text (value : String)
  deriving DecidableEq, Repr

namespace Setting

/-- The setting as an attribute value. -/
def written : Setting → String
  | color c => c.name
  | flag true => "true"
  | flag false => "false"
  | underline u => u.name
  | count n => Nat.repr n
  | text s => s

/-- The setting as an untyped tree. -/
def toRaw : Setting → Raw
  | color c => .string c.name
  | flag b => .bool b
  | underline u => .string u.name
  | count n => .nat n
  | text s => .string s

end Setting

/-- The settings of the fields that are set, in the order in which markup writes them. -/
def settingsOf (fields : List (String × Option Setting)) : List (String × Setting) :=
  fields.filterMap fun field => field.2.map fun setting => (field.1, setting)

def Font.settings (f : Font) : List (String × Setting) :=
  settingsOf [("fg", f.fg.map .color), ("bg", f.bg.map .color), ("bold", f.bold.map .flag),
    ("underline", f.underline.map .underline), ("italics", f.italics.map .flag)]

def Spacing.settings (s : Spacing) : List (String × Setting) :=
  settingsOf [("margin", s.margin.map .count), ("marginLeft", s.left.map .count),
    ("marginRight", s.right.map .count), ("marginTop", s.top.map .count),
    ("marginBottom", s.bottom.map .count)]

def Listing.settings (l : Listing) : List (String × Setting) :=
  settingsOf [("bullet", l.bullet.map .text), ("indent", l.indent.map .count)]

namespace Style

def settings (s : Style) : List (String × Setting) :=
  s.font.settings ++ s.spacing.settings ++ s.list.settings

/-- The attributes markup writes for the style. -/
def attributes (s : Style) : List (String × String) :=
  s.settings.map fun setting => (setting.1, setting.2.written)

/-- The style as a record with its three sections. -/
def toRaw (s : Style) : Raw :=
  let record (settings : List (String × Setting)) : Raw :=
    .ofFields (settings.map fun setting => (setting.1, setting.2.toRaw))
  .ofFields [("font", record s.font.settings), ("spacing", record s.spacing.settings),
    ("list", record s.list.settings)]

end Style

end TermMarkup
