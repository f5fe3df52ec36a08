/-
Records: styles and themes as named fields. The fields, their order and what each holds are given
once, over any source of values; a source says how it reads a leaf and how it goes through the
fields of a record. Fields that are not given keep the value of the record one starts from.
-/
import TermMarkup.Theme

namespace TermMarkup

/-- Why a value does not fit a record. -/
inductive RecordFault where
  | unknownField (name : String) (known : List String)
  | duplicateField (name : String)
  | unknownVariant (name : String) (known : List String)
  | invalidType (got want : String)
  | invalidValue (got want : String)
  /-- A list with more items than the record has fields. -/
  | tooManyItems (count : Nat)
  deriving DecidableEq, Repr

namespace RecordFault

def inTicks (name : String) : String := "`" ++ name ++ "`"

/-- The names one may choose from. -/
def oneOf : List String → String
  | [only] => inTicks only
  | [first, second] => inTicks first ++ " or " ++ inTicks second
  | names => "one of " ++ String.intercalate ", " (names.map inTicks)

def message : RecordFault → String
  | unknownField name known => "unknown field " ++ inTicks name ++ ", expected " ++ oneOf known
  | duplicateField name => "duplicate field " ++ inTicks name
  | unknownVariant name known => "unknown variant " ++ inTicks name ++ ", expected " ++ oneOf known
  | invalidType got want => "invalid type: " ++ got ++ ", expected " ++ want
  | invalidValue got want => "invalid value: " ++ got ++ ", expected " ++ want
  | tooManyItems count =>
    "invalid length " ++ Nat.repr count ++ ", expected fewer elements in array"

end RecordFault

namespace Record

/-- How values of type `V` are read in `m`. A leaf may be unset. -/
structure Source (V : Type) (m : Type → Type) where
  color : V → m (Option Color)
  underline : V → m (Option Underline)
  flag : V → m (Option Bool)
  count : V → m (Option Count)
  text : V → m (Option String)
  /-- Goes through a record with the given name and fields, setting one field after the other. -/
  record : {σ : Type} → String → List String → (σ → String → V → m σ) → σ → V → m σ

variable {V : Type} {m : Type → Type} [Monad m]

def fontFields : List String := ["fg", "bg", "bold", "underline", "italics"]

def setFont (source : Source V m) (font : Font) (name : String) (value : V) : m Font := do
  match name with
  | "fg" => return { font with fg := ← source.color value }
  | "bg" => return { font with bg := ← source.color value }
  | "bold" => return { font with bold := ← source.flag value }
  | "underline" => return { font with underline := ← source.underline value }
  | "italics" => return { font with italics := ← source.flag value }
  | _ => return font

def font (source : Source V m) (value : V) : m Font :=
  source.record "FontStyle" fontFields (setFont source) {} value

def spacingFields : List String :=
  ["margin", "marginLeft", "marginRight", "marginTop", "marginBottom"]

def setSpacing (source : Source V m) (spacing : Spacing) (name : String) (value : V) :
    m Spacing := do
  match name with
  | "margin" => return { spacing with margin := ← source.count value }
  | "marginLeft" => return { spacing with left := ← source.count value }
  | "marginRight" => return { spacing with right := ← source.count value }
  | "marginTop" => return { spacing with top := ← source.count value }
  | "marginBottom" => return { spacing with bottom := ← source.count value }
  | _ => return spacing

def spacing (source : Source V m) (value : V) : m Spacing :=
  source.record "SpacingStyle" spacingFields (setSpacing source) {} value

def listingFields : List String := ["bullet", "indent"]

def setListing (source : Source V m) (listing : Listing) (name : String) (value : V) :
    m Listing := do
  match name with
  | "bullet" => return { listing with bullet := ← source.text value }
  | "indent" => return { listing with indent := ← source.count value }
  | _ => return listing

def listing (source : Source V m) (value : V) : m Listing :=
  source.record "ListStyle" listingFields (setListing source) {} value

def styleFields : List String := ["font", "spacing", "list"]

def setStyle (source : Source V m) (style : Style) (name : String) (value : V) : m Style := do
  match name with
  | "font" => return { style with font := ← font source value }
  | "spacing" => return { style with spacing := ← spacing source value }
  | "list" => return { style with list := ← listing source value }
  | _ => return style

def style (source : Source V m) (value : V) : m Style :=
  source.record "Style" styleFields (setStyle source) {} value

def themeFields : List String := ["h1", "h2", "h3", "body", "p", "div", "span", "li", "br"]

def setTheme (source : Source V m) (theme : Theme) (name : String) (value : V) : m Theme := do
  match name with
  | "h1" => return { theme with h1 := ← style source value }
  | "h2" => return { theme with h2 := ← style source value }
  | "h3" => return { theme with h3 := ← style source value }
  | "body" => return { theme with body := ← style source value }
  | "p" => return { theme with p := ← style source value }
  | "div" => return { theme with div := ← style source value }
  | "span" => return { theme with span := ← style source value }
  | "li" => return { theme with li := ← style source value }
  | "br" => return { theme with br := ← style source value }
  | _ => return theme

/-- A theme; an entry that is not given is the built-in one. -/
def theme (source : Source V m) (value : V) : m Theme :=
  source.record "Theme" themeFields (setTheme source) .builtin value

end Record

end TermMarkup
