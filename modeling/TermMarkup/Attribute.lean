/-
Attributes: which names a kind accepts, what each holds, and how a written value becomes an untyped
one. Only the form of a value is settled here; whether a color exists or a count is in range is
checked with the node.
-/
import TermMarkup.Kind
import TermMarkup.Raw
import TermMarkup.Text.Blank
import TermMarkup.Text.Case

namespace TermMarkup.Attribute

/-- What an attribute holds. -/
inductive Shape where
  | text
  | color
  | flag
  | number
  | underline
  deriving DecidableEq, Repr

def margins : List String :=
  ["margin", "marginLeft", "marginRight", "marginTop", "marginBottom"]

/-- What a styled kind's attribute holds. -/
def styledShape? (kind : StyledKind) (name : String) : Option Shape :=
  if name == "fg" || name == "bg" then some .color
  else if name == "bold" || name == "italics" then some .flag
  else if name == "underline" then some .underline
  else if margins.contains name then some .number
  else if kind = .listItem && name == "bullet" then some .text
  else if kind = .listItem && name == "indent" then some .number
  else none

/-- What the attribute with a camel-case name holds on a kind, if the kind accepts it. -/
def shape? (kind : Kind) (name : String) : Option Shape :=
  match kind with
  | .color => if name == "fg" || name == "bg" then some .color else none
  | .underline => if name == "type" then some .underline else none
  | .styled kind => styledShape? kind name
  | _ => none

/-- Reads a flag: `true` or `yes`, `false` or `no`, in any case and with blanks around it. -/
def readFlag? (written : String) : Option Bool :=
  match Text.asciiLower (Text.trim written) with
  | "true" | "yes" => some true
  | "false" | "no" => some false
  | _ => none

/-- The digits as a number, if there is at least one and all are ASCII digits. -/
def readDigits? (cs : List Char) : Option Nat :=
  if !cs.isEmpty && cs.all Char.isDigit then some (Number.ofDigits cs) else none

/-- Reads an integer of 64 bits, with an optional sign. -/
def readInt? (cs : List Char) : Option Int :=
  let value : Option Int := match cs with
    | '+' :: digits => (readDigits? digits).map fun n => (n : Int)
    | '-' :: digits => (readDigits? digits).map fun n => -(n : Int)
    | digits => (readDigits? digits).map fun n => (n : Int)
  value.filter fun n => -Int.pow 2 63 ≤ n && n < Int.pow 2 63

/-- Why a written value does not fit its attribute. -/
inductive Fault where
  | notFlag (written : String)
  | notInteger (written : String)
  | valueRequired
  deriving DecidableEq, Repr

def Fault.message : Fault → String
  | notFlag written => "expected true, yes, false or no, found `" ++ written ++ "`"
  | notInteger written => "expected an integer, found `" ++ written ++ "`"
  | valueRequired => "a value is required"

/-- The untyped value of an attribute; `none` is an attribute without a written value. -/
def coerce (shape : Shape) (written : Option String) : Except Fault Raw :=
  match shape, written with
  | .flag, none => .ok (.bool true)
  | .flag, some value =>
    match readFlag? value with
    | some flag => .ok (.bool flag)
    | none => .error (.notFlag value)
  | .number, some value =>
    match readInt? (Text.trimChars value.toList) with
    | some n => .ok (.int n)
    | none => .error (.notInteger value)
  | .underline, none => .ok (.bool true)
  | .text, some value | .color, some value | .underline, some value => .ok (.string value)
  | .text, none | .color, none | .number, none => .error .valueRequired

end TermMarkup.Attribute
