/-
What a plain scalar means: null, a flag, an integer, a double, or just its text. Integers may have a
sign and a base; digits after a leading zero are no number.
-/
import TermMarkup.Number
import TermMarkup.Text.Quoted
import TermMarkup.Yaml.Scalar

namespace TermMarkup.Yaml

def isNull (text : String) : Bool :=
  text == "~" || text == "null" || text == "Null" || text == "NULL"

def readFlag? (text : String) : Option Bool :=
  if text == "true" || text == "True" || text == "TRUE" then some true
  else if text == "false" || text == "False" || text == "FALSE" then some false
  else none

/-! ## Integers -/

/-- The value of a digit in a base up to sixteen. -/
def digit? (base : Nat) (c : Char) : Option Nat :=
  (hexDigit? c).filter (· < base)

/-- The number some digits write, of which there must be one at least. -/
def digits? (base : Nat) (ds : List Char) : Option Nat :=
  if ds.isEmpty then none
  else ds.foldlM (fun n d => (digit? base d).map (base * n + ·)) 0

def dropSign (sign : Char) : List Char → List Char
  | c :: rest => if c == sign then rest else c :: rest
  | [] => []

def startsSigned (cs : List Char) : Bool :=
  cs.head? == some '+' || cs.head? == some '-'

/-- Whether the text is digits after a leading zero, which makes it no number. -/
def hasLeadingZero (cs : List Char) : Bool :=
  match if startsSigned cs then cs.drop 1 else cs with
  | '0' :: d :: rest => (d :: rest).all Char.isDigit
  | _ => false

/-- The number after a base mark, `0x`, `0o` or `0b`. -/
def based? : List Char → Option Nat
  | '0' :: 'x' :: ds => digits? 16 ds
  | '0' :: 'o' :: ds => digits? 8 ds
  | '0' :: 'b' :: ds => digits? 2 ds
  | _ => none

/-- The number, if it is below a bound. -/
def within (bound : Nat) (n : Option Nat) : Option Nat := n.filter (· < bound)

/-- Reads a number without a minus sign that is below a bound. -/
def readUnsigned? (bound : Nat) (cs : List Char) : Option Nat :=
  let body := dropSign '+' cs
  match within bound (based? body) with
  | some n => some n
  | none =>
    if startsSigned body || hasLeadingZero cs then none else within bound (digits? 10 body)

/-- Reads a number with a minus sign; `bound` is what its magnitude may reach. -/
def readNegative? (bound : Nat) (cs : List Char) : Option Int :=
  let negative (n : Option Nat) : Option Int := (within (bound + 1) n).map fun n => -(n : Int)
  match cs with
  | '-' :: ds =>
    match negative (based? ds) with
    | some n => some n
    | none => if hasLeadingZero cs then none else negative (digits? 10 ds)
  | _ => none

/-! ## Doubles -/

/-- Reads digits with an optional point and exponent. -/
def readDecimal? (negative : Bool) (cs : List Char) : Option Number.Double := do
  let whole := cs.takeWhile Char.isDigit
  let (fraction, cs) := match cs.dropWhile Char.isDigit with
    | '.' :: rest => (rest.takeWhile Char.isDigit, rest.dropWhile Char.isDigit)
    | rest => ([], rest)
  if whole.isEmpty && fraction.isEmpty then none
  let exponent : Int ← match cs with
    | [] => some 0
    | e :: rest =>
      if e == 'e' || e == 'E' then
        let ds := if startsSigned rest then rest.drop 1 else rest
        if !ds.isEmpty && ds.all Char.isDigit then
          let n : Int := Number.ofDigits ds
          some (if rest.head? == some '-' then -n else n)
        else none
      else none
  let x := Number.nearest negative (Number.ofDigits (whole ++ fraction))
    (exponent - (fraction.length : Int))
  if x.isFinite then some x else none

def readDouble? (cs : List Char) : Option Number.Double :=
  let body := dropSign '+' cs
  let text := String.ofList body
  if cs.head? == some '+' && startsSigned body then none
  else if text == ".inf" || text == ".Inf" || text == ".INF" then some (.ofFloat (1.0 / 0.0))
  else if text == "-.inf" || text == "-.Inf" || text == "-.INF" then some (.ofFloat (-1.0 / 0.0))
  else if cs == body && (text == ".nan" || text == ".NaN" || text == ".NAN") then
    some (.ofFloat (0.0 / 0.0))
  else
    match body with
    | '-' :: rest => readDecimal? true rest
    | rest => readDecimal? false rest

/-! ## Meanings as messages name them -/

def stringText (text : String) : String := "string " ++ Text.quote text

def integerText (n : Int) (width : String) : String :=
  "integer `" ++ Number.intText n ++ "`" ++ width

/-- An integer of 64 bits, or else of 128 bits. -/
def integerText? (cs : List Char) : Option String :=
  ((readUnsigned? (Nat.pow 2 64) cs).map fun n => integerText n "")
    <|> ((readNegative? (Nat.pow 2 63) cs).map fun n => integerText n "")
    <|> ((readUnsigned? (Nat.pow 2 128) cs).map fun n => integerText n " as u128")
    <|> ((readNegative? (Nat.pow 2 127) cs).map fun n => integerText n " as i128")

def flagText (flag : Bool) : String :=
  if flag then "boolean `true`" else "boolean `false`"

def doubleText (x : Number.Double) : String :=
  "floating point `" ++ x.text .record ++ "`"

/-- What a plain scalar is. -/
def plainText (text : String) : String :=
  let cs := text.toList
  if text.isEmpty || isNull text then "unit value"
  else
    match readFlag? text, integerText? cs with
    | some flag, _ => flagText flag
    | none, some integer => integer
    | none, none =>
      match if hasLeadingZero cs then none else readDouble? cs with
      | some x => doubleText x
      | none => stringText text

end TermMarkup.Yaml
