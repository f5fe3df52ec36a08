/-
Numbers of an untyped tree: exact integers and doubles, how a written literal is read as one of
them, and the texts in which messages show a double.
-/
import TermMarkup.Number.Shortest

namespace TermMarkup

/-- An integer, or a double. -/
inductive Number where
  | int (n : Int)
  | double (x : Number.Double)
  deriving DecidableEq, Repr

namespace Number

/-! ## Reading -/

/-- The double nearest to `digits · 10^exponent`, negated if asked. -/
def nearest (negative : Bool) (digits : Nat) (exponent : Int) : Double :=
  let size : Int := (Nat.toDigits 10 digits).length + exponent
  let magnitude : Float :=
    if digits == 0 || size < -400 then 0.0
    else if size > 400 then 1.0 / 0.0
    else if exponent < 0 then Float.ofScientific digits true (-exponent).toNat
    else Float.ofScientific digits false exponent.toNat
  Double.ofFloat (if negative then -magnitude else magnitude)

/-- A run of digits as a number. -/
def ofDigits (ds : List Char) : Nat :=
  ds.foldl (fun n d => 10 * n + (d.toNat - '0'.toNat)) 0

/-- The integers that a tree holds exactly: those of 64 bits, signed or not. -/
def isExact (n : Int) : Bool :=
  -Int.pow 2 63 ≤ n && n < Int.pow 2 64

/-- Puts digits behind a significand as long as it stays below `2^64`; the digits that were left
over come with it. -/
def extend (significand : Nat) : List Char → Nat × List Char
  | [] => (significand, [])
  | d :: ds =>
    let next := 10 * significand + (d.toNat - '0'.toNat)
    if next < Nat.pow 2 64 then extend next ds else (significand, d :: ds)

/-- A double times a power of ten, in steps that a double can hold; none where it has no end. -/
def scale (fuel : Nat) (x : Float) (exponent : Int) : Option Float :=
  let power (n : Nat) : Float := Float.ofScientific 1 false n
  if x == 0.0 then some x
  else if exponent > 308 then none
  else if exponent ≥ 0 then
    let y := x * power exponent.toNat
    if y.isInf then none else some y
  else if exponent ≥ -308 then some (x / power (-exponent).toNat)
  else
    match fuel with
    | 0 => some 0.0
    | fuel + 1 => scale fuel (x / power 308) (exponent + 308)

/-- The number a literal denotes, from its sign, its digits before and after the point and its
exponent; `none` stands for a part that is not written. A literal with neither point nor exponent
is an integer if it is exact and is not a negative zero, else a double: the digits that fit into 64
bits, scaled. A literal beyond all doubles denotes nothing. -/
def ofLiteral (negative : Bool) (whole : List Char) (fraction : Option (List Char))
    (exponent : Option Int) : Option Number :=
  let n := ofDigits whole
  let signed : Int := if negative then -(n : Int) else n
  if fraction.isNone && exponent.isNone && isExact signed && !(negative && n == 0) then
    some (.int signed)
  else
    let (significand, largeRest) := extend 0 whole
    let (significand, smallRest) := extend significand (fraction.getD [])
    let places : Int := (fraction.getD []).length - smallRest.length
    let magnitude :=
      scale 4 (Float.ofNat significand) (exponent.getD 0 + (largeRest.length : Int) - places)
    magnitude.map fun x => .double (Double.ofFloat (if negative then -x else x))

/-! ## Texts -/

/-- How a double is laid out around its shortest digits. -/
structure Layout where
  /-- Whether a leading digit with this exponent is written without an exponent part. -/
  positional : Int → Bool
  /-- Which of two decimals as short and as near is written. -/
  tie : Tie
  deriving Inhabited

/-- In trees a magnitude from `10^-5` up to `10^16` is written positionally, and ties go to the even
digit. -/
def Layout.tree : Layout := ⟨fun e => -5 ≤ e && e < 16, .toEven⟩

/-- In records every magnitude is written positionally, and ties go up. -/
def Layout.record : Layout := ⟨fun _ => true, .up⟩

def zeros (n : Nat) : String := String.ofList (List.replicate n '0')

/-- A decimal without an exponent part; it always has a point. -/
def positionalText (d : Decimal) : String :=
  let ds := Nat.toDigits 10 d.digits
  let whole := (ds.length : Int) + d.exponent
  if whole ≤ 0 then "0." ++ zeros (-whole).toNat ++ String.ofList ds
  else if 0 ≤ d.exponent then String.ofList ds ++ zeros d.exponent.toNat ++ ".0"
  else String.ofList (ds.take whole.toNat) ++ "." ++ String.ofList (ds.drop whole.toNat)

/-- A decimal with one digit before the point and a signed exponent; a lone digit has no point. -/
def exponentText (d : Decimal) : String :=
  let ds := Nat.toDigits 10 d.digits
  let e := (ds.length : Int) + d.exponent - 1
  let mantissa := match ds with
    | [] => ""
    | [digit] => String.ofList [digit]
    | digit :: more => String.ofList (digit :: '.' :: more)
  mantissa ++ (if e < 0 then "e-" else "e+") ++ Nat.repr e.natAbs

/-- The text of a double. -/
def Double.text (layout : Layout) (x : Double) : String :=
  if x.isNaN then "NaN"
  else
    let sign := if x.isNegative then "-" else ""
    if !x.isFinite then sign ++ "inf"
    else if x.isZero then sign ++ "0.0"
    else
      let d := shortest layout.tie x
      let lead := ((Nat.toDigits 10 d.digits).length : Int) + d.exponent - 1
      sign ++ (if layout.positional lead then positionalText d else exponentText d)

/-- The text of an integer. -/
def intText (n : Int) : String :=
  if n < 0 then "-" ++ Nat.repr n.natAbs else Nat.repr n.natAbs

/-- The text of a number in a tree. -/
def text : Number → String
  | .int n => intText n
  | .double x => x.text .tree

end Number

end TermMarkup
