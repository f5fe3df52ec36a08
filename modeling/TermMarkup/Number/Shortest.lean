/-
The shortest decimal that reads back as a given double. A finite value is `m · 2^e`; every decimal
in its rounding interval reads back as it. For one digit, two digits and so on, the two decimals
next to the value on that grid are tried: the first grid with one in the interval wins, and of two
the nearer. Where both are as near, the reader of the digits says which it wants.
-/

namespace TermMarkup.Number

/-- A double given by its bits. -/
structure Double where
  bits : UInt64
  deriving DecidableEq, Repr

namespace Double

def ofFloat (x : Float) : Double := ⟨x.toBits⟩

def isNegative (x : Double) : Bool := x.bits.toNat / Nat.pow 2 63 == 1

def exponentField (x : Double) : Nat := x.bits.toNat / Nat.pow 2 52 % Nat.pow 2 11

def fraction (x : Double) : Nat := x.bits.toNat % Nat.pow 2 52

def isFinite (x : Double) : Bool := x.exponentField != 2047

def isNaN (x : Double) : Bool := !x.isFinite && x.fraction != 0

def isZero (x : Double) : Bool := x.exponentField == 0 && x.fraction == 0

/-- The integer `m` of a finite magnitude `m · 2^e`. -/
def significand (x : Double) : Nat :=
  if x.exponentField == 0 then x.fraction else x.fraction + Nat.pow 2 52

/-- The exponent `e` of a finite magnitude `m · 2^e`. -/
def exponent (x : Double) : Int :=
  (if x.exponentField == 0 then 1 else x.exponentField) - 1075

/-- The ends of the rounding interval, in units of a quarter of `2^e`. -/
def interval (x : Double) : Nat × Nat :=
  let m := x.significand
  let below := if x.fraction == 0 && x.exponentField > 1 then 4 * m - 1 else 4 * m - 2
  (below, 4 * m + 2)

end Double

/-- The decimal `digits · 10^exponent`. -/
structure Decimal where
  digits : Nat
  exponent : Int
  deriving DecidableEq, Repr

/-- `c · 10^p` on the scale on which it compares with `onBinary b p q`. -/
def onDecimal (c : Nat) (p q : Int) : Nat :=
  c * Nat.pow 10 p.toNat * Nat.pow 2 (-q).toNat

/-- `b · 2^q` on the scale on which it compares with `onDecimal c p q`. -/
def onBinary (b : Nat) (p q : Int) : Nat :=
  b * Nat.pow 2 q.toNat * Nat.pow 10 (-p).toNat

/-- Whether `c · 10^p` lies in the rounding interval; its ends belong to it when `m` is even. -/
def inInterval (x : Double) (c : Nat) (p : Int) : Bool :=
  let q := x.exponent - 2
  let point := onDecimal c p q
  let low := onBinary x.interval.1 p q
  let high := onBinary x.interval.2 p q
  if x.significand % 2 == 0 then low ≤ point && point ≤ high else low < point && point < high

/-- The way a value halfway between two decimals goes. -/
inductive Tie where
  | toEven
  | up
  deriving DecidableEq, Repr, Inhabited

/-- Whether a value halfway between `c` and `c + 1` goes to `c`. -/
def Tie.keeps (tie : Tie) (c : Nat) : Bool :=
  match tie with
  | .toEven => c % 2 == 0
  | .up => false

/-- The neighbour of the value on the grid of step `10^p` that reads back, if there is one. -/
def onGrid (tie : Tie) (x : Double) (p : Int) : Option Decimal :=
  let q := x.exponent - 2
  let value := onBinary (4 * x.significand) p q
  let step := onDecimal 1 p q
  let c := value / step
  match inInterval x c p, inInterval x (c + 1) p with
  | true, true =>
    let twice := 2 * (value % step)
    if twice < step || (twice == step && tie.keeps c) then some ⟨c, p⟩ else some ⟨c + 1, p⟩
  | true, false => some ⟨c, p⟩
  | false, true => some ⟨c + 1, p⟩
  | false, false => none

/-- The exponent of the leading decimal digit of a finite nonzero value. -/
def leadingExponent (x : Double) : Int :=
  let q := x.exponent - 2
  let isLeading (p : Int) : Bool :=
    let c := onBinary (4 * x.significand) p q / onDecimal 1 p q
    1 ≤ c && c < 10
  match ((List.range 640).map fun i => (Int.ofNat i) - 330).find? isLeading with
  | some p => p
  | none => 0

/-- The decimal without the zeros at its end; `fuel` bounds the number dropped. -/
def Decimal.strip (fuel : Nat) (d : Decimal) : Decimal :=
  match fuel with
  | 0 => d
  | fuel + 1 =>
    if d.digits != 0 && d.digits % 10 == 0 then
      Decimal.strip fuel ⟨d.digits / 10, d.exponent + 1⟩
    else d

/-- The shortest decimal that reads back as the magnitude of a finite value. -/
def shortest (tie : Tie) (x : Double) : Decimal :=
  if x.isZero then ⟨0, 0⟩
  else
    let lead := leadingExponent x
    match (List.range 17).findSome? fun n => onGrid tie x (lead - Int.ofNat n) with
    | some d => d.strip 20
    | none => ⟨0, 0⟩

end TermMarkup.Number
