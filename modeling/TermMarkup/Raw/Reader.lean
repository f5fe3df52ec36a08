/-
Reading an untyped tree from its text. Of two fields with one key the later counts; a literal
without point and exponent is an integer where one can hold it.
-/
import TermMarkup.Raw

namespace TermMarkup.Raw

def isSpace (c : Char) : Bool :=
  c == ' ' || c == '\t' || c == '\n' || c == '\r'

def skipSpace (cs : List Char) : List Char :=
  cs.dropWhile isSpace

def hexValue? (c : Char) : Option Nat :=
  if c.isDigit then some (c.toNat - '0'.toNat)
  else if 'a' ≤ c && c ≤ 'f' then some (c.toNat - 'a'.toNat + 10)
  else if 'A' ≤ c && c ≤ 'F' then some (c.toNat - 'A'.toNat + 10)
  else none

/-- Four hexadecimal digits and what follows them. -/
def hexQuad? : List Char → Option (Nat × List Char)
  | a :: b :: c :: d :: rest => do
    let n := 4096 * (← hexValue? a) + 256 * (← hexValue? b) + 16 * (← hexValue? c) + (← hexValue? d)
    return (n, rest)
  | _ => none

/-- The character of a code point that is not a surrogate. -/
def scalar? (n : Nat) : Option Char :=
  if n < 0xd800 || (0xdfff < n && n < 0x110000) then some (Char.ofNat n) else none

/-- The character after `\u`, which may take two code units. -/
def escapedUnit? (cs : List Char) : Option (Char × List Char) := do
  let (high, rest) ← hexQuad? cs
  if 0xd800 ≤ high && high < 0xdc00 then
    match rest with
    | '\\' :: 'u' :: rest =>
      let (low, rest) ← hexQuad? rest
      if 0xdc00 ≤ low && low < 0xe000 then
        let c ← scalar? (0x10000 + (high - 0xd800) * 0x400 + (low - 0xdc00))
        return (c, rest)
      else none
    | _ => none
  else
    let c ← scalar? high
    return (c, rest)

/-- The escaped character and what follows it. -/
def escaped? : List Char → Option (Char × List Char)
  | '\x22' :: rest => some ('\x22', rest)
  | '\\' :: rest => some ('\\', rest)
  | '/' :: rest => some ('/', rest)
  | 'b' :: rest => some ('\x08', rest)
  | 'f' :: rest => some ('\x0c', rest)
  | 'n' :: rest => some ('\n', rest)
  | 'r' :: rest => some ('\r', rest)
  | 't' :: rest => some ('\t', rest)
  | 'u' :: rest => escapedUnit? rest
  | _ => none

/-- The characters of a string up to its closing quote; `fuel` bounds their number. -/
def readString (fuel : Nat) (done : List Char) (cs : List Char) : Option (String × List Char) :=
  match fuel, cs with
  | fuel + 1, c :: rest =>
    if c == '\x22' then some (String.ofList done.reverse, rest)
    else if c == '\\' then do
      let (c, rest) ← escaped? rest
      readString fuel (c :: done) rest
    else if c.toNat < 0x20 then none
    else readString fuel (c :: done) rest
  | _, _ => none

/-- A number literal and what follows it. -/
def readNumber (cs : List Char) : Option (Number × List Char) := do
  let (negative, cs) := match cs with
    | '-' :: rest => (true, rest)
    | cs => (false, cs)
  let whole := cs.takeWhile Char.isDigit
  let cs := cs.dropWhile Char.isDigit
  if whole.isEmpty || (whole.length > 1 && whole.head? == some '0') then none
  let (fraction, cs) ← match cs with
    | '.' :: rest =>
      let ds := rest.takeWhile Char.isDigit
      if ds.isEmpty then none else some (some ds, rest.dropWhile Char.isDigit)
    | cs => some (none, cs)
  let (exponent, cs) ← match cs with
    | e :: rest =>
      if e == 'e' || e == 'E' then
        let (below, rest) := match rest with
          | '-' :: rest => (true, rest)
          | '+' :: rest => (false, rest)
          | rest => (false, rest)
        let ds := rest.takeWhile Char.isDigit
        if ds.isEmpty then none
        else
          let n : Int := Number.ofDigits ds
          some (some (if below then -n else n), rest.dropWhile Char.isDigit)
      else some (none, cs)
    | [] => some (none, [])
  let number ← Number.ofLiteral negative whole fraction exponent
  return (number, cs)

mutual

/-- A tree and what follows it. -/
def readValue (fuel : Nat) (cs : List Char) : Option (Raw × List Char) :=
  match fuel with
  | 0 => none
  | fuel + 1 =>
    match skipSpace cs with
    | 'n' :: 'u' :: 'l' :: 'l' :: rest => some (.null, rest)
    | 't' :: 'r' :: 'u' :: 'e' :: rest => some (.bool true, rest)
    | 'f' :: 'a' :: 'l' :: 's' :: 'e' :: rest => some (.bool false, rest)
    | '\x22' :: rest => (readString (rest.length + 1) [] rest).map fun r => (.string r.1, r.2)
    | '[' :: rest =>
      match skipSpace rest with
      | ']' :: rest => some (.array [], rest)
      | rest => readItems fuel [] rest
    | '\x7b' :: rest =>
      match skipSpace rest with
      | '\x7d' :: rest => some (.object [], rest)
      | rest => readFields fuel [] rest
    | rest => (readNumber rest).map fun r => (.number r.1, r.2)

/-- The items of an array up to its bracket; those read stand latest first. -/
def readItems (fuel : Nat) (done : List Raw) (cs : List Char) : Option (Raw × List Char) :=
  match fuel with
  | 0 => none
  | fuel + 1 =>
    match readValue fuel cs with
    | none => none
    | some (item, rest) =>
      match skipSpace rest with
      | ',' :: rest => readItems fuel (item :: done) rest
      | ']' :: rest => some (.array (item :: done).reverse, rest)
      | _ => none

/-- The fields of an object up to its brace. -/
def readFields (fuel : Nat) (done : List (String × Raw)) (cs : List Char) :
    Option (Raw × List Char) :=
  match fuel, skipSpace cs with
  | fuel + 1, '\x22' :: rest =>
    match readString (rest.length + 1) [] rest with
    | none => none
    | some (key, rest) =>
      match skipSpace rest with
      | ':' :: rest =>
        match readValue fuel rest with
        | none => none
        | some (value, rest) =>
          let fields := insert key value done
          match skipSpace rest with
          | ',' :: rest => readFields fuel fields rest
          | '\x7d' :: rest => some (.object fields, rest)
          | _ => none
      | _ => none
  | _, _ => none

end

/-- The tree with the given text. -/
def ofText? (text : String) : Option Raw := do
  let cs := text.toList
  let (raw, rest) ← readValue (cs.length + 1) cs
  if (skipSpace rest).isEmpty then some raw else none

end TermMarkup.Raw
