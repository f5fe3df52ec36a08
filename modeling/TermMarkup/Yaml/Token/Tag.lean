/-
Reading the signs that are words of their own: anchors and aliases, tags, and directives.
-/
import TermMarkup.Yaml.Token

namespace TermMarkup.Yaml

/-! ## Anchors -/

/-- Reads the name of an anchor or alias from its indicator on. -/
def readAnchor (isAlias : Bool) (c : Cursor) : Except Malformed (Sign × Cursor) :=
  let (name, stop) := (c.skip 1).takeWhile isWordChar
  let ends := isGapOrEnd stop.head ||
    stop.head.any fun x => "?:,]\x7d%@\x60".toList.contains x
  if name.isEmpty || !ends then
    .error ⟨"did not find expected alphabetic or numeric character", stop.mark,
      some (if isAlias then "while scanning an alias" else "while scanning an anchor", c.mark)⟩
  else
    let name := String.ofList name
    .ok (if isAlias then .alias name else .anchor name, stop)

/-! ## Tags -/

/-- The characters of a tag; some only where it is written in full. -/
def isTagChar (full : Bool) (c : Char) : Bool :=
  isWordChar c || ";/?:@&=+$.%!~*\x27()".toList.contains c ||
    (full && ",[]".toList.contains c)

/-- The number of octets in the sequence that an octet leads; none where it can lead none. -/
def sequenceWidth? (octet : Nat) : Option Nat :=
  if octet < 0x80 then some 1
  else if 0xc0 ≤ octet && octet < 0xe0 then some 2
  else if 0xe0 ≤ octet && octet < 0xf0 then some 3
  else if 0xf0 ≤ octet && octet < 0xf8 then some 4
  else none

/-- The octets of a tag with its escapes undone. An escape that leads a sequence is followed by the
escapes of its other octets, of which `pending` are left. -/
def decodeTag (pending : Nat) : List Char → Except String (List UInt8)
  | [] => if pending == 0 then .ok [] else .error "did not find URI escaped octet"
  | '%' :: a :: b :: rest =>
    match hexNumber? [a, b], pending with
    | none, _ => .error "did not find URI escaped octet"
    | some octet, pending + 1 =>
      if octet / 0x40 == 2 then (decodeTag pending rest).map (octet.toUInt8 :: ·)
      else .error "found an incorrect trailing UTF-8 octet"
    | some octet, 0 =>
      match sequenceWidth? octet with
      | some width => (decodeTag (width - 1) rest).map (octet.toUInt8 :: ·)
      | none => .error "found an incorrect leading UTF-8 octet"
  | c :: rest =>
    if pending == 0 && c != '%' then (decodeTag 0 rest).map (String.utf8EncodeChar c ++ ·)
    else .error "did not find URI escaped octet"

/-- Reads the part of a tag after its handle. -/
def readTagText (full : Bool) (context : String) (start : Mark) (before : List Char) (c : Cursor) :
    Except Malformed (List UInt8 × Cursor) :=
  let (run, stop) := c.takeWhile (isTagChar full)
  match decodeTag 0 run with
  | .error problem => .error ⟨problem, c.mark, some (context, start)⟩
  | .ok text =>
    if before.isEmpty && run.isEmpty then
      .error ⟨"did not find expected tag URI", stop.mark, some (context, start)⟩
    else .ok (upToZero (octets (String.ofList (before.drop 1)) ++ text), stop)

/-- Reads a handle, `!`, `!!` or `!word!`; without a second mark it is just what was read. -/
def readHandle (context : String) (start : Mark) (c : Cursor) :
    Except Malformed (List Char × Cursor) :=
  if c.head != some '!' then
    .error ⟨"did not find expected '!'", c.mark, some (context, start)⟩
  else
    let (word, stop) := (c.skip 1).takeWhile isWordChar
    if stop.head == some '!' then .ok ('!' :: word ++ ['!'], stop.skip 1)
    else .ok ('!' :: word, stop)

/-- Reads a tag. -/
def readTag (flow : Bool) (c : Cursor) : Except Malformed (Sign × Cursor) := do
  let start := c.mark
  let context := "while scanning a tag"
  let (sign, c) ←
    if c.ahead 1 == some '<' then do
      let (text, c) ← readTagText true context start [] (c.skip 2)
      if c.head != some '>' then
        throw ⟨"did not find the expected '>'", c.mark, some (context, start)⟩
      pure (Sign.tag "" text, c.skip 1)
    else do
      let (handle, c) ← readHandle context start c
      if handle.length > 1 && handle.getLast? == some '!' then
        let (text, c) ← readTagText false context start [] c
        pure (Sign.tag (String.ofList handle) text, c)
      else
        let (text, c) ← readTagText false context start handle c
        pure (if text.isEmpty then .tag "" (octets "!") else .tag "!" text, c)
  if isGapOrEnd c.head || (flow && c.head == some ',') then
    return (sign, c)
  throw ⟨"did not find expected whitespace or line break", c.mark, some (context, start)⟩

/-! ## Directives -/

def directiveContext : String := "while scanning a directive"

/-- Reads a number of a version. -/
def readVersionNumber (start : Mark) (c : Cursor) : Except Malformed (Nat × Cursor) :=
  let context := some ("while scanning a %YAML directive", start)
  let (digits, stop) := c.takeWhile Char.isDigit
  if digits.isEmpty then .error ⟨"did not find expected version number", stop.mark, context⟩
  else if digits.length > 9 then .error ⟨"found extremely long version number", stop.mark, context⟩
  else .ok (digits.foldl (fun n d => 10 * n + (d.toNat - '0'.toNat)) 0, stop)

def readVersion (start : Mark) (c : Cursor) : Except Malformed (Sign × Cursor) := do
  let (major, c) ← readVersionNumber start (c.skipWhile isBlankChar)
  if c.head != some '.' then
    throw ⟨"did not find expected digit or '.' character", c.mark,
      some ("while scanning a %YAML directive", start)⟩
  let (minor, c) ← readVersionNumber start (c.skip 1)
  return (.version major minor, c)

def readHandleMeaning (start : Mark) (c : Cursor) : Except Malformed (Sign × Cursor) := do
  let context := "while scanning a %TAG directive"
  let (handle, c) ← readHandle context start (c.skipWhile isBlankChar)
  if handle != ['!'] && !(handle.length > 1 && handle.getLast? == some '!') then
    throw ⟨"did not find expected '!'", c.mark, some (context, start)⟩
  if !isBlank c.head then
    throw ⟨"did not find expected whitespace", c.mark, some (context, start)⟩
  let (meaning, c) ← readTagText true context start [] (c.skipWhile isBlankChar)
  if !isGapOrEnd c.head then
    throw ⟨"did not find expected whitespace or line break", c.mark, some (context, start)⟩
  return (.handle (String.ofList handle) meaning, c)

/-- Reads a directive from its percent sign to the end of its line. -/
def readDirective (c : Cursor) : Except Malformed (Sign × Cursor) := do
  let start := c.mark
  let context := some (directiveContext, start)
  let (name, c) := (c.skip 1).takeWhile isWordChar
  if name.isEmpty then
    throw ⟨"could not find expected directive name", c.mark, context⟩
  if !isGapOrEnd c.head then
    throw ⟨"found unexpected non-alphabetical character", c.mark, context⟩
  let (sign, stop) ← match String.ofList name with
    | "YAML" => readVersion start c
    | "TAG" => readHandleMeaning start c
    | _ => throw ⟨"found unknown directive name", c.mark, context⟩
  let c := (stop.skipWhile isBlankChar).skipComment
  if !isBreakOrEnd c.head then
    throw ⟨"did not find expected comment or line break", c.mark, context⟩
  return (sign, c.skipBreak)

end TermMarkup.Yaml
