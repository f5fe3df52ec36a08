/-
A place in a YAML text, and what is left of the text from there. Lines and columns count from zero,
in characters, and the index in octets; a carriage return with its line feed is one break. The end
of the text reads as `none`.
-/

namespace TermMarkup.Yaml

/-- A place in the text. -/
structure Mark where
  line : Nat
  column : Nat
  index : Nat
  deriving DecidableEq, Repr

def Mark.start : Mark := ⟨0, 0, 0⟩

/-- The place in words; lines and columns start at one there. -/
def Mark.text (m : Mark) : String :=
  "line " ++ Nat.repr (m.line + 1) ++ " column " ++ Nat.repr (m.column + 1)

/-- Whether the mark is at the start of its text. -/
def Mark.isStart (m : Mark) : Bool :=
  m.line == 0 && m.column == 0

/-- Why a text is not YAML: the problem, and what was being read. -/
structure Malformed where
  problem : String
  mark : Mark
  context : Option (String × Mark) := none
  deriving DecidableEq, Repr

/-- The place a problem is at, which is left out at the start of the text. -/
def Mark.suffix (m : Mark) : String :=
  if m.isStart then "" else " at " ++ m.text

def Malformed.message (e : Malformed) : String :=
  e.problem ++ e.mark.suffix ++
    match e.context with
    | none => ""
    | some (context, mark) => ", " ++ context ++ if mark = e.mark then "" else mark.suffix

/-! ## Characters -/

/-- The characters a text may hold. -/
def isAllowed (c : Char) : Bool :=
  let n := c.toNat
  n == 0x09 || n == 0x0a || n == 0x0d || (0x20 ≤ n && n ≤ 0x7e) || n == 0x85 ||
    (0xa0 ≤ n && n ≤ 0xd7ff) || (0xe000 ≤ n && n ≤ 0xfffd) || 0x10000 ≤ n

def isBreakChar (c : Char) : Bool :=
  c == '\n' || c == '\r' || c == '\u0085' || c == '\u2028' || c == '\u2029'

def isBlankChar (c : Char) : Bool :=
  c == ' ' || c == '\t'

/-- The characters of anchors, handles and directive names. -/
def isWordChar (c : Char) : Bool :=
  c.isAlphanum || c == '_' || c == '-'

def isBreak (c : Option Char) : Bool := c.any isBreakChar

def isBlank (c : Option Char) : Bool := c.any isBlankChar

def isBreakOrEnd (c : Option Char) : Bool := c.all isBreakChar

/-- Whether a blank, a break or the end stands here. -/
def isGapOrEnd (c : Option Char) : Bool := c.all fun c => isBlankChar c || isBreakChar c

/-- The number of octets that some characters take. -/
def size (cs : List Char) : Nat :=
  cs.foldl (fun n c => n + c.utf8Size) 0

/-! ## Cursors -/

structure Cursor where
  rest : List Char
  mark : Mark

namespace Cursor

def head (c : Cursor) : Option Char := c.rest.head?

def ahead (c : Cursor) (n : Nat) : Option Char := c.rest[n]?

def column (c : Cursor) : Nat := c.mark.column

/-- Passes characters none of which is a break. -/
def skip (c : Cursor) (n : Nat) : Cursor :=
  ⟨c.rest.drop n,
    { c.mark with column := c.mark.column + n, index := c.mark.index + size (c.rest.take n) }⟩

/-- Passes a break. -/
def skipBreak (c : Cursor) : Cursor :=
  match c.rest with
  | '\r' :: '\n' :: rest => ⟨rest, ⟨c.mark.line + 1, 0, c.mark.index + 2⟩⟩
  | b :: rest => ⟨rest, ⟨c.mark.line + 1, 0, c.mark.index + b.utf8Size⟩⟩
  | [] => c

/-- What a break reads as: a line feed, but for the line and paragraph separators. -/
def breakChar : Char → Char
  | '\u2028' => '\u2028'
  | '\u2029' => '\u2029'
  | _ => '\n'

/-- A break, if one stands here, and the cursor after it. -/
def readBreak (c : Cursor) : List Char × Cursor :=
  match c.head with
  | some b => if isBreakChar b then ([breakChar b], c.skipBreak) else ([], c)
  | none => ([], c)

/-- The longest run of characters with a property, none of which is a break, and the cursor after
it. -/
def takeWhile (c : Cursor) (p : Char → Bool) : List Char × Cursor :=
  let run := c.rest.takeWhile p
  (run, c.skip run.length)

def skipWhile (c : Cursor) (p : Char → Bool) : Cursor :=
  (c.takeWhile p).2

/-- Passes the comment that starts here, if one does. -/
def skipComment (c : Cursor) : Cursor :=
  if c.head == some '#' then c.skipWhile (!isBreakChar ·) else c

/-- Whether one of the two document marks, three equal characters, stands here. -/
def isAt (c : Cursor) (sign : Char) : Bool :=
  c.column == 0 && c.rest.take 3 == [sign, sign, sign] && isGapOrEnd (c.ahead 3)

def atDocumentMark (c : Cursor) : Bool :=
  c.isAt '-' || c.isAt '.'

end Cursor

end TermMarkup.Yaml
