/-
Scalars as they are written: plain, quoted and block scalars. Plain and quoted scalars fold: a gap
that breaks the line once is one space, and each further break stands for itself. A block scalar
keeps its lines or folds those that do not start with a blank, and says itself what becomes of the
breaks at its end.
-/
import TermMarkup.Yaml.Cursor

namespace TermMarkup.Yaml

inductive ScalarStyle where
  | plain
  | singleQuoted
  | doubleQuoted
  | literal
  | folded
  deriving DecidableEq, Repr

/-! ## Gaps between words -/

/-- Blanks and breaks between two words. -/
structure Gap where
  /-- The blanks, where no break follows them. -/
  blanks : List Char := []
  /-- The first break. -/
  first : List Char := []
  /-- The breaks after the first. -/
  others : List Char := []
  broken : Bool := false

/-- What a gap stands for. -/
def Gap.text (g : Gap) : List Char :=
  if !g.broken then g.blanks
  else if g.first == ['\n'] then (if g.others.isEmpty then [' '] else g.others)
  else g.first ++ g.others

/-- Reads a gap; after a break, no tab may stand before the column `indent`. -/
def readGap (indent : Nat) (problem : Mark → Malformed) (fuel : Nat) (g : Gap) (c : Cursor) :
    Except Malformed (Gap × Cursor) :=
  match fuel with
  | 0 => .ok (g, c)
  | fuel + 1 =>
    match c.head with
    | some b =>
      if isBlankChar b then
        if g.broken then
          if c.column < indent && b == '\t' then .error (problem c.mark)
          else readGap indent problem fuel g (c.skip 1)
        else readGap indent problem fuel { g with blanks := g.blanks ++ [b] } (c.skip 1)
      else if isBreakChar b then
        let (line, c) := c.readBreak
        if g.broken then readGap indent problem fuel { g with others := g.others ++ line } c
        else readGap indent problem fuel { g with blanks := [], first := line, broken := true } c
      else .ok (g, c)
    | none => .ok (g, c)

/-! ## Plain scalars -/

def plainContext : String := "while scanning a plain scalar"

/-- Whether a plain scalar ends before `c`, which `next` follows. -/
def endsPlain (flow : Bool) (c : Char) (next : Option Char) : Bool :=
  (c == ':' && isGapOrEnd next) || (flow && (c == ',' || c == '[' || c == ']' || c == '\x7b' ||
    c == '\x7d'))

/-- Whether a colon inside a flow collection is followed by a character it may not touch. -/
def isBadColon (flow : Bool) (c : Char) (next : Option Char) : Bool :=
  flow && c == ':' && next.any fun n =>
    n == ',' || n == '?' || n == '[' || n == ']' || n == '\x7b' || n == '\x7d'

/-- The number of characters of the word at the start of some characters; none if a colon in it
touches what it may not. -/
def plainWord (flow : Bool) : List Char → Option Nat
  | [] => some 0
  | c :: rest =>
    if isBlankChar c || isBreakChar c then some 0
    else if isBadColon flow c rest.head? then none
    else if endsPlain flow c rest.head? then some 0
    else (plainWord flow rest).map (· + 1)

/-- The number of characters before the colon that may not stand where it does. -/
def badColon (flow : Bool) : List Char → Nat
  | [] => 0
  | c :: rest => if isBadColon flow c rest.head? then 0 else badColon flow rest + 1

/-- A scalar that was read: its text, whether a broken gap follows it, and the cursor after it. -/
structure ReadScalar where
  text : List Char
  broken : Bool
  cursor : Cursor

/-- The scalar with text before its own. -/
def ReadScalar.after (r : ReadScalar) (text : List Char) : ReadScalar :=
  { r with text := text ++ r.text }

/-- Reads what follows a gap in a plain scalar. -/
def plainFrom (flow : Bool) (indent : Nat) (start : Mark) (fuel : Nat) (gap : Gap) (c : Cursor) :
    Except Malformed ReadScalar :=
  match fuel with
  | 0 => .ok ⟨[], gap.broken, c⟩
  | fuel + 1 =>
    if c.atDocumentMark || c.head == some '#' then .ok ⟨[], gap.broken, c⟩
    else
      match plainWord flow c.rest with
      | none =>
        let place := (c.skip (badColon flow c.rest)).mark
        .error ⟨"found unexpected ':'", place, some (plainContext, start)⟩
      | some 0 => .ok ⟨[], gap.broken, c⟩
      | some length =>
        let word := gap.text ++ c.rest.take length
        let c := c.skip length
        if isBlank c.head || isBreak c.head then
          let problem mark : Malformed :=
            ⟨"found a tab character that violates indentation", mark, some (plainContext, start)⟩
          match readGap indent problem fuel {} c with
          | .error e => .error e
          | .ok (gap, c) =>
            if !flow && c.column < indent then .ok ⟨word, gap.broken, c⟩
            else (plainFrom flow indent start fuel gap c).map (·.after word)
        else .ok ⟨word, false, c⟩

/-- Reads a plain scalar, which in a block goes on only on lines indented as far as `indent`. -/
def readPlain (flow : Bool) (indent : Nat) (c : Cursor) : Except Malformed ReadScalar :=
  plainFrom flow indent c.mark (c.rest.length + 1) {} c

/-! ## Quoted scalars -/

def quotedContext : String := "while scanning a quoted scalar"

/-- The character a letter after a backslash stands for. -/
def shortEscape? : Char → Option Char
  | '0' => some '\x00'
  | 'a' => some '\x07'
  | 'b' => some '\x08'
  | 't' | '\t' => some '\t'
  | 'n' => some '\n'
  | 'v' => some '\x0b'
  | 'f' => some '\x0c'
  | 'r' => some '\r'
  | 'e' => some '\x1b'
  | ' ' => some ' '
  | '\x22' => some '\x22'
  | '/' => some '/'
  | '\\' => some '\\'
  | 'N' => some '\u0085'
  | '_' => some '\u00a0'
  | 'L' => some '\u2028'
  | 'P' => some '\u2029'
  | _ => none

/-- The number of digits after a letter that introduces a code point. -/
def codeDigits? : Char → Option Nat
  | 'x' => some 2
  | 'u' => some 4
  | 'U' => some 8
  | _ => none

def hexDigit? (c : Char) : Option Nat :=
  if c.isDigit then some (c.toNat - '0'.toNat)
  else if 'a' ≤ c && c ≤ 'f' then some (c.toNat - 'a'.toNat + 10)
  else if 'A' ≤ c && c ≤ 'F' then some (c.toNat - 'A'.toNat + 10)
  else none

/-- The number that some hexadecimal digits write. -/
def hexNumber? (ds : List Char) : Option Nat :=
  ds.foldlM (fun n d => (hexDigit? d).map (16 * n + ·)) 0

/-- Reads what follows a backslash that does not end its line. -/
def readEscape (start : Mark) (c : Cursor) : Except Malformed (Char × Cursor) :=
  let fail (problem : String) : Except Malformed (Char × Cursor) :=
    .error ⟨problem, c.mark, some ("while parsing a quoted scalar", start)⟩
  match c.ahead 1 with
  | none => fail "found unknown escape character"
  | some letter =>
    match shortEscape? letter, codeDigits? letter with
    | some char, _ => .ok (char, c.skip 2)
    | none, none => fail "found unknown escape character"
    | none, some count =>
      let digits := (c.rest.drop 2).take count
      match if digits.length == count then hexNumber? digits else none with
      | none => fail "did not find expected hexdecimal number"
      | some n =>
        if (0xd800 ≤ n && n ≤ 0xdfff) || n > 0x10ffff then
          fail "found invalid Unicode character escape code"
        else .ok (Char.ofNat n, c.skip (2 + count))

/-- Whether a character stands for itself in a quoted scalar. -/
def isOrdinary (single : Bool) (x : Char) : Bool :=
  !isBlankChar x && !isBreakChar x && if single then x != '\x27' else x != '\x22' && x != '\\'

/-- Reads up to a gap, the closing quote, or a backslash that ends its line; the flag says whether
it was the last. -/
def readQuotedWord (single : Bool) (start : Mark) (fuel : Nat) (done : List Char) (c : Cursor) :
    Except Malformed (List Char × Bool × Cursor) :=
  let (run, c) := c.takeWhile (isOrdinary single)
  let done := done ++ run
  match fuel, c.head with
  | fuel + 1, some x =>
    if single && x == '\x27' && c.ahead 1 == some '\x27' then
      readQuotedWord single start fuel (done ++ ['\x27']) (c.skip 2)
    else if !single && x == '\\' then
      if isBreak (c.ahead 1) then .ok (done, true, (c.skip 1).skipBreak)
      else
        match readEscape start c with
        | .error e => .error e
        | .ok (char, c) => readQuotedWord single start fuel (done ++ [char]) c
    else .ok (done, false, c)
  | _, _ => .ok (done, false, c)

def quotedFrom (single : Bool) (start : Mark) (fuel : Nat) (c : Cursor) :
    Except Malformed ReadScalar :=
  let fail (problem : String) : Except Malformed ReadScalar :=
    .error ⟨problem, c.mark, some (quotedContext, start)⟩
  match fuel with
  | 0 => fail "found unexpected end of stream"
  | fuel + 1 =>
    if c.atDocumentMark then fail "found unexpected document indicator"
    else if c.head.isNone then fail "found unexpected end of stream"
    else
      match readQuotedWord single start fuel [] c with
      | .error e => .error e
      | .ok (word, joined, c) =>
        if c.head == some (if single then '\x27' else '\x22') then .ok ⟨word, false, c.skip 1⟩
        else
          match readGap 0 (fun mark => ⟨"", mark, none⟩) fuel { broken := joined } c with
          | .error e => .error e
          | .ok (gap, c) => (quotedFrom single start fuel c).map (·.after (word ++ gap.text))

/-- Reads a quoted scalar from its opening quote on. -/
def readQuoted (single : Bool) (c : Cursor) : Except Malformed ReadScalar :=
  quotedFrom single c.mark (c.rest.length + 1) (c.skip 1)

/-! ## Block scalars -/

/-- What becomes of the breaks at the end of a block scalar. -/
inductive Chomping where
  | strip
  | clip
  | keep
  deriving DecidableEq, Repr

def blockContext : String := "while scanning a block scalar"

def chomping? : Option Char → Option Chomping
  | some '+' => some .keep
  | some '-' => some .strip
  | _ => none

/-- The indentation digit here: none, or a digit that may be zero. -/
def indentDigit? (c : Cursor) : Option Nat :=
  match c.head with
  | some d => if d.isDigit then some (d.toNat - '0'.toNat) else none
  | none => none

/-- The chomping and the indentation digit after a block indicator, in either order. -/
def readBlockHeader (start : Mark) (c : Cursor) :
    Except Malformed (Chomping × Option Nat × Cursor) :=
  let zero (c : Cursor) : Malformed :=
    ⟨"found an indentation indicator equal to 0", c.mark, some (blockContext, start)⟩
  match chomping? c.head with
  | some chomping =>
    let c := c.skip 1
    match indentDigit? c with
    | some 0 => .error (zero c)
    | some digit => .ok (chomping, some digit, c.skip 1)
    | none => .ok (chomping, none, c)
  | none =>
    match indentDigit? c with
    | some 0 => .error (zero c)
    | some digit =>
      let c := c.skip 1
      match chomping? c.head with
      | some chomping => .ok (chomping, some digit, c.skip 1)
      | none => .ok (.clip, some digit, c)
    | none => .ok (.clip, none, c)

/-- Passes blank lines and the indentation of the next line: at most `indent` spaces, or any number
where the indentation is not known yet. Gives the breaks and the widest indentation met. -/
def readBlankLines (indent : Option Nat) (start : Mark) (fuel : Nat) (breaks : List Char)
    (widest : Nat) (c : Cursor) : Except Malformed (List Char × Nat × Cursor) :=
  match fuel with
  | 0 => .ok (breaks, widest, c)
  | fuel + 1 =>
    let spaces := (c.rest.takeWhile (· == ' ')).length
    let c := c.skip (match indent with
      | some indent => min spaces (indent - c.column)
      | none => spaces)
    let widest := max widest c.column
    if indent.all (c.column < ·) && c.head == some '\t' then
      .error ⟨"found a tab character where an indentation space is expected", c.mark,
        some (blockContext, start)⟩
    else if isBreak c.head then
      let (line, c) := c.readBreak
      readBlankLines indent start fuel (breaks ++ line) widest c
    else .ok (breaks, widest, c)

/-- Reads the lines of a block scalar. `last` is the break after the line before and `breaks` are
those of the blank lines after it; `indented` says whether that line started with a blank. -/
def readBlockLines (folds : Bool) (chomping : Chomping) (indent : Nat) (start : Mark) (fuel : Nat)
    (last breaks : List Char) (indented : Bool) (c : Cursor) : Except Malformed ReadScalar :=
  match fuel with
  | 0 => .ok ⟨[], false, c⟩
  | fuel + 1 =>
    if c.column == indent && c.head.isSome then
      let blank := isBlank c.head
      let joint :=
        if folds && last == ['\n'] && !indented && !blank then
          if breaks.isEmpty then [' '] else []
        else last
      let (line, c) := c.takeWhile (!isBreakChar ·)
      let (last, c) := c.readBreak
      match readBlankLines (some indent) start fuel [] 0 c with
      | .error e => .error e
      | .ok (others, _, c) =>
        (readBlockLines folds chomping indent start fuel last others blank c).map
          (·.after (joint ++ breaks ++ line))
    else
      let ending := match chomping with
        | .strip => []
        | .clip => last
        | .keep => last ++ breaks
      .ok ⟨ending, false, c⟩

/-- Reads a block scalar from its indicator on, where the block around it is indented by
`parent` columns, or not at all. -/
def readBlock (folds : Bool) (parent : Option Nat) (c : Cursor) : Except Malformed ReadScalar := do
  let start := c.mark
  let (chomping, digit, c) ← readBlockHeader start (c.skip 1)
  let c := (c.skipWhile isBlankChar).skipComment
  if !isBreakOrEnd c.head then
    throw ⟨"did not find expected comment or line break", c.mark, some (blockContext, start)⟩
  let c := c.skipBreak
  let fixed := digit.map (parent.getD 0 + ·)
  let (breaks, widest, c) ← readBlankLines fixed start (c.rest.length + 1) [] 0 c
  let least := match parent with
    | some parent => parent + 1
    | none => 1
  let indent := fixed.getD (max widest least)
  readBlockLines folds chomping indent start (c.rest.length + 1) [] breaks false c

end TermMarkup.Yaml
