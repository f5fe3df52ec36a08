/-
Reading tokens on demand. A colon may turn what was read before it into a key, so a token that may
start a key is held back until that is settled: by its colon, by the end of its line, or by its
length. Indentation opens and closes block collections. A text is taken in by blocks; a character
that no text may hold is a fault once its block is needed.
-/
import TermMarkup.Yaml.Token.Tag

namespace TermMarkup.Yaml

/-- A token that becomes a key if a colon follows what it starts. -/
structure Candidate where
  /-- Where no other reading is left. -/
  required : Bool
  /-- The number of the token, counted from the start of the text. -/
  number : Nat
  mark : Mark
  deriving DecidableEq, Repr

structure Lexer where
  cursor : Cursor
  /-- The number of octets of the text. -/
  total : Nat
  /-- Whether what follows the text of the cursor cannot be taken in. -/
  cut : Bool := false
  /-- Tokens that were read and not yet taken. -/
  queue : List Token := []
  /-- The number of tokens taken. -/
  taken : Nat := 0
  /-- The columns of the open block collections, innermost first. -/
  indents : List Nat := []
  /-- The candidates of the open flow collections, innermost first. -/
  flows : List (Option Candidate) := []
  /-- The candidate outside of flow collections. -/
  block : Option Candidate := none
  /-- Whether a key may start here. -/
  keyAllowed : Bool := true

abbrev Lexing := StateT Lexer (Except Malformed)

/-- The number of octets in a block of text. -/
def blockSize : Nat := 16384

/-- The block at the start of some characters, of which whole characters are taken while they fit
into `room`, and what follows it. -/
def takeBlock (room : Nat) : List Char → List Char × List Char
  | [] => ([], [])
  | c :: cs =>
    if c.utf8Size ≤ room then
      let (block, rest) := takeBlock (room - c.utf8Size) cs
      (c :: block, rest)
    else ([], c :: cs)

/-- The blocks before the first that holds a character no text may hold, and whether there is such a
block. -/
def takeBlocks (fuel : Nat) (cs : List Char) : List Char × Bool :=
  match fuel, cs with
  | 0, _ | _, [] => ([], false)
  | fuel + 1, cs =>
    let (block, rest) := takeBlock blockSize cs
    if block.all isAllowed then
      let (others, cut) := takeBlocks fuel rest
      (block ++ others, cut)
    else ([], true)

namespace Lexer

/-- The lexer at the start of a text. -/
def ofText (text : String) : Lexer :=
  let (cs, cut) := takeBlocks (text.length + 1) text.toList
  { cursor := ⟨cs, .start⟩, total := size cs, cut }

/-- The number of octets left, which bounds the number of characters left. -/
def left (l : Lexer) : Nat := l.total - l.cursor.mark.index

def inFlow (l : Lexer) : Bool := !l.flows.isEmpty

/-- The candidate of the innermost flow collection, or that of the block. -/
def candidate (l : Lexer) : Option Candidate :=
  match l.flows with
  | candidate :: _ => candidate
  | [] => l.block

def withCandidate (l : Lexer) (candidate : Option Candidate) : Lexer :=
  match l.flows with
  | _ :: outer => { l with flows := candidate :: outer }
  | [] => { l with block := candidate }

def candidates (l : Lexer) : List Candidate :=
  (l.block :: l.flows.reverse).filterMap id

def push (l : Lexer) (token : Token) : Lexer :=
  { l with queue := l.queue ++ [token] }

/-- Whether a block at a column lies deeper than the open ones. -/
def isDeeper (l : Lexer) (column : Nat) : Bool :=
  l.indents.head?.all (· < column)

/-- Opens a block collection at a column, unless one is open there; the opening token goes before
the token with the given number, or after all others. -/
def openBlock (l : Lexer) (column : Nat) (number : Option Nat) (sign : Sign) (mark : Mark) :
    Lexer :=
  if l.inFlow || !l.isDeeper column then l
  else
    let place := match number with
      | some number => number - l.taken
      | none => l.queue.length
    { l with
      indents := column :: l.indents
      queue := l.queue.take place ++ ⟨sign, mark, mark⟩ :: l.queue.drop place }

/-- Closes the block collections deeper than a column; without a column, all. -/
def closeBlocks (l : Lexer) (column : Option Nat) : Lexer :=
  if l.inFlow then l
  else
    let isClosed (indent : Nat) : Bool := column.all (· < indent)
    let mark := l.cursor.mark
    let closed := l.indents.takeWhile isClosed
    { l with
      indents := l.indents.dropWhile isClosed
      queue := l.queue ++ closed.map fun _ => ⟨.blockEnd, mark, mark⟩ }

end Lexer

/-! ## Candidates -/

def missingColon (l : Lexer) (candidate : Candidate) : Malformed :=
  ⟨"could not find expected ':'", l.cursor.mark,
    some ("while scanning a simple key", candidate.mark)⟩

/-- Whether a candidate is out of reach: on an earlier line, or too far back. -/
def isStale (l : Lexer) (candidate : Candidate) : Bool :=
  candidate.mark.line < l.cursor.mark.line || candidate.mark.index + 1024 < l.cursor.mark.index

/-- Drops the candidates that are out of reach. -/
def dropStale : Lexing Unit := do
  let l ← get
  match l.candidates.find? fun candidate => isStale l candidate && candidate.required with
  | some candidate => throw (missingColon l candidate)
  | none =>
    let fresh (candidate : Option Candidate) : Option Candidate := candidate.filter (!isStale l ·)
    set { l with block := fresh l.block, flows := l.flows.map fresh }

/-- Gives up the current candidate. -/
def dropCandidate : Lexing Unit := do
  let l ← get
  match l.candidate with
  | some candidate =>
    if candidate.required then
      throw (missingColon l candidate)
    set (l.withCandidate none)
  | none => return

/-- Makes the token that is read next the candidate, where a key may start. -/
def saveCandidate : Lexing Unit := do
  let l ← get
  if l.keyAllowed then
    dropCandidate
    let required := !l.inFlow && l.indents.head? == some l.cursor.column
    modify (·.withCandidate (some ⟨required, l.taken + l.queue.length, l.cursor.mark⟩))

def allowKey (allowed : Bool) : Lexing Unit :=
  modify ({ · with keyAllowed := allowed })

/-- Makes sure that `n` characters from here on are known, or that the text ends before. -/
def lookAhead (n : Nat) : Lexing Unit := do
  let l ← get
  if l.cut && (l.cursor.rest.take n).length < n then
    throw ⟨"control characters are not allowed", l.cursor.mark, none⟩

/-! ## Single tokens -/

/-- Takes the next `length` characters as a token. -/
def takeSign (sign : Sign) (length : Nat) : Lexing Unit :=
  modify fun l =>
    let stop := l.cursor.skip length
    { l.push ⟨sign, l.cursor.mark, stop.mark⟩ with cursor := stop }

/-- Takes what a function reads as a token. -/
def takeRead (read : Cursor → Except Malformed (Sign × Cursor)) : Lexing Unit := do
  let l ← get
  let (sign, stop) ← read l.cursor
  set { l.push ⟨sign, l.cursor.mark, stop.mark⟩ with cursor := stop }

/-- Takes a scalar that a function reads as a token. -/
def takeScalar (style : ScalarStyle) (read : Cursor → Except Malformed ReadScalar) :
    Lexing Unit := do
  let l ← get
  let scalar ← read l.cursor
  set { l.push ⟨.scalar (String.ofList scalar.text) style, l.cursor.mark, scalar.cursor.mark⟩ with
    cursor := scalar.cursor
    keyAllowed := l.keyAllowed || scalar.broken }

/-- Takes the end of the text, which stands on a line of its own. -/
def takeStreamEnd : Lexing Unit := do
  modify fun l =>
    let mark := l.cursor.mark
    let mark := if mark.column == 0 then mark else ⟨mark.line + 1, 0, mark.index⟩
    { l with cursor := { l.cursor with mark } }
  modify (·.closeBlocks none)
  dropCandidate
  allowKey false
  takeSign .streamEnd 0

def takeDirective : Lexing Unit := do
  modify (·.closeBlocks none)
  dropCandidate
  allowKey false
  takeRead readDirective

def takeDocumentMark (sign : Sign) : Lexing Unit := do
  modify (·.closeBlocks none)
  dropCandidate
  allowKey false
  takeSign sign 3

def takeFlowStart (sign : Sign) : Lexing Unit := do
  saveCandidate
  modify fun l => { l with flows := none :: l.flows }
  allowKey true
  takeSign sign 1

def takeFlowEnd (sign : Sign) : Lexing Unit := do
  dropCandidate
  modify fun l => { l with flows := l.flows.drop 1 }
  allowKey false
  takeSign sign 1

def takeFlowEntry : Lexing Unit := do
  dropCandidate
  allowKey true
  takeSign .flowEntry 1

/-- Opens the block collection of an entry, key or value that stands here, which must be where a key
may start. -/
def startEntry (sign : Sign) (problem : String) : Lexing Unit := do
  let l ← get
  if !l.inFlow then
    if !l.keyAllowed then
      throw ⟨problem, l.cursor.mark, none⟩
    set (l.openBlock l.cursor.column none sign l.cursor.mark)

def takeBlockEntry : Lexing Unit := do
  startEntry .blockSequence "block sequence entries are not allowed in this context"
  dropCandidate
  allowKey true
  takeSign .blockEntry 1

def takeKey : Lexing Unit := do
  startEntry .blockMapping "mapping keys are not allowed in this context"
  dropCandidate
  allowKey (!(← get).inFlow)
  takeSign .key 1

/-- Takes the colon before a value; it makes the candidate, if there is one, a key. -/
def takeValue : Lexing Unit := do
  let l ← get
  match l.candidate with
  | some candidate =>
    let place := candidate.number - l.taken
    let key : Token := ⟨.key, candidate.mark, candidate.mark⟩
    let l := { l with queue := l.queue.take place ++ key :: l.queue.drop place }
    set ((l.openBlock candidate.mark.column (some candidate.number) .blockMapping
      candidate.mark).withCandidate none)
    allowKey false
  | none =>
    startEntry .blockMapping "mapping values are not allowed in this context"
    allowKey (!(← get).inFlow)
  takeSign .value 1

def takeAnchor (isAlias : Bool) : Lexing Unit := do
  saveCandidate
  allowKey false
  takeRead (readAnchor isAlias)

def takeTag : Lexing Unit := do
  saveCandidate
  allowKey false
  takeRead (readTag (← get).inFlow)

def takeBlockScalar (style : ScalarStyle) : Lexing Unit := do
  dropCandidate
  allowKey true
  takeScalar style (readBlock (style == .folded) (← get).indents.head?)

def takeQuoted (style : ScalarStyle) : Lexing Unit := do
  saveCandidate
  allowKey false
  takeScalar style (readQuoted (style == .singleQuoted))

def takePlain : Lexing Unit := do
  saveCandidate
  allowKey false
  let l ← get
  let indent := match l.indents.head? with
    | some indent => indent + 1
    | none => 0
  takeScalar .plain (readPlain l.inFlow indent)
  lookAhead 2

/-! ## The next token -/

/-- Passes blanks, comments and breaks. Tabs count as blanks where no key may start, and a byte
order mark is passed at the start of any line. -/
def skipGap (fuel : Nat) : Lexing Unit := do
  match fuel with
  | 0 => return
  | fuel + 1 =>
    let l ← get
    let c := if l.cursor.column == 0 && l.cursor.head == some '\ufeff' then l.cursor.skip 1
      else l.cursor
    let isGap (x : Char) : Bool := x == ' ' || (x == '\t' && (l.inFlow || !l.keyAllowed))
    let c := (c.skipWhile isGap).skipComment
    if isBreak c.head then
      set { l with cursor := c.skipBreak, keyAllowed := l.keyAllowed || !l.inFlow }
      skipGap fuel
    else set { l with cursor := c }

/-- The characters that have a meaning of their own at the start of a token. -/
def indicators : List Char := "-?:,[]\x7b\x7d#&*!|>\x27\x22%@\x60".toList

/-- Whether a plain scalar may start with `c`, which `next` follows. -/
def startsPlain (flow : Bool) (c : Char) (next : Option Char) : Bool :=
  (!isGapOrEnd (some c) && !indicators.contains c) || (c == '-' && !isBlank next) ||
    (!flow && (c == '?' || c == ':') && !isGapOrEnd next)

/-- Takes the token that starts here. -/
def takeToken : Lexing Unit := do
  let l ← get
  let c := l.cursor
  let flow := l.inFlow
  match c.head with
  | none => takeStreamEnd
  | some x =>
    let gap := isGapOrEnd (c.ahead 1)
    if c.column == 0 && x == '%' then takeDirective
    else if c.isAt '-' then takeDocumentMark .documentStart
    else if c.isAt '.' then takeDocumentMark .documentEnd
    else if x == '[' then takeFlowStart .flowSequence
    else if x == '\x7b' then takeFlowStart .flowMapping
    else if x == ']' then takeFlowEnd .flowSequenceEnd
    else if x == '\x7d' then takeFlowEnd .flowMappingEnd
    else if x == ',' then takeFlowEntry
    else if x == '-' && gap then takeBlockEntry
    else if x == '?' && (flow || gap) then takeKey
    else if x == ':' && (flow || gap) then takeValue
    else if x == '*' then takeAnchor true
    else if x == '&' then takeAnchor false
    else if x == '!' then takeTag
    else if x == '|' && !flow then takeBlockScalar .literal
    else if x == '>' && !flow then takeBlockScalar .folded
    else if x == '\x27' then takeQuoted .singleQuoted
    else if x == '\x22' then takeQuoted .doubleQuoted
    else if startsPlain flow x (c.ahead 1) then takePlain
    else
      throw ⟨"found character that cannot start any token", c.mark,
        some ("while scanning for the next token", c.mark)⟩

/-- Reads one more token from the text. -/
def readToken : Lexing Unit := do
  skipGap ((← get).left + 1)
  lookAhead 1
  dropStale
  modify fun l => l.closeBlocks (some l.cursor.column)
  lookAhead 4
  takeToken
  lookAhead 1

/-- Reads until the first token of the queue can no longer become a key. -/
def fillQueue (fuel : Nat) : Lexing Unit := do
  match fuel with
  | 0 => return
  | fuel + 1 =>
    if !(← get).queue.isEmpty then
      dropStale
      let l ← get
      if !(l.candidates.any (·.number == l.taken)) then
        return
    readToken
    fillQueue fuel

/-- The next token, which stays where it is. -/
def peekToken : Lexing Token := do
  fillQueue ((← get).left + 2)
  let l ← get
  match l.queue with
  | token :: _ => return token
  | [] => return ⟨.streamEnd, l.cursor.mark, l.cursor.mark⟩

/-- Passes the next token. -/
def skipToken : Lexing Unit :=
  modify fun l => { l with queue := l.queue.drop 1, taken := l.taken + 1 }

end TermMarkup.Yaml
