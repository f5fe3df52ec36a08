/-
From tokens to events. A node is an alias, a scalar or a collection, the last two with an anchor
and a tag before them; where a node is left out, an empty scalar takes its place.
-/
import TermMarkup.Yaml.Event
import TermMarkup.Yaml.Token.Lexer

namespace TermMarkup.Yaml

/-- What was read of a document. -/
structure Progress where
  lexer : Lexer
  document : Document := {}
  /-- The numbers of the anchors by name. -/
  anchors : List (String × Nat) := []
  /-- The meanings of tag handles. -/
  handles : List (String × List UInt8) := []

/-- Why reading stops: at a fault of the text, or for want of fuel, which there is always enough
of. -/
inductive Stop where
  | malformed (fault : Malformed)
  | outOfFuel
  deriving DecidableEq, Repr

abbrev EventReader := ExceptT Stop (StateM Progress)

def refuseText {α : Type} (fault : Malformed) : EventReader α :=
  throw (.malformed fault)

def lexing {α : Type} (action : Lexing α) : EventReader α := do
  let p ← get
  match action.run p.lexer with
  | .ok (value, lexer) => set { p with lexer }; return value
  | .error fault => refuseText fault

def peekSign : EventReader Sign := do
  return (← lexing peekToken).sign

def emit (event : Event) (mark : Mark) : EventReader Unit :=
  modify fun p => { p with document.events := p.document.events.push (event, mark) }

def emitEmpty (mark : Mark) : EventReader Unit :=
  emit (.scalar ⟨"", .plain, none⟩) mark

/-! ## Anchors and tags -/

/-- Names the node that is emitted next. Its number is the count of the names known so far. -/
def nameNext : Option String → EventReader Unit
  | none => return
  | some name =>
    modify fun p =>
      let number := p.anchors.length
      let others := p.anchors.filter (·.1 != name)
      { p with
        anchors := (name, number) :: others
        document.anchored := (number, p.document.events.size) :: p.document.anchored }

def emitAlias (name : String) (mark : Mark) : EventReader Unit := do
  match (← get).anchors.lookup name with
  | some number => emit (.alias number) mark
  | none => refuseText ⟨"unknown anchor", mark, none⟩

/-- The tag that a handle and what follows it stand for. -/
def expandTag (start : Mark) (token : Token) (handle : String) (suffix : List UInt8) :
    EventReader NodeTag := do
  if handle.isEmpty then
    return ⟨suffix⟩
  match (← get).handles.lookup handle with
  | some meaning => return ⟨meaning ++ suffix⟩
  | none =>
    refuseText ⟨"found undefined tag handle", token.start, some ("while parsing a node", start)⟩

/-- The anchor and the tag of a node, and where it starts. -/
structure Properties where
  anchor : Option String := none
  tag : Option NodeTag := none
  start : Mark

/-- Reads the anchor and the tag before a node, in either order. -/
def readProperties : EventReader Properties := do
  let first ← lexing peekToken
  match first.sign with
  | .anchor name =>
    lexing skipToken
    let second ← lexing peekToken
    match second.sign with
    | .tag handle suffix =>
      lexing skipToken
      let _ ← peekSign
      return ⟨some name, some (← expandTag first.start second handle suffix), first.start⟩
    | _ => return ⟨some name, none, first.start⟩
  | .tag handle suffix =>
    lexing skipToken
    let second ← lexing peekToken
    match second.sign with
    | .anchor name =>
      lexing skipToken
      let _ ← peekSign
      return ⟨some name, some (← expandTag first.start first handle suffix), first.start⟩
    | _ => return ⟨none, some (← expandTag first.start first handle suffix), first.start⟩
  | _ => return ⟨none, none, first.start⟩

/-! ## Nodes -/

/-- Whether a node is left out before a sign that ends or continues a block mapping. -/
def endsPair : Sign → Bool
  | .key | .value | .blockEnd => true
  | _ => false

def endsEntry : Sign → Bool
  | .blockEntry | .blockEnd => true
  | _ => false

def endsFlowPair : Sign → Bool
  | .flowEntry | .flowMappingEnd => true
  | _ => false

mutual

/-- Reads a node. Block collections are nodes only where `block` is set, and a sequence whose dashes
stand as far left as the keys around it only where `flush` is. A scalar keeps whatever tag is
written before it, also one that is an exclamation mark and no more. -/
def readNode (fuel : Nat) (block flush : Bool) : EventReader Unit := do
  match fuel with
  | 0 => throw .outOfFuel
  | fuel + 1 =>
    let token ← lexing peekToken
    match token.sign with
    | .alias name =>
      lexing skipToken
      emitAlias name token.start
    | _ =>
      let ⟨anchor, tag, start⟩ ← readProperties
      let token ← lexing peekToken
      let startCollection (event : Event) : EventReader Unit := do
        nameNext anchor
        emit event start
      match token.sign, block, flush with
      | .blockEntry, _, true =>
        startCollection (.sequenceStart tag)
        readFlushSequence fuel
      | .scalar text style, _, _ =>
        lexing skipToken
        nameNext anchor
        emit (.scalar ⟨text, style, tag⟩) start
      | .flowSequence, _, _ =>
        startCollection (.sequenceStart tag)
        lexing skipToken
        readFlowSequence fuel true start
      | .flowMapping, _, _ =>
        startCollection (.mappingStart tag)
        lexing skipToken
        readFlowMapping fuel true start
      | .blockSequence, true, _ =>
        startCollection (.sequenceStart tag)
        lexing skipToken
        readBlockSequence fuel start
      | .blockMapping, true, _ =>
        startCollection (.mappingStart tag)
        lexing skipToken
        readBlockMapping fuel start
      | _, _, _ =>
        if anchor.isNone && tag.isNone then
          refuseText ⟨"did not find expected node content", token.start,
            some (if block then "while parsing a block node" else "while parsing a flow node",
              start)⟩
        nameNext anchor
        emit (.scalar ⟨"", .plain, tag⟩) start

def readBlockSequence (fuel : Nat) (start : Mark) : EventReader Unit := do
  match fuel with
  | 0 => throw .outOfFuel
  | fuel + 1 =>
    let token ← lexing peekToken
    match token.sign with
    | .blockEntry =>
      lexing skipToken
      if endsEntry (← peekSign) then emitEmpty token.stop
      else readNode fuel true false
      readBlockSequence fuel start
    | .blockEnd =>
      lexing skipToken
      emit .sequenceEnd token.start
    | _ =>
      refuseText ⟨"did not find expected '-' indicator", token.start,
        some ("while parsing a block collection", start)⟩

def readFlushSequence (fuel : Nat) : EventReader Unit := do
  match fuel with
  | 0 => throw .outOfFuel
  | fuel + 1 =>
    let token ← lexing peekToken
    match token.sign with
    | .blockEntry =>
      lexing skipToken
      let next ← peekSign
      if endsEntry next || endsPair next then emitEmpty token.stop
      else readNode fuel true false
      readFlushSequence fuel
    | _ => emit .sequenceEnd token.start

def readBlockMapping (fuel : Nat) (start : Mark) : EventReader Unit := do
  match fuel with
  | 0 => throw .outOfFuel
  | fuel + 1 =>
    let token ← lexing peekToken
    match token.sign with
    | .key =>
      lexing skipToken
      if endsPair (← peekSign) then emitEmpty token.stop
      else readNode fuel true true
      let token ← lexing peekToken
      match token.sign with
      | .value =>
        lexing skipToken
        if endsPair (← peekSign) then emitEmpty token.stop
        else readNode fuel true true
      | _ => emitEmpty token.start
      readBlockMapping fuel start
    | .blockEnd =>
      lexing skipToken
      emit .mappingEnd token.start
    | _ =>
      refuseText ⟨"did not find expected key", token.start,
        some ("while parsing a block mapping", start)⟩

def readFlowSequence (fuel : Nat) (first : Bool) (start : Mark) : EventReader Unit := do
  match fuel with
  | 0 => throw .outOfFuel
  | fuel + 1 =>
    let token ← lexing peekToken
    if token.sign != .flowSequenceEnd && !first then
      if token.sign != .flowEntry then
        refuseText ⟨"did not find expected ',' or ']'", token.start,
          some ("while parsing a flow sequence", start)⟩
      lexing skipToken
    let token ← lexing peekToken
    match token.sign with
    | .flowSequenceEnd =>
      lexing skipToken
      emit .sequenceEnd token.start
    | .key =>
      emit (.mappingStart none) token.start
      lexing skipToken
      readSinglePair fuel
      readFlowSequence fuel false start
    | _ =>
      readNode fuel false false
      readFlowSequence fuel false start

/-- Reads the only pair of a mapping that is written without braces in a flow sequence. -/
def readSinglePair (fuel : Nat) : EventReader Unit := do
  match fuel with
  | 0 => throw .outOfFuel
  | fuel + 1 =>
    let ends (sign : Sign) : Bool := sign == .flowEntry || sign == .flowSequenceEnd
    let token ← lexing peekToken
    if token.sign == .value || ends token.sign then
      lexing skipToken
      emitEmpty token.stop
    else readNode fuel false false
    let token ← lexing peekToken
    if token.sign == .value then
      lexing skipToken
      let token ← lexing peekToken
      if ends token.sign then emitEmpty token.start
      else readNode fuel false false
    else emitEmpty token.start
    emit .mappingEnd (← lexing peekToken).start

def readFlowMapping (fuel : Nat) (first : Bool) (start : Mark) : EventReader Unit := do
  match fuel with
  | 0 => throw .outOfFuel
  | fuel + 1 =>
    let token ← lexing peekToken
    if token.sign != .flowMappingEnd && !first then
      if token.sign != .flowEntry then
        refuseText ⟨"did not find expected ',' or '\x7d'", token.start,
          some ("while parsing a flow mapping", start)⟩
      lexing skipToken
    let token ← lexing peekToken
    match token.sign with
    | .flowMappingEnd =>
      lexing skipToken
      emit .mappingEnd token.start
    | .key =>
      lexing skipToken
      let token ← lexing peekToken
      if token.sign == .value || endsFlowPair token.sign then emitEmpty token.start
      else readNode fuel false false
      let token ← lexing peekToken
      if token.sign == .value then
        lexing skipToken
        let token ← lexing peekToken
        if endsFlowPair token.sign then emitEmpty token.start
        else readNode fuel false false
      else emitEmpty token.start
      readFlowMapping fuel false start
    | _ =>
      readNode fuel false false
      emitEmpty (← lexing peekToken).start
      readFlowMapping fuel false start

end

/-! ## Documents -/

def defaultHandles : List (String × List UInt8) :=
  [("!", octets "!"), ("!!", NodeTag.coreStem)]

/-- Reads the directives of a document. -/
def readDirectives (fuel : Nat) (hasVersion : Bool) : EventReader Unit := do
  match fuel with
  | 0 => throw .outOfFuel
  | fuel + 1 =>
    let token ← lexing peekToken
    match token.sign with
    | .version major minor =>
      if hasVersion then
        refuseText ⟨"found duplicate %YAML directive", token.start, none⟩
      if major != 1 || (minor != 1 && minor != 2) then
        refuseText ⟨"found incompatible YAML document", token.start, none⟩
      lexing skipToken
      readDirectives fuel true
    | .handle handle meaning =>
      if ((← get).handles.lookup handle).isSome then
        refuseText ⟨"found duplicate %TAG directive", token.start, none⟩
      modify fun p => { p with handles := p.handles ++ [(handle, meaning)] }
      lexing skipToken
      readDirectives fuel hasVersion
    | _ => modify fun p => { p with handles := p.handles ++ defaultHandles }

/-- Whether a document without content ends before a sign. -/
def endsDocument : Sign → Bool
  | .version _ _ | .handle _ _ | .documentStart | .documentEnd | .streamEnd => true
  | _ => false

/-- Passes the marks after a document, which must be all that follows it. -/
def readRest (fuel : Nat) : EventReader Unit := do
  match fuel with
  | 0 => throw .outOfFuel
  | fuel + 1 =>
    let token ← lexing peekToken
    match token.sign with
    | .documentEnd => lexing skipToken; readRest fuel
    | .streamEnd => return
    | _ =>
      refuseText
        ⟨"deserializing from YAML containing more than one document is not supported", .start, none⟩

/-- Reads a document that starts with directives or with its mark. -/
def readMarkedDocument (fuel : Nat) : EventReader Unit := do
  readDirectives fuel false
  let token ← lexing peekToken
  if token.sign != .documentStart then
    refuseText ⟨"did not find expected <document start>", token.start, none⟩
  lexing skipToken
  let token ← lexing peekToken
  if endsDocument token.sign then emitEmpty token.start
  else readNode fuel true false
  readRest fuel

/-- Reads the only document of a text. -/
def readDocument (fuel : Nat) : EventReader Unit := do
  let token ← lexing peekToken
  match token.sign with
  | .streamEnd => emit .void token.start
  | .version _ _ | .handle _ _ | .documentStart => readMarkedDocument fuel
  | _ =>
    modify fun p => { p with handles := defaultHandles }
    readNode fuel true false
    readRest fuel

/-- The fuel that is enough to read the document of a text. -/
def fuelFor (text : String) : Nat :=
  8 * text.length + 2

/-- The document of a text. -/
def Document.ofText (text : String) : Document :=
  let (outcome, progress) := (readDocument (fuelFor text)).run.run { lexer := .ofText text }
  match outcome with
  | .ok () | .error .outOfFuel => progress.document
  | .error (.malformed fault) => { progress.document with fault := some fault }

end TermMarkup.Yaml
