/-
Records in YAML documents. A mapping gives the fields by name, each at most once; an empty document
and an empty value are records without fields. The nodes are read in order, so a fault of the data
is met before a fault of the text behind it.
-/
import TermMarkup.Record
import TermMarkup.Yaml.Event.Reader
import TermMarkup.Yaml.Plain

namespace TermMarkup.Yaml

/-- Where a fault of the data is: the node and the keys that lead to it. -/
structure Place where
  mark : Mark
  path : String
  deriving DecidableEq, Repr

/-- Why a document holds no record. -/
inductive Failure where
  | data (fault : RecordFault) (place : Option Place)
  | malformed (fault : Malformed)
  deriving DecidableEq, Repr

def Failure.message : Failure → String
  | data fault none => fault.message
  | data fault (some place) =>
    (if place.path.isEmpty then "" else place.path ++ ": ") ++ fault.message ++ place.mark.suffix
  | malformed fault => fault.message

/-- A reader of nodes: the number of the next event goes along. -/
abbrev NodeReader := StateT Nat (Except Failure)

def refuse {α : Type} (fault : RecordFault) : NodeReader α :=
  throw (.data fault none)

/-- Gives a fault of the data a place, unless it has one. -/
def placing {α : Type} (mark : Mark) (path : String) (read : NodeReader α) :
    NodeReader α := fun n =>
  match read n with
  | .error (.data fault none) => .error (.data fault (some ⟨mark, path⟩))
  | outcome => outcome

/-- The path of a field. -/
def childPath (path key : String) : String :=
  if path.isEmpty then key else path ++ "." ++ key

namespace Document

/-- The next event, which stays where it is. -/
def peek (d : Document) : NodeReader (Event × Mark) := do
  match d.events[← get]? with
  | some event => return event
  | none => throw (.malformed (d.fault.getD ⟨"EOF while parsing a value", .start, none⟩))

def take (d : Document) : NodeReader (Event × Mark) := do
  let event ← d.peek
  modify (· + 1)
  return event

/-- Reads the next node; an alias is read as the node it stands for. -/
def onNode {α : Type} (d : Document) (read : Event → Mark → NodeReader α) : NodeReader α := do
  let (event, mark) ← d.take
  match event with
  | .alias number =>
    let after ← get
    set ((d.anchored.lookup number).getD after)
    let (event, mark) ← d.take
    let value ← read event mark
    set after
    return value
  | event => read event mark

end Document

/-! ## Faults -/

/-- What is said of a scalar in the place of what is wanted. A scalar whose tag it does not fit is
refused for that. -/
def scalarFault (want : String) (s : Scalar) : RecordFault :=
  let typed (kind : String) (meaning : Option String) : RecordFault :=
    match meaning with
    | some got => .invalidType got want
    | none => .invalidValue (stringText s.text) kind
  match s.tag with
  | none => .invalidType (if s.style = .plain then plainText s.text else stringText s.text) want
  | some tag =>
    if tag == .core "bool" then typed "a boolean" ((readFlag? s.text).map flagText)
    else if tag == .core "int" then typed "an integer" (integerText? s.text.toList)
    else if tag == .core "float" then typed "a float" ((readDouble? s.text.toList).map doubleText)
    else if tag == .core "null" then
      typed "null" (if isNull s.text then some "unit value" else none)
    else if tag.isOwn && s.style = .plain then .invalidType (plainText s.text) want
    else .invalidType (stringText s.text) want

/-- What is said of a node in the place of what is wanted. -/
def eventFault (want : String) : Event → RecordFault
  | .scalar s => scalarFault want s
  | .sequenceStart _ => .invalidType "sequence" want
  | .mappingStart _ => .invalidType "map" want
  | _ => .invalidType "unit value" want

/-! ## Leaves -/

/-- Whether a node leaves its field unset. -/
def isUnset : Event → NodeReader Bool
  | .void => return true
  | .scalar s => do
    if s.style != .plain then
      return false
    match s.tag with
    | none => return s.text.isEmpty || isNull s.text
    | some tag =>
      if tag == .core "null" then
        if isNull s.text then return true
        else refuse (.invalidValue (stringText s.text) "null")
      else return false
  | _ => return false

/-- Reads a field that may be unset. -/
def optional {α : Type} (d : Document) (read : Event → Mark → String → NodeReader α)
    (path : String) : NodeReader (Option α) :=
  d.onNode fun event mark => do
    if ← isUnset event then return none
    else return some (← read event mark path)

/-- The text of a scalar that is plain, or a block scalar with the given core tag. -/
def bareText? (name : String) (s : Scalar) : Option String :=
  if s.style = .plain || (s.style = .literal && s.tag == some (.core name)) then some s.text
  else none

def flagOf (event : Event) (mark : Mark) (path : String) : NodeReader Bool :=
  let flag := match event with
    | .scalar s => (bareText? "bool" s).bind readFlag?
    | _ => none
  match flag with
  | some flag => return flag
  | none => placing mark path (refuse (eventFault "a boolean" event))

def countOf (event : Event) (mark : Mark) (path : String) : NodeReader Count :=
  let number := match event with
    | .scalar s => (bareText? "int" s).bind fun text => readUnsigned? (Nat.pow 2 64) text.toList
    | _ => none
  placing mark path <|
    match number with
    | some n =>
      match Count.ofNat? n with
      | some count => return count
      | none => refuse (.invalidValue (integerText n "") "u16")
    | none => refuse (eventFault "u16" event)

def textOf (event : Event) (mark : Mark) (path : String) : NodeReader String :=
  match event with
  | .scalar s => return s.text
  | event => placing mark path (refuse (eventFault "a string" event))

def named {α : Type} (spellings : List (String × α)) (name : String) : NodeReader α :=
  match spellings.lookup name with
  | some value => return value
  | none => refuse (.unknownVariant name (spellings.map Prod.fst))

def Event.tag? : Event → Option NodeTag
  | .scalar s => s.tag
  | .sequenceStart tag | .mappingStart tag => tag
  | _ => none

/-- Reads the node of a variant that its tag names: there is nothing in it. -/
def nothingOf : Event → NodeReader Unit
  | .scalar s =>
    if s.style = .plain && (s.text.isEmpty || isNull s.text) then return
    else refuse (.invalidValue (stringText s.text) "null")
  | event => refuse (eventFault "unit" event)

/-- Reads a variant: its name as text, or as the tag of an empty node. A name that a tag gives wrong
is a fault of the record around the node. -/
def variantOf {α : Type} (spellings : List (String × α)) (event : Event) (mark : Mark)
    (path : String) : NodeReader α := do
  match event.tag?.bind NodeTag.name?, event with
  | some name, _ =>
    let value ← named spellings name
    placing mark path (nothingOf event)
    return value
  | none, .scalar s => placing mark path (named spellings s.text)
  | none, event => placing mark path (refuse (eventFault "a YAML tag starting with '!'" event))

/-! ## Records -/

/-- Reads the key of a field. -/
def fieldName (d : Document) (fields : List String) (path : String) : NodeReader String :=
  d.onNode fun event mark => placing mark path do
    match event with
    | .scalar s =>
      if fields.contains s.text then return s.text
      else refuse (.unknownField s.text fields)
    | event => refuse (eventFault "field identifier" event)

/-- Reads the fields of a mapping up to its end. -/
def readFields {σ : Type} (d : Document) (fields : List String)
    (set : σ → String → String → NodeReader σ) (path : String) (fuel : Nat) (seen : List String)
    (done : σ) : NodeReader σ := do
  match fuel with
  | 0 => return done
  | fuel + 1 =>
    match (← d.peek).1 with
    | .mappingEnd => modify (· + 1); return done
    | event =>
      let name ← fieldName d fields path
      if seen.contains name then
        refuse (.duplicateField name)
      let key := match event with
        | .scalar s => s.text
        | _ => "?"
      let done ← set done name (childPath path key)
      readFields d fields set path fuel (name :: seen) done

def readRecord (d : Document) {σ : Type} (name : String) (fields : List String)
    (set : σ → String → String → NodeReader σ) (start : σ) (path : String) : NodeReader σ :=
  d.onNode fun event mark => placing mark path do
    let want := "struct " ++ name
    match event with
    | .void => return start
    | .mappingStart _ => readFields d fields set path (d.events.size + 1) [] start
    | .scalar s =>
      if s.text.isEmpty && s.style = .plain then return start
      else refuse (scalarFault want s)
    | event => refuse (eventFault want event)

/-- A document as a source of records; a value is known by its path. -/
def Document.source (d : Document) : Record.Source String NodeReader where
  color := optional d (variantOf Color.spellings)
  underline := optional d (variantOf Underline.spellings)
  flag := optional d flagOf
  count := optional d countOf
  text := optional d textOf
  record := readRecord d

end TermMarkup.Yaml
