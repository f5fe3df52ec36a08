/-
Records in untyped trees. An object gives its fields by name, in the order of their keys; an array
gives them by position. The first fault is the one reported.
-/
import TermMarkup.Record

namespace TermMarkup

namespace Record

/-- What a tree is, as faults name it. -/
def treeText : Raw → String
  | .null => "null"
  | .bool true => "boolean `true`"
  | .bool false => "boolean `false`"
  | .number (.int n) => "integer `" ++ Number.intText n ++ "`"
  | .number (.double x) => "floating point `" ++ x.text .tree ++ "`"
  | .string s => "string " ++ Text.quote s
  | .array _ => "sequence"
  | .object _ => "map"

/-- Reads a value that may be null. -/
def optional {α : Type} (read : Raw → Except RecordFault α) : Raw → Except RecordFault (Option α)
  | .null => .ok none
  | raw => (read raw).map some

def variantNamed {α : Type} (spellings : List (String × α)) (name : String) :
    Except RecordFault α :=
  match spellings.lookup name with
  | some value => .ok value
  | none => .error (.unknownVariant name (spellings.map Prod.fst))

/-- Reads a variant: its name, or an object with its name as only key and null as the value. -/
def variant {α : Type} (spellings : List (String × α)) : Raw → Except RecordFault α
  | .string name => variantNamed spellings name
  | .object [(name, value)] => do
    let variant ← variantNamed spellings name
    match value with
    | .null => return variant
    | other => throw (.invalidType (treeText other) "unit")
  | .object _ => .error (.invalidValue "map" "map with a single key")
  | other => .error (.invalidType (treeText other) "string or map")

def treeFlag : Raw → Except RecordFault Bool
  | .bool flag => .ok flag
  | other => .error (.invalidType (treeText other) "a boolean")

def treeCount : Raw → Except RecordFault Count
  | .number (.int n) =>
    match if 0 ≤ n then Count.ofNat? n.toNat else none with
    | some count => .ok count
    | none => .error (.invalidValue (treeText (.int n)) "u16")
  | other => .error (.invalidType (treeText other) "u16")

def treeString : Raw → Except RecordFault String
  | .string s => .ok s
  | other => .error (.invalidType (treeText other) "a string")

/-- Goes through the fields of a record in a tree. -/
def treeRecord {σ : Type} (name : String) (fields : List String)
    (set : σ → String → Raw → Except RecordFault σ) (start : σ) : Raw → Except RecordFault σ
  | .object given =>
    given.foldlM (fun done field =>
      if fields.contains field.1 then set done field.1 field.2
      else .error (.unknownField field.1 fields)) start
  | .array items => do
    let done ← (fields.zip items).foldlM (fun done field => set done field.1 field.2) start
    if items.length > fields.length then
      throw (.tooManyItems items.length)
    return done
  | other => .error (.invalidType (treeText other) ("struct " ++ name))

/-- Untyped trees as a source of records. -/
def tree : Source Raw (Except RecordFault) where
  color := optional (variant Color.spellings)
  underline := optional (variant Underline.spellings)
  flag := optional treeFlag
  count := optional treeCount
  text := optional treeString
  record := treeRecord

end Record

/-- The style a tree holds. -/
def Style.ofRaw (raw : Raw) : Except RecordFault Style := Record.style Record.tree raw

/-- The theme a tree holds. -/
def Theme.ofRaw (raw : Raw) : Except RecordFault Theme := Record.theme Record.tree raw

end TermMarkup
