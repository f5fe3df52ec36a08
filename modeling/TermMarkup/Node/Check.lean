/-
Checking an untyped tree against the node schema. The check goes through the whole tree and reports
every issue, in the order in which it meets them: the kind of a node, the keys its kind does not
know, its attributes, its content. A tree without issues gives its typed nodes.
-/
import TermMarkup.Attribute
import TermMarkup.Node
import TermMarkup.Node.Issue

namespace TermMarkup

/-- A value, and the issues met on the way to it. With issues, the value is only a stand-in. -/
structure Checked (α : Type) where
  value : α
  issues : List Issue

namespace Checked

instance : Monad Checked where
  pure value := ⟨value, []⟩
  bind x f :=
    let y := f x.value
    ⟨y.value, x.issues ++ y.issues⟩

/-- Reports an issue and goes on with a stand-in. -/
def report {α : Type} (standIn : α) (path : Path) (cause : Issue.Cause) (found : Option Raw) :
    Checked α :=
  ⟨standIn, [⟨path, cause, found⟩]⟩

end Checked

namespace Node

open Checked

/-! ## Attribute values -/

def checkColor (path : Path) : Raw → Checked (Option Color)
  | .string name =>
    match Color.ofName? name with
    | some color => pure (some color)
    | none => report none path (.unknownColor name) (some (.string name))
  | other => report none path .colorNotString (some other)

def checkFlag (path : Path) (raw : Raw) : Checked (Option Bool) :=
  let flag := match raw with
    | .bool flag => some flag
    | .string written => Attribute.readFlag? written
    | _ => none
  match flag with
  | some flag => pure (some flag)
  | none => report none path .notFlag (some raw)

/-- The count an untyped number stands for. -/
def count? : Raw → Option Count
  | .number (.int (.ofNat n)) => Count.ofNat? n
  | _ => none

def checkCount (path : Path) (raw : Raw) : Checked (Option Count) :=
  match count? raw with
  | some count => pure (some count)
  | none => report none path .notCount (some raw)

def checkUnderline (path : Path) : Raw → Checked (Option Underline)
  | .bool true => pure (some .single)
  | .bool false => pure (some .off)
  | .string written =>
    match Underline.ofName? written with
    | some style => pure (some style)
    | none => report none path (.unknownUnderline written) (some (.string written))
  | other => report none path .notUnderline (some other)

def checkBullet (path : Path) : Raw → Checked (Option String)
  | .string bullet => pure (some bullet)
  | other => report none path .bulletNotString (some other)

/-! ## The attributes of a node -/

/-- The style with one more attribute of a styled node; other keys leave it as it is. -/
def checkSetting (kind : StyledKind) (path : Path) (style : Style) (field : String × Raw) :
    Checked Style :=
  let place := path ++ [.field field.1]
  let raw := field.2
  match Attribute.styledShape? kind field.1, field.1 with
  | some .color, "fg" => do
    return { style with font.fg := ← checkColor place raw }
  | some .color, _ => do
    return { style with font.bg := ← checkColor place raw }
  | some .flag, "bold" => do
    return { style with font.bold := ← checkFlag place raw }
  | some .flag, _ => do
    return { style with font.italics := ← checkFlag place raw }
  | some .underline, _ => do
    return { style with font.underline := ← checkUnderline place raw }
  | some .text, _ => do
    return { style with list.bullet := ← checkBullet place raw }
  | some .number, "margin" => do
    return { style with spacing.margin := ← checkCount place raw }
  | some .number, "marginLeft" => do
    return { style with spacing.left := ← checkCount place raw }
  | some .number, "marginRight" => do
    return { style with spacing.right := ← checkCount place raw }
  | some .number, "marginTop" => do
    return { style with spacing.top := ← checkCount place raw }
  | some .number, "marginBottom" => do
    return { style with spacing.bottom := ← checkCount place raw }
  | some .number, _ => do
    return { style with list.indent := ← checkCount place raw }
  | none, _ => pure style

def checkText (path : Path) (fields : List (String × Raw)) : Checked String :=
  let place := path ++ [.field "value"]
  match fields.lookup "value" with
  | some (.string value) => pure value
  | some other => report "" place .textNotString (some other)
  | none => report "" place .missingText none

def checkUnderlineType (path : Path) (fields : List (String × Raw)) : Checked Underline :=
  let place := path ++ [.field "type"]
  match fields.lookup "type" with
  | none => report .single place .missingUnderline none
  | some raw => do
    match ← checkUnderline place raw with
    | some .off => report .single place .underlineOff (some raw)
    | some style => pure style
    | none => pure .single

def checkColorField (path : Path) (fields : List (String × Raw)) (key : String) :
    Checked (Option Color) :=
  match fields.lookup key with
  | some raw => checkColor (path ++ [.field key]) raw
  | none => pure none

/-! ## Nodes -/

/-- The kind a node names. -/
def checkKind (path : Path) (fields : List (String × Raw)) : Checked (Option Kind) :=
  let place := path ++ [.field "node"]
  match fields.lookup "node" with
  | none => report none place .missingKind none
  | some (.string tag) =>
    match Kind.ofTag? tag with
    | some kind => pure (some kind)
    | none => report none place (.unknownKind tag) (some (.string tag))
  | some other => report none place .kindNotString (some other)

/-- Whether nodes of a kind may have a field with the given key. -/
def isKnownKey (kind : Kind) (key : String) : Bool :=
  key == "node" || (key == "content" && kind.hasContent) || (key == "value" && kind == .text) ||
    (Attribute.shape? kind key).isSome

/-- Reports the keys that nodes of the kind do not have. -/
def checkKeys (kind : Kind) (path : Path) (fields : List (String × Raw)) : Checked Unit :=
  ⟨(), fields.filterMap fun field =>
    if isKnownKey kind field.1 then none
    else some ⟨path ++ [.field field.1], .unknownAttribute field.1 kind, some field.2⟩⟩

/-- The node with the given fields, when its content has been checked. -/
def checkFields (path : Path) (fields : List (String × Raw)) (content : Checked (Content Node)) :
    Checked (Option Node) := do
  match ← checkKind path fields with
  | none => pure none
  | some kind =>
    checkKeys kind path fields
    match kind with
    | .text => return some (.text (← checkText path fields))
    | .lineBreak => return some .lineBreak
    | .bold => return some (.element .bold (← content))
    | .italics => return some (.element .italics (← content))
    | .underline =>
      let style ← checkUnderlineType path fields
      return some (.element (.underline style) (← content))
    | .color =>
      let fg ← checkColorField path fields "fg"
      let bg ← checkColorField path fields "bg"
      return some (.element (.color fg bg) (← content))
    | .styled kind =>
      let style ← fields.foldlM (checkSetting kind path) {}
      return some (.element (.styled kind style) (← content))

mutual

/-- The content among the fields of a node that has `depth` elements around it. -/
def checkContent (depth : Nat) (path : Path) : List (String × Raw) → Checked (Content Node)
  | [] => pure .absent
  | (key, value) :: fields =>
    if key == "content" then
      let place := path ++ [.field "content"]
      if depth < maxNesting then checkContentValue (depth + 1) place value
      else report .absent place .tooDeep (some value)
    else checkContent depth path fields

/-- Content: a node, or a list of nodes. -/
def checkContentValue (depth : Nat) (path : Path) : Raw → Checked (Content Node)
  | .object fields => do
    match ← checkFields path fields (checkContent depth path fields) with
    | some node => pure (.single node)
    | none => pure .absent
  | .array items => do
    return .ofChildren (← checkNodes depth path 0 items)
  | other => report .absent path .contentShape (some other)

/-- The nodes of a list, of which the first has the given index. -/
def checkNodes (depth : Nat) (path : Path) (index : Nat) : List Raw → Checked (List Node)
  | [] => pure []
  | .object fields :: items => do
    let place := path ++ [.item index]
    let node ← checkFields place fields (checkContent depth place fields)
    let nodes ← checkNodes depth path (index + 1) items
    return node.toList ++ nodes
  | other :: items => do
    report () (path ++ [.item index]) .nodeNotObject (some other)
    checkNodes depth path (index + 1) items

end

/-- Checks a document: a list of nodes. -/
def checkDocument : Raw → Checked (List Node)
  | .array items => checkNodes 0 [] 0 items
  | other => report [] [] .documentNotList (some other)

/-- The nodes of an untyped document, or every issue it has. -/
def ofRaw (raw : Raw) : Except (List Issue) (List Node) :=
  let checked := checkDocument raw
  if checked.issues.isEmpty then .ok checked.value else .error checked.issues

end Node

end TermMarkup
