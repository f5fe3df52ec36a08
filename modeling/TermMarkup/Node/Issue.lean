/-
What is wrong with an untyped tree: a cause, the path to the place and what stands there. The
wording is here alone.
-/
import TermMarkup.Kind
import TermMarkup.Color
import TermMarkup.Raw

namespace TermMarkup

/-- A step from a tree to one of its parts. -/
inductive Step where
  | item (index : Nat)
  | field (key : String)
  deriving DecidableEq, Repr

/-- The way from the document to a place in it, outermost step first. -/
abbrev Path := List Step

namespace Path

def stepText : Step → String
  | .item index => "[" ++ Nat.repr index ++ "]"
  | .field key => "." ++ key

def text (path : Path) : String :=
  "$" ++ String.join (path.map stepText)

end Path

namespace Issue

/-- Why a place does not fit the node schema. -/
inductive Cause where
  | documentNotList
  | nodeNotObject
  | missingKind
  | unknownKind (tag : String)
  | kindNotString
  | unknownAttribute (key : String) (kind : Kind)
  | missingText
  | textNotString
  | missingUnderline
  | underlineOff
  | unknownUnderline (written : String)
  | notUnderline
  | unknownColor (written : String)
  | colorNotString
  | notFlag
  | notCount
  | bulletNotString
  | contentShape
  | tooDeep
  deriving DecidableEq, Repr

namespace Cause

def message : Cause → String
  | documentNotList => "document must be a list of nodes"
  | nodeNotObject => "node must be an object"
  | missingKind => "missing node type"
  | unknownKind tag => "unknown node type `" ++ tag ++ "`"
  | kindNotString => "node type must be a string"
  | unknownAttribute key kind => "unrecognised attribute `" ++ key ++ "` on `" ++ kind.tag ++ "`"
  | missingText => "missing required attribute `value`"
  | textNotString => "text value must be a string"
  | missingUnderline => "missing required attribute `type`"
  | underlineOff => "underline type must be single or double"
  | unknownUnderline written => Underline.unknownMessage written
  | notUnderline => "invalid underline style"
  | unknownColor written => Color.unknownMessage written
  | colorNotString => "color must be a string"
  | notFlag => "invalid boolean"
  | notCount => "invalid count"
  | bulletNotString => "bullet must be a string"
  | contentShape => "content must be a node or a list of nodes"
  | tooDeep => "nesting too deep"

/-- What should stand at the place. -/
def expected : Cause → String
  | documentNotList => "array"
  | nodeNotObject => "object"
  | missingKind | unknownKind _ | kindNotString => String.intercalate ", " (Kind.all.map Kind.tag)
  | unknownAttribute _ _ => "no such attribute"
  | missingText | textNotString | bulletNotString => "string"
  | missingUnderline | underlineOff => "single or double"
  | unknownUnderline _ | notUnderline => "single, double or none"
  | unknownColor _ | colorNotString => "color name"
  | notFlag => "true, yes, false or no"
  | notCount => "non-negative integer"
  | contentShape => "object or array"
  | tooDeep => "at most " ++ Nat.repr maxNesting ++ " levels"

end Cause

end Issue

/-- A cause, where it arises, and what stands there (nothing, for a missing field). -/
structure Issue where
  path : Path
  cause : Issue.Cause
  found : Option Raw

namespace Issue

def received (i : Issue) : String :=
  match i.found with
  | some raw => raw.describe
  | none => "nothing"

def message (i : Issue) : String :=
  i.path.text ++ ": " ++ i.cause.message ++ " (expected " ++ i.cause.expected ++ ", received " ++
    i.received ++ ")"

/-- What is said of a tree with the given issues. -/
def summary (issues : List Issue) : String :=
  "invalid markup tree: " ++ String.intercalate "; " (issues.map message)

end Issue

end TermMarkup
