/-
Untyped document trees. An object keeps its fields in increasing order of their keys, each key once,
so that going through an object meets its fields in that order.
-/
import TermMarkup.Number
import TermMarkup.Text.Quoted

namespace TermMarkup

/-- An untyped tree. -/
inductive Raw where
  | null
  | bool (value : Bool)
  | number (value : Number)
  | string (value : String)
  | array (items : List Raw)
  | object (fields : List (String × Raw))
  deriving Inhabited

namespace Raw

def int (n : Int) : Raw := .number (.int n)

def nat (n : Nat) : Raw := .int n

/-- The fields with one more; a field with the same key is replaced. -/
def insert (key : String) (value : Raw) : List (String × Raw) → List (String × Raw)
  | [] => [(key, value)]
  | field :: fields =>
    if key < field.1 then (key, value) :: field :: fields
    else if key == field.1 then (key, value) :: fields
    else field :: insert key value fields

/-- The object with the given fields, of which a later one replaces an earlier one. -/
def ofFields (fields : List (String × Raw)) : Raw :=
  .object (fields.foldl (fun done field => insert field.1 field.2 done) [])

/-- A tree in a few words. -/
def describe : Raw → String
  | null => "null"
  | bool true => "boolean true"
  | bool false => "boolean false"
  | number n => "number " ++ n.text
  | string s => "string " ++ Text.quote s
  | array items => "array of " ++ Nat.repr items.length
  | object _ => "object"

end Raw

end TermMarkup
