import NoteQuery.Json.Basic
import NoteQuery.Text.Lowercase

namespace NoteQuery

inductive Setting where
  | nothing
  | bool (b : Bool)
  | integer (n : Int)
  | float (x : Binary64)
  | text (t : Text)
  | list (items : List Setting)
  /-- The entries in ascending order of their keys. -/
  | table (entries : List (Text × Setting))

namespace Setting

mutual

def ofJson : Json → Setting
  | .null => .nothing
  | .bool b => .bool b
  | .integer n =>
    if n ≤ 9223372036854775807 then .integer n else .float (Binary64.ofRatio false n.toNat 1)
  | .float x => .float x
  | .string t => .text t
  | .array items => .list (listOfJson items)
  | .object members => .table (entriesOfJson members)

def listOfJson : List Json → List Setting
  | [] => []
  | v :: rest => ofJson v :: listOfJson rest

def entriesOfJson : List (Text × Json) → List (Text × Setting)
  | [] => []
  | m :: rest => entryOfJson m :: entriesOfJson rest

def entryOfJson : Text × Json → Text × Setting
  | (key, v) => (key, ofJson v)

end

def boolOfText? (t : Text) : Option Bool :=
  let word := t.lowercase
  if ["1", "true", "on", "yes"].any (·.toList == word) then some true
  else if ["0", "false", "off", "no"].any (·.toList == word) then some false
  else none

def asBool? : Setting → Option Bool
  | .bool b => some b
  | .integer n => some (n != 0)
  | .float x => some (!x.isZero)
  | .text t => boolOfText? t
  | _ => none

def floatText : Binary64 → Text
  | .finite negative m e =>
    let body := (Decimal.shortest m e).positional
    if negative then '-' :: body else body
  | .infinite negative => if negative then "-inf".toList else "inf".toList
  | .nan => "NaN".toList

def asText? : Setting → Option Text
  | .bool b => some (if b then "true".toList else "false".toList)
  | .integer n => some (Text.ofInt n)
  | .float x => some (floatText x)
  | .text t => some t
  | _ => none

def asName? : Setting → Option Text
  | .text t => some t
  | .table [(key, _)] => some key
  | _ => none

def member? (name : Text) (position : Nat) : Setting → Option (Option Setting)
  | .table entries => some (Dictionary.find? name entries)
  | .list items => some items[position]?
  | _ => none

def items? : Setting → Option (List Setting)
  | .list items => some items
  | _ => none

def entries? : Setting → Option (List (Text × Setting))
  | .table entries => some entries
  | _ => none

def entries (s : Setting) : Dictionary Setting := s.entries?.getD []

end Setting

end NoteQuery
