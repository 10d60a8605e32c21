import NoteQuery.Decimal.Shortest
import NoteQuery.Dictionary

namespace NoteQuery

inductive Json where
  | null
  | bool (b : Bool)
  | integer (n : Int)
  | float (x : Binary64)
  | string (t : Text)
  | array (items : List Json)
  /-- The members in ascending order of their names. -/
  | object (members : List (Text × Json))
deriving Inhabited

namespace Json

def hexDigit (n : Nat) : Char := if n < 10 then Char.ofNat (48 + n) else Char.ofNat (87 + n)

def escaped (c : Char) : Text :=
  if c = '"' then "\\\"".toList
  else if c = '\\' then "\\\\".toList
  else if c = '\n' then "\\n".toList
  else if c = '\r' then "\\r".toList
  else if c = '\t' then "\\t".toList
  else if c = '\x08' then "\\b".toList
  else if c = '\x0c' then "\\f".toList
  else if c.toNat < 32 then "\\u00".toList ++ [hexDigit (c.toNat / 16), hexDigit (c.toNat % 16)]
  else [c]

def stringText (t : Text) : Text := '"' :: t.flatMap escaped ++ ['"']

/-- Numbers from `1e-5` up to but not including `1e16` are written positionally, with `.0` if they
are whole; all others with an exponent. -/
def floatText : Binary64 → Text
  | .finite negative m e =>
    let x := Decimal.shortest m e
    let body := if -5 < x.point ∧ x.point ≤ 16 then x.positionalWithPoint else x.scientific
    if negative then '-' :: body else body
  | _ => "null".toList

mutual

def text : Json → Text
  | .null => "null".toList
  | .bool b => if b then "true".toList else "false".toList
  | .integer n => Text.ofInt n
  | .float x => floatText x
  | .string t => stringText t
  | .array items => '[' :: itemsText items ++ [']']
  | .object members => '\x7b' :: membersText members ++ ['\x7d']

def itemsText : List Json → Text
  | [] => []
  | [v] => text v
  | v :: w :: more => text v ++ ',' :: itemsText (w :: more)

def membersText : List (Text × Json) → Text
  | [] => []
  | [m] => memberText m
  | m :: n :: more => memberText m ++ ',' :: membersText (n :: more)

def memberText : Text × Json → Text
  | (name, v) => stringText name ++ ':' :: text v

end

end Json

end NoteQuery
