import NoteQuery.Setting.Layer

namespace NoteQuery.Setting.Environment

def lead : Text := "notename__".toList

def dotted : Text → Text
  | '_' :: '_' :: rest => '.' :: dotted rest
  | c :: rest => c :: dotted rest
  | [] => []

def key? (name : Text) : Option Text := (Text.after? lead name.lowercase).map dotted

def listKey : Text := "naming.component_order".toList

def integer? (t : Text) : Option Int :=
  let (negative, digits) := t.signed
  Text.int64? negative digits

def exponent? (t : Text) : Option Int :=
  match t with
  | [] => some 0
  | 'e' :: rest | 'E' :: rest =>
    let (negative, digits) := Text.signed rest
    if digits.isEmpty then none
    else (Text.readDigits 0 digits).map fun n => if negative then -(n : Int) else n
  | _ => none

def float? (t : Text) : Option Binary64 :=
  let (negative, body) := t.signed
  let word := body.map Char.toLower
  if word = "inf".toList ∨ word = "infinity".toList then some (.infinite negative)
  else if word = "nan".toList then some .nan
  else
    let whole := body.takeWhile Text.isDigit
    let rest := body.drop whole.length
    let (places, rest) := match rest with
      | '.' :: more => (more.takeWhile Text.isDigit, more.dropWhile Text.isDigit)
      | _ => ([], rest)
    if whole.isEmpty && places.isEmpty then none
    else (Text.readDigits 0 (whole ++ places)).bind fun n =>
      (exponent? rest).map fun e => Binary64.ofDecimal negative n (e - places.length)

/-- The setting that the value of a variable spells: a truth value, a whole number, a number, a
list for the key that takes one, and otherwise the text itself. -/
def value (key t : Text) : Setting :=
  let word := t.lowercase
  if word = "true".toList then .bool true
  else if word = "false".toList then .bool false
  else match integer? t with
    | some n => .integer n
    | none =>
      match float? t with
      | some x => .float x
      | none => if key = listKey then .list ((Text.pieces ',' t).map .text) else .text t

def layer (vars : List (Text × Text)) : List (Text × Setting) :=
  vars.filterMap fun (name, t) => (key? name).map fun key => (key, value key t)

end NoteQuery.Setting.Environment
