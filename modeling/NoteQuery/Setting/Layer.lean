import NoteQuery.Setting.Basic

namespace NoteQuery.Setting

mutual

/-- Tables merge key by key, anything else replaces what was there before. -/
def overlay : (incoming : Setting) → (old : Setting) → Setting
  | .table entries, old => .table (overlayEntries entries old.entries)
  | incoming, _ => incoming

def overlayEntries : List (Text × Setting) → Dictionary Setting → Dictionary Setting
  | [], d => d
  | entry :: rest, d => overlayEntries rest (overlayEntry entry d)

def overlayEntry : Text × Setting → Dictionary Setting → Dictionary Setting
  | (key, v), d => d.insert key (overlay v ((d.find? key).getD .nothing))

end

inductive Step where
  | key (name : Text)
  /-- The item at a position, counted from the end if negative. -/
  | item (position : Int)
deriving DecidableEq, Repr

/-- The items with the one at `position` changed. A list that is too short grows, at its front for
a position before the first item. -/
def changeItem (position : Int) (change : Setting → Setting) (items : List Setting) :
    List Setting :=
  let fromFront (i : Nat) (items : List Setting) :=
    let grown := items ++ List.replicate (i + 1 - items.length) .nothing
    grown.mapIdx fun k v => if k = i then change v else v
  if 0 ≤ position then fromFront position.toNat items
  else
    let back := position.natAbs
    if back ≤ items.length then fromFront (items.length - back) items
    else fromFront 0 (List.replicate (back - items.length) .nothing ++ items)

/-- Lays a setting over the part at the end of a path; what is in the way of the path is replaced
by a table or a list. -/
def place (incoming : Setting) : List Step → Setting → Setting
  | [], old => overlay incoming old
  | .key name :: path, old =>
    let entries := old.entries
    .table (entries.insert name (place incoming path ((entries.find? name).getD .nothing)))
  | .item position :: path, old =>
    .list (changeItem position (place incoming path) (old.items?.getD []))

def isNameChar (c : Char) : Bool := c.isAlphanum || c == '_' || c == '-'

def position? (t : Text) : Option Int :=
  match t with
  | '-' :: rest => Text.int64? true rest
  | _ => Text.int64? false t

inductive PathPart where
  | name (reversed : Text)
  | position (reversed : Text)
  /-- After a closing bracket. -/
  | closed

def trimSpaces (t : Text) : Text :=
  let front := t.dropWhile fun c => c == ' ' || c == '\t'
  (front.reverse.dropWhile fun c => c == ' ' || c == '\t').reverse

def stepsFrom : PathPart → Text → Option (List Step)
  | .name [], [] => none
  | .name w, [] => some [.key w.reverse]
  | .position _, [] => none
  | .closed, [] => some []
  | .name w, c :: rest =>
    if isNameChar c then stepsFrom (.name (c :: w)) rest
    else if w.isEmpty then none
    else if c = '.' then (stepsFrom (.name []) rest).map (.key w.reverse :: ·)
    else if c = '[' then (stepsFrom (.position []) rest).map (.key w.reverse :: ·)
    else none
  | .position w, c :: rest =>
    if c = ']' then
      (position? (trimSpaces w.reverse)).bind fun n => (stepsFrom .closed rest).map (.item n :: ·)
    else stepsFrom (.position (c :: w)) rest
  | .closed, c :: rest =>
    if c = '.' then stepsFrom (.name []) rest
    else if c = '[' then stepsFrom (.position []) rest
    else none

/-- The path that a key spells, such as `naming.component_order`; a key that spells none is one
step as it is. -/
def pathOf (key : Text) : List Step := (stepsFrom (.name []) key).getD [.key key]

/-- Lays the entries of a layer over a setting, each at the path that its key spells. -/
def placeAll (layer : List (Text × Setting)) (s : Setting) : Setting :=
  layer.foldl (fun s (key, v) => s |> place v (pathOf key)) s

end NoteQuery.Setting
