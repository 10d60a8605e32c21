import NoteQuery.Config.Basic
import NoteQuery.Json.Basic

namespace NoteQuery.Config

/-- The member of a section by its name, or by its position if the section is an array of at most
`size` items. The outer option is `none` if the value is no section. -/
def member? (size : Nat) (name : Text) (position : Nat) : Json → Option (Option Json)
  | .object members => some (Dictionary.find? name members)
  | .array items => if items.length ≤ size then some items[position]? else none
  | _ => none

def nameOfJson? : Json → Option Text
  | .string t => some t
  | .object [(name, .null)] => some name
  | _ => none

def boolOfJson? : Json → Option Bool
  | .bool b => some b
  | _ => none

def textOfJson? : Json → Option Text
  | .string t => some t
  | _ => none

def fieldsOfJson? : Json → Option (List Field)
  | .array items => items.mapM fun v => (nameOfJson? v).bind Field.ofName?
  | _ => none

def comparatorOfJson? (v : Json) : Option Keyword.Comparator :=
  (nameOfJson? v).bind Keyword.Comparator.ofName?

def fileTypesOfJson? : Json → Option (Dictionary Text)
  | .object members => members.mapM fun (tag, v) => (textOfJson? v).map (tag, ·)
  | _ => none

def orAbsent {α β : Type} (absent : β) (read : α → Option β) : Option α → Option β
  | none => some absent
  | some v => read v

def orderOfJson? (naming : Json) : Option (List Field) := do
  orAbsent standard.order fieldsOfJson? (← member? 1 "component_order".toList 0 naming)

def sortingOfJson? (keywords : Json) : Option (Bool × Keyword.Comparator) := do
  let sort ← orAbsent standard.sort boolOfJson? (← member? 2 "sort".toList 0 keywords)
  let comparator ←
    orAbsent standard.comparator comparatorOfJson? (← member? 2 "comparator".toList 1 keywords)
  some (sort, comparator)

/-- The configuration of a JSON value. Sections and keys may be missing and unknown ones are passed
over, but nothing is taken for a value of another kind. -/
def ofJson? (v : Json) : Option Config := do
  let order ← orAbsent standard.order orderOfJson? (← member? 3 "naming".toList 0 v)
  let (sort, comparator) ← orAbsent (standard.sort, standard.comparator) sortingOfJson?
    (← member? 3 "keywords".toList 1 v)
  let fileTypes ←
    orAbsent standard.fileTypes fileTypesOfJson? (← member? 3 "file_types".toList 2 v)
  some ⟨order, sort, comparator, fileTypes⟩

end NoteQuery.Config
