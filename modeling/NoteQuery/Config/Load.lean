import NoteQuery.Config.Json
import NoteQuery.Json.Reader
import NoteQuery.Setting.Environment
import NoteQuery.Toml.Reader

namespace NoteQuery.Config

def defaults : List (Text × Setting) :=
  [("file_types".toList, .table []),
   ("keywords".toList, .table
     [("comparator".toList, .text "lexicographic".toList), ("sort".toList, .bool true)]),
   ("naming".toList, .table
     [("component_order".toList,
       .list (["identifier", "signature", "title", "keywords"].map (.text ·.toList)))])]

def fieldsOfSetting? (s : Setting) : Option (List Field) := do
  (← s.items?).mapM fun v => v.asName?.bind Field.ofName?

def comparatorOfSetting? (s : Setting) : Option Keyword.Comparator :=
  s.asName?.bind Keyword.Comparator.ofName?

def fileTypesOfSetting? (s : Setting) : Option (Dictionary Text) := do
  (← s.entries?).mapM fun (tag, v) => v.asText?.map (tag, ·)

def orderOfSetting? (naming : Setting) : Option (List Field) := do
  orAbsent standard.order fieldsOfSetting? (← naming.member? "component_order".toList 0)

def sortingOfSetting? (keywords : Setting) : Option (Bool × Keyword.Comparator) := do
  let sort ← orAbsent standard.sort Setting.asBool? (← keywords.member? "sort".toList 0)
  let comparator ← orAbsent standard.comparator comparatorOfSetting?
    (← keywords.member? "comparator".toList 1)
  some (sort, comparator)

/-- The configuration of a setting, in which scalars are taken for one another where their texts
allow it. -/
def ofSetting? (s : Setting) : Option Config := do
  let order ← orAbsent standard.order orderOfSetting? (← s.member? "naming".toList 0)
  let (sort, comparator) ← orAbsent (standard.sort, standard.comparator) sortingOfSetting?
    (← s.member? "keywords".toList 1)
  let fileTypes ←
    orAbsent standard.fileTypes fileTypesOfSetting? (← s.member? "file_types".toList 2)
  some ⟨order, sort, comparator, fileTypes⟩

/-- The defaults with a file's layer and the environment's over them. -/
def layered (file environment : List (Text × Setting)) : Setting :=
  Setting.placeAll environment (Setting.placeAll file (Setting.placeAll defaults (.table [])))

/-- The configuration of the entries of a file, if there is one, and of the environment. A file that
is required may not be missing. -/
def load (required : Bool) (file : Option (List (Text × Setting))) (vars : List (Text × Text)) :
    Option Config := do
  let entries ← match file with
    | some entries => some entries
    | none => if required then none else some []
  ofSetting? (layered entries (Setting.Environment.layer vars))

/-- The formats that are read here. A file of any other one is known by its entries. -/
inductive Format where
  | toml
  | json
deriving DecidableEq, Repr

def readFile (format : Format) (text : Text) : Option (List (Text × Setting)) :=
  let body := (Text.after? ['\ufeff'] text).getD text
  match format with
  | .toml => Toml.read body
  | .json => (Json.read body).bind fun v => (Setting.ofJson v).entries?

/-- The configuration of a file with this text. The entries of a file are gone through in no order
of their own, so `arrange` gives them one. -/
def loadFile (arrange : List (Text × Setting) → List (Text × Setting)) (format : Format)
    (text : Text) (vars : List (Text × Text)) : Option Config := do
  load true (some (arrange (← readFile format text))) vars

end NoteQuery.Config
