import NoteQuery.Dictionary

namespace NoteQuery

/-- The tags that are known, as changes to the common ones. -/
structure FileTypes where
  overrides : Dictionary Text

namespace FileTypes

def common : Dictionary Text :=
  [("markdown-toml".toList, ".md".toList), ("markdown-yaml".toList, ".md".toList),
   ("org".toList, ".org".toList), ("text".toList, ".txt".toList)]

def builtin : FileTypes := ⟨[]⟩

def withOverrides (pairs : List (Text × Text)) : FileTypes := ⟨Dictionary.ofList pairs⟩

def insert (types : FileTypes) (tag extension : Text) : FileTypes :=
  ⟨types.overrides.insert tag extension⟩

def resolve (types : FileTypes) (tag : Text) : Option Text :=
  types.overrides.find? tag <|> common.find? tag

def listing (ts : List Text) : List Text :=
  (ts.mergeSort fun a b => (Text.order a b).isLE).eraseReps

def tags (types : FileTypes) : List Text := listing (common.keys ++ types.overrides.keys)

def table (types : FileTypes) : Dictionary Text :=
  types.tags.filterMap fun tag => (types.resolve tag).map fun extension => (tag, extension)

def isBuiltin (types : FileTypes) : Bool := types.overrides.isEmpty

end FileTypes

end NoteQuery
