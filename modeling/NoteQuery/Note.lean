import NoteQuery.Layout

namespace NoteQuery

def Field.mark : Field → Text
  | .identifier => "@@".toList
  | .signature => "==".toList
  | .title => "--".toList
  | .keywords => "__".toList
  | .fileType => []

/-- The metadata of a note as its name shows it: everything but the identifier and the extension is
a slug. -/
structure Note where
  identifier : Text
  signature : Option Text
  title : Option Text
  keywords : List Text
  extension : Text

namespace Note

def marked (f : Field) : Option Text → Text
  | none => []
  | some s => f.mark ++ s

def segment (layout : Layout) (note : Note) : Field → Text
  | .identifier =>
    (if layout.isFirst .identifier then [] else Field.identifier.mark) ++ note.identifier
  | .signature => marked .signature note.signature
  | .title => marked .title note.title
  | .keywords =>
    marked .keywords (if note.keywords.isEmpty then none else some (Text.join ['_'] note.keywords))
  | .fileType => note.extension

def name (layout : Layout) (note : Note) : Text := layout.visits.flatMap (note.segment layout)

end Note

end NoteQuery
