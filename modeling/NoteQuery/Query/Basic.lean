import NoteQuery.Error
import NoteQuery.Identifier
import NoteQuery.Pattern.Basic

namespace NoteQuery

inductive Wording where
  /-- Free text, normalised before it is looked for. -/
  | text (raw : Text)
  /-- A pattern, used as it is. -/
  | pattern (p : Pattern)

/-- The metadata of the notes that are looked for. An absent field asks for nothing. -/
structure Query where
  identifier : Option Text := none
  signature : Option Wording := none
  title : Option Wording := none
  keywords : Option Keyword.Expr := none
  /-- Tags of file types; any one of them will do. -/
  fileType : Option (List Text) := none

namespace Query

def empty : Query := {}

def asks (q : Query) : Field → Bool
  | .identifier => q.identifier.isSome
  | .signature => q.signature.isSome
  | .title => q.title.isSome
  | .keywords => q.keywords.isSome
  | .fileType => q.fileType.isSome

def isEmpty (q : Query) : Bool := !Field.all.any q.asks

def withIdentifier (q : Query) (t : Text) : Query := { q with identifier := some t }

def withDate (q : Query) (d : Date) : Query := q.withIdentifier (Identifier.ofDate d)

def withSignature (q : Query) (w : Wording) : Query := { q with signature := some w }

def withTitle (q : Query) (w : Wording) : Query := { q with title := some w }

def withKeywords (q : Query) (e : Keyword.Expr) : Query := { q with keywords := some e }

def withFileType (q : Query) (tags : List Text) : Query := { q with fileType := some tags }

end Query

end NoteQuery
