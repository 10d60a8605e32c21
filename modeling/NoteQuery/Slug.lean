import NoteQuery.Text.Basic
import NoteQuery.Text.CharClass
import NoteQuery.Text.Lowercase

namespace NoteQuery

inductive SlugKind where
  | signature
  | title
  | keyword
deriving DecidableEq, Repr

/-- A naming convention for free text. -/
abbrev Normalizer := SlugKind → Text → Text

def Text.words (raw : Text) : List Text := runs isAlphanumeric raw.lowercase

/-- The default convention: everything is in lower case, the words of a title are joined by `-`,
those of a signature by `=`, and a keyword is written without breaks. -/
def slug : Normalizer
  | .title, raw => Text.join ['-'] raw.words
  | .signature, raw => Text.join ['='] raw.words
  | .keyword, raw => raw.lowercase.filter Text.isAlphanumeric

end NoteQuery
