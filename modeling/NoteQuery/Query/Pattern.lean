import NoteQuery.Convention
import NoteQuery.Identifier
import NoteQuery.Keyword.Pattern
import NoteQuery.Note
import NoteQuery.Pattern.Regex
import NoteQuery.Query.Basic

namespace NoteQuery

namespace Query

def identifierSegment (layout : Layout) (value : Text) : Except Error Pattern :=
  if Identifier.width < value.length then .error (.identifierTooLong value.length)
  else
    let body := if value.length = Identifier.width then .literal value
      else .seq [.literal value, .anyExactly (Identifier.width - value.length)]
    .ok (if layout.isFirst .identifier then body
      else .seq [.literal Field.identifier.mark, body])

def wordingSegment (normalize : Normalizer) (f : Field) (kind : SlugKind) (w : Wording) : Pattern :=
  let body := match w with
    | .text raw => .literal (normalize kind raw)
    | .pattern p => p
  .seq [.literal f.mark, body]

def keywordsSegment (normalize : Normalizer) (policy : Keyword.SortPolicy) (e : Keyword.Expr) :
    Except Error Pattern :=
  (e.pattern normalize policy).map fun p => .seq [.literal Field.keywords.mark, .anyRun, p]

def extensions (types : FileTypes) : List Text → Except Error (List Text)
  | [] => .ok []
  | tag :: rest =>
    match types.resolve tag with
    | none => .error (.unknownFileType tag)
    | some extension => (extensions types rest).map (extension :: ·)

def fileTypeSegment (types : FileTypes) (tags : List Text) : Except Error Pattern :=
  (extensions types tags).map fun es => .seq [.alt (es.map .literal), .nameEnd]

def ifAsked {α : Type} (value : Option α) (segment : α → Except Error Pattern) :
    Except Error (Option Pattern) :=
  match value with
  | none => .ok none
  | some v => (segment v).map some

def segment (c : Convention) (normalize : Normalizer) (q : Query) :
    Field → Except Error (Option Pattern)
  | .identifier => ifAsked q.identifier (identifierSegment c.layout)
  | .signature =>
    ifAsked q.signature fun w => .ok (wordingSegment normalize .signature .signature w)
  | .title => ifAsked q.title fun w => .ok (wordingSegment normalize .title .title w)
  | .keywords => ifAsked q.keywords (keywordsSegment normalize c.sort)
  | .fileType => ifAsked q.fileType (fileTypeSegment c.fileTypes)

def segments (c : Convention) (normalize : Normalizer) (q : Query) :
    List Field → Except Error (List Pattern)
  | [] => .ok []
  | f :: rest => do
    let here ← q.segment c normalize f
    let others ← q.segments c normalize rest
    .ok (here.toList ++ others)

def pattern (c : Convention) (normalize : Normalizer) (q : Query) : Except Error Pattern :=
  (q.segments c normalize c.layout.visits).map Pattern.separated

/-- The pattern of the query as the caller writes patterns. -/
def written {α : Type} (c : Convention) (normalize : Normalizer) (write : Pattern → α)
    (q : Query) : Except Error α :=
  (q.pattern c normalize).map write

end Query

def Pattern.regex (p : Pattern) : Except Error (List Regex) :=
  if Regex.usable p.toRegex then .ok p.toRegex else .error .unusableRegex

def Query.regex (c : Convention) (normalize : Normalizer) (q : Query) :
    Except Error (List Regex) := do
  let p ← q.pattern c normalize
  p.regex

/-- Compiles a regular expression. What comes out may be too large, which `fits` tells: how large it
gets and how large it may be is up to who compiles it. -/
def Regex.compile (fits : List Regex → Bool) (items : List Regex) : Except Error (List Regex) :=
  if fits items then .ok items else .error .unusableRegex

def Query.compiled (fits : List Regex → Bool) (c : Convention) (normalize : Normalizer)
    (q : Query) : Except Error (List Regex) := do
  let r ← q.regex c normalize
  Regex.compile fits r

end NoteQuery
