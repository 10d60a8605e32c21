import NoteQuery.Text.Basic

namespace NoteQuery

inductive Field where
  | identifier
  | signature
  | title
  | keywords
  | fileType
deriving DecidableEq, Repr

namespace Field

def all : List Field := [.identifier, .signature, .title, .keywords, .fileType]

def name : Field → Text
  | .identifier => "identifier".toList
  | .signature => "signature".toList
  | .title => "title".toList
  | .keywords => "keywords".toList
  | .fileType => "file-type".toList

def ofName? (t : Text) : Option Field := all.find? (fun f => f.name = t)

def parse? : Text → Option Field
  | ':' :: t => ofName? t
  | t => ofName? t

def expectation : Field → String
  | .identifier => "a string"
  | .signature | .title => "a string or a pattern"
  | .keywords => "a string or a keyword expression"
  | .fileType => "a file-type tag or a list of tags"

end Field

end NoteQuery
