import NoteQuery.Convention

namespace NoteQuery

structure Config where
  /-- The fields that names show, in order; not yet a layout. -/
  order : List Field
  /-- Whether the words of a conjunction of keywords are put in order. -/
  sort : Bool
  comparator : Keyword.Comparator
  /-- Tags of file types over the common ones, with their extensions. -/
  fileTypes : Dictionary Text

namespace Config

def standard : Config :=
  ⟨[.identifier, .signature, .title, .keywords], true, .lexicographic, []⟩

def convention (c : Config) : Except Error Convention :=
  (Layout.ofFields c.order).map fun layout =>
    ⟨layout, ⟨c.sort, c.comparator⟩, FileTypes.withOverrides c.fileTypes⟩

end Config

def Keyword.Comparator.ofName? (name : Text) : Option Keyword.Comparator :=
  if name = "lexicographic".toList then some .lexicographic
  else if name = "case-insensitive".toList then some .caseInsensitive
  else if name = "reverse".toList then some .reverse
  else none

end NoteQuery
