import NoteQuery.FileTypes
import NoteQuery.Keyword.Order
import NoteQuery.Layout

namespace NoteQuery

structure Convention where
  layout : Layout
  sort : Keyword.SortPolicy
  fileTypes : FileTypes

def Convention.standard : Convention := ⟨.standard, .by .lexicographic, .builtin⟩

end NoteQuery
