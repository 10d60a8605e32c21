import NoteQuery.Text.Lowercase

namespace NoteQuery

namespace Keyword

inductive Comparator where
  | lexicographic
  | caseInsensitive
  | reverse
  /-- An order of the caller's own. -/
  | custom (compare : Text → Text → Ordering)

def Comparator.compare : Comparator → Text → Text → Ordering
  | .lexicographic, a, b => Text.order a b
  | .caseInsensitive, a, b => Text.order a.lowercase b.lowercase
  | .reverse, a, b => Text.order b a
  | .custom f, a, b => f a b

structure SortPolicy where
  enabled : Bool
  comparator : Comparator

def SortPolicy.disabled : SortPolicy := ⟨false, .lexicographic⟩

def SortPolicy.by (c : Comparator) : SortPolicy := ⟨true, c⟩

def Comparator.place (c : Comparator) (w : Text) : List Text → List Text
  | [] => [w]
  | v :: rest => if c.compare w v = .gt then v :: c.place w rest else w :: v :: rest

def Comparator.sort (c : Comparator) (words : List Text) : List Text := words.foldr c.place []

def SortPolicy.arrange (policy : SortPolicy) (words : List Text) : List Text :=
  if policy.enabled then policy.comparator.sort words else words

end Keyword

end NoteQuery
