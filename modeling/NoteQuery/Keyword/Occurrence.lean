import NoteQuery.Keyword.Order
import NoteQuery.Keyword.Pattern

namespace NoteQuery.Keyword.Expr

def WordsOccur (normalize : Normalizer) (keywords : List Text) : List Text → Nat → Nat → Prop
  | [], i, j => i = j
  | [w], i, j => keywords[i]? = some (normalize .keyword w) ∧ j = i + 1
  | w :: v :: more, i, j =>
    ∃ k, i + 1 ≤ k ∧ keywords[i]? = some (normalize .keyword w) ∧
      WordsOccur normalize keywords (v :: more) k j

mutual

/-- The expression is met by the keywords from position `i` up to position `j`: a word by one
keyword, a disjunction by one child, and a conjunction by its children one after another, in the
order in which they are asked for, others between them. -/
def Occurs (normalize : Normalizer) (policy : SortPolicy) (keywords : List Text) :
    Expr → Nat → Nat → Prop
  | .word w, i, j => keywords[i]? = some (normalize .keyword w) ∧ j = i + 1
  | .group .or children, i, j => OccursSome normalize policy keywords children i j
  | .group .and children, i, j =>
    match allWords? children with
    | some words => WordsOccur normalize keywords (policy.arrange words) i j
    | none => OccursAll normalize policy keywords children i j

def OccursSome (normalize : Normalizer) (policy : SortPolicy) (keywords : List Text) :
    List Expr → Nat → Nat → Prop
  | [], _, _ => False
  | e :: rest, i, j =>
    Occurs normalize policy keywords e i j ∨ OccursSome normalize policy keywords rest i j

def OccursAll (normalize : Normalizer) (policy : SortPolicy) (keywords : List Text) :
    List Expr → Nat → Nat → Prop
  | [], i, j => i = j
  | [e], i, j => Occurs normalize policy keywords e i j
  | e :: f :: more, i, j =>
    ∃ k l, k ≤ l ∧ Occurs normalize policy keywords e i k ∧
      OccursAll normalize policy keywords (f :: more) l j

end

def MetBy (normalize : Normalizer) (policy : SortPolicy) (keywords : List Text) (e : Expr) : Prop :=
  ∃ i j, Occurs normalize policy keywords e i j

end NoteQuery.Keyword.Expr
