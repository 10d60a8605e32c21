import NoteQuery.Error
import NoteQuery.Keyword.Order
import NoteQuery.Pattern.Basic
import NoteQuery.Slug

namespace NoteQuery.Keyword.Expr

def wordPattern (normalize : Normalizer) (raw : Text) : Except Error Pattern :=
  match normalize .keyword raw with
  | [] => .error (.malformedKeywords (.blankWord raw))
  | c :: rest => .ok (.wholeWord (c :: rest))

def allWords? : List Expr → Option (List Text)
  | [] => some []
  | .word w :: rest => (allWords? rest).map (w :: ·)
  | .group _ _ :: _ => none

def wordPatterns (normalize : Normalizer) : List Text → Except Error (List Pattern)
  | [] => .ok []
  | w :: rest => do
    let first ← wordPattern normalize w
    let others ← wordPatterns normalize rest
    .ok (first :: others)

mutual

/-- The pattern of an expression: a keyword is a whole word, a disjunction an alternation, and a
conjunction the patterns of its children with gaps between them. A conjunction of words alone is
put in order first; a group without children and a keyword that normalises to nothing are
refused. -/
def pattern (normalize : Normalizer) (policy : SortPolicy) : Expr → Except Error Pattern
  | .word raw => wordPattern normalize raw
  | .group op [] => .error (.emptyGroup op)
  | .group .or (e :: rest) => (patterns normalize policy (e :: rest)).map .alt
  | .group .and (e :: rest) =>
    match allWords? (e :: rest) with
    | some words => (wordPatterns normalize (policy.arrange words)).map Pattern.separated
    | none => (patterns normalize policy (e :: rest)).map Pattern.separated

def patterns (normalize : Normalizer) (policy : SortPolicy) :
    List Expr → Except Error (List Pattern)
  | [] => .ok []
  | e :: rest => do
    let first ← pattern normalize policy e
    let others ← patterns normalize policy rest
    .ok (first :: others)

end

end NoteQuery.Keyword.Expr
