import NoteQuery.Json.Reader
import NoteQuery.Keyword.Basic

namespace NoteQuery.Keyword.Expr

mutual

/-- The expression that a JSON value stands for. A string is a keyword, an array whose first item
names an operator is that operator over the other items, and any other array is a conjunction. A
value with anything else in it is refused for the first such value in reading order. -/
def ofJson : Json → Except Fault Expr
  | .string t => .ok (.word t)
  | .array items => ofItems items
  | v => .error (.foreignValue v)

def ofItems : List Json → Except Fault Expr
  | [] => .ok (.group .and [])
  | .string t :: rest =>
    match Op.ofName? t with
    | some op => (childrenOf rest).map (.group op)
    | none => (childrenOf rest).map fun children => .group .and (.word t :: children)
  | v :: rest => do
    let first ← ofJson v
    let others ← childrenOf rest
    .ok (.group .and (first :: others))

def childrenOf : List Json → Except Fault (List Expr)
  | [] => .ok []
  | v :: rest => do
    let first ← ofJson v
    let others ← childrenOf rest
    .ok (first :: others)

end

mutual

def toJson : Expr → Json
  | .word t => .string t
  | .group op children => .array (.string op.name :: itemsOf children)

def itemsOf : List Expr → List Json
  | [] => []
  | e :: rest => toJson e :: itemsOf rest

end

inductive JsonError where
  | notJson
  | malformed (fault : Fault)

/-- The expression of a JSON text. A value of the wrong shape is refused as such even if something
follows it. -/
def readJson (t : Text) : Except JsonError Expr :=
  match Json.readPrefix t with
  | none => .error .notJson
  | some (v, rest) =>
    match ofJson v with
    | .error fault => .error (.malformed fault)
    | .ok e => if (Json.skipBlanks rest).isEmpty then .ok e else .error .notJson

end NoteQuery.Keyword.Expr
