import NoteQuery.Query.Basic

namespace NoteQuery

inductive Argument where
  /-- A field name, with or without a colon in front. -/
  | key (name : Text)
  | text (t : Text)
  | pattern (p : Pattern)
  | keywords (e : Keyword.Expr)
  | tags (ts : List Text)

namespace Query

def assign (q : Query) : Field → Argument → Except Error Query
  | .identifier, .text t => .ok (q.withIdentifier t)
  | .signature, .text t => .ok (q.withSignature (.text t))
  | .signature, .pattern p => .ok (q.withSignature (.pattern p))
  | .title, .text t => .ok (q.withTitle (.text t))
  | .title, .pattern p => .ok (q.withTitle (.pattern p))
  | .keywords, .text t => .ok (q.withKeywords (.word t))
  | .keywords, .keywords e => .ok (q.withKeywords e)
  | .fileType, .text t => .ok (q.withFileType [t])
  | .fileType, .tags ts => .ok (q.withFileType ts)
  | f, _ => .error (.unfitValue f)

/-- Takes the arguments in pairs, the first of them at `position`. A pair is passed over if its
name is no field, or a field that is set already. -/
def takePairs (q : Query) (position : Nat) : List Argument → Except Error Query
  | .key name :: value :: rest =>
    match Field.parse? name with
    | none => takePairs q (position + 2) rest
    | some f =>
      if q.asks f then takePairs q (position + 2) rest
      else match q.assign f value with
        | .ok q => takePairs q (position + 2) rest
        | .error e => .error e
  | _ :: _ :: _ => .error (.fieldExpected position)
  | _ => .ok q

def ofArguments (args : List Argument) : Except Error Query :=
  if args.length % 2 = 1 then .error (.unpairedArguments args.length) else takePairs empty 0 args

end Query

end NoteQuery
