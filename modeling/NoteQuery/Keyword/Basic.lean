import NoteQuery.Json.Basic

namespace NoteQuery.Keyword

inductive Op where
  | or
  | and
deriving DecidableEq, Repr

def Op.name : Op → Text
  | .or => "or".toList
  | .and => "and".toList

def Op.ofName? (name : Text) : Option Op :=
  if name = Op.or.name then some .or else if name = Op.and.name then some .and else none

inductive Expr where
  | word (text : Text)
  | group (op : Op) (children : List Expr)

inductive Fault where
  /-- The text holds no expression. -/
  | nothing
  | unexpectedClose
  | unexpectedEnd
  | missingClose
  | openQuote
  | foreignValue (value : Json)
  /-- A keyword of which normalisation leaves nothing. -/
  | blankWord (raw : Text)

def Fault.detail : Fault → String
  | .nothing => "empty expression"
  | .unexpectedClose => "unexpected `)`"
  | .unexpectedEnd => "unexpected end of input"
  | .missingClose => "missing `)`"
  | .openQuote => "unterminated quoted keyword"
  | .foreignValue v => "expected a string or a list, found " ++ v.text.toOutput
  | .blankWord raw => "keyword `" ++ raw.toOutput ++ "` is empty after normalisation"

end NoteQuery.Keyword
