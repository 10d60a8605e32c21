import NoteQuery.Field
import NoteQuery.Keyword.Basic

namespace NoteQuery

inductive Error where
  /-- The arguments do not pair up; there are `count` of them. -/
  | unpairedArguments (count : Nat)
  /-- The argument at this position is no field name. -/
  | fieldExpected (position : Nat)
  | unfitValue (field : Field)
  | unknownField (name : Text)
  | unknownFileType (tag : Text)
  | emptyGroup (op : Keyword.Op)
  | malformedKeywords (fault : Keyword.Fault)
  | identifierTooLong (length : Nat)
  | repeatedField (field : Field)
  | unusableRegex

namespace Error

def message : Error → String
  | .unpairedArguments n =>
    "malformed call: " ++ toString n ++ " arguments cannot be paired into field/value entries"
  | .fieldExpected n => "malformed call: expected a field name at argument " ++ toString n
  | .unfitValue f => "invalid value for `" ++ f.name.toOutput ++ "`: expected " ++ f.expectation
  | .unknownField name => "unknown field `" ++ name.toOutput ++ "`"
  | .unknownFileType tag => "unknown file type `" ++ tag.toOutput ++ "`"
  | .emptyGroup op => "empty `" ++ op.name.toOutput ++ "` keyword expression"
  | .malformedKeywords fault => "malformed keyword expression: " ++ fault.detail
  | .identifierTooLong n =>
    "identifier is " ++ toString n ++ " characters long, the maximum is 15"
  | .repeatedField f => "component order lists `" ++ f.name.toOutput ++ "` more than once"
  | .unusableRegex => "the pattern has no usable regular expression"

def isUnresolved : Error → Bool
  | .unknownFileType _ => true
  | _ => false

end Error

end NoteQuery
