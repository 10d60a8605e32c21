import NoteQuery.Toml.Quoted
import NoteQuery.Toml.Scalar
import NoteQuery.Toml.Table

namespace NoteQuery.Toml

def skipComment : Text → Option Text
  | [] => some []
  | c :: rest =>
    if (lineBreak? (c :: rest)).isSome then some (c :: rest)
    else if isControl c then none
    else skipComment rest

def endLine (t : Text) : Option Text :=
  match skipSpaces t with
  | '#' :: rest => (skipComment rest).map fun rest => (lineBreak? rest).getD rest
  | [] => some []
  | rest => lineBreak? rest

def skipTriviaFrom : (fuel : Nat) → Text → Option Text
  | 0, t => some t
  | fuel + 1, t =>
    match skipSpaces t with
    | '#' :: rest => (skipComment rest).bind (skipTriviaFrom fuel)
    | rest =>
      match lineBreak? rest with
      | some rest => skipTriviaFrom fuel rest
      | none => some rest

def skipTrivia (t : Text) : Option Text := skipTriviaFrom t.length t

def isBareKeyChar (c : Char) : Bool := c.isAlphanum || c == '_' || c == '-'

def readSimpleKey (t : Text) : Option (Text × Text) :=
  match t with
  | '"' :: rest => readLine '"' true (rest.length + 1) rest
  | '\'' :: rest => readLine '\'' false (rest.length + 1) rest
  | _ =>
    let bare := t.takeWhile isBareKeyChar
    if bare.isEmpty then none else some (bare, t.drop bare.length)

def maxNesting : Nat := 80

def readParts : (parts : Nat) → Text → Option (List Text × Text × Text)
  | 0, _ => none
  | parts + 1, t => do
    let (part, rest) ← readSimpleKey (skipSpaces t)
    match skipSpaces rest with
    | '.' :: rest => do
      let (path, last, rest) ← readParts parts rest
      some (part :: path, last, rest)
    | rest => some ([], part, rest)

def readKey (t : Text) : Option (List Text × Text × Text) := readParts maxNesting t

def isScalarChar (c : Char) : Bool :=
  c.isAlphanum || c == '_' || c == '-' || c == '+' || c == '.' || c == ':'

def readScalarText (t : Text) : Text × Text :=
  let word := t.takeWhile isScalarChar
  let rest := t.drop word.length
  let isDate := match readDate word with
    | some (_, []) => true
    | _ => false
  match rest with
  | ' ' :: d :: more =>
    if isDate && Text.isDigit d then
      let time := (d :: more).takeWhile isScalarChar
      (word ++ ' ' :: time, (d :: more).drop time.length)
    else (word, rest)
  | _ => (word, rest)

def readScalar (t : Text) : Option (Setting × Text) :=
  let (word, rest) := readScalarText t
  (scalar? word).map (·, rest)

def readItems (value : Text → Option (Setting × Text)) : (fuel : Nat) → Text →
    Option (List Setting × Text)
  | 0, _ => none
  | fuel + 1, t => do
    match ← skipTrivia t with
    | ']' :: rest => some ([], rest)
    | t => do
      let (v, rest) ← value t
      match ← skipTrivia rest with
      | ',' :: rest => (readItems value fuel rest).map fun (vs, rest) => (v :: vs, rest)
      | ']' :: rest => some ([v], rest)
      | _ => none

def readPair (gap : Text → Option Text) (value : Text → Option (Setting × Text)) (t : Text) :
    Option (List Text × Text × Setting × Text) := do
  let (path, last, rest) ← readKey t
  let rest ← Text.after? ['='] (← gap rest)
  let (v, rest) ← value (← gap rest)
  some (path, last, v, rest)

def readEntries (value : Text → Option (Setting × Text)) : (fuel : Nat) → Entries → Text →
    Option (Entries × Text)
  | 0, _, _ => none
  | fuel + 1, entries, t => do
    match ← skipTrivia t with
    | '\x7d' :: rest => some (entries, rest)
    | t => do
      let (path, last, v, rest) ← readPair skipTrivia value t
      let entries ← entries.addValue path last v
      match ← skipTrivia rest with
      | ',' :: rest => readEntries value fuel entries rest
      | '\x7d' :: rest => some (entries, rest)
      | _ => none

def readValue : (levels : Nat) → Text → Option (Setting × Text)
  | levels, t =>
    match t with
    | '"' :: _ => (readQuoted '"' true t).map fun (s, rest) => (.text s, rest)
    | '\'' :: _ => (readQuoted '\'' false t).map fun (s, rest) => (.text s, rest)
    | '[' :: rest =>
      match levels with
      | 0 => none
      | levels + 1 =>
        (readItems (readValue levels) (rest.length + 1) rest).map fun (vs, rest) => (.list vs, rest)
    | '\x7b' :: rest =>
      match levels with
      | 0 => none
      | levels + 1 =>
        (readEntries (readValue levels) (rest.length + 1) [] rest).map fun (entries, rest) =>
          (.table (settingsOf entries), rest)
    | _ => readScalar t

def readDocument : (fuel : Nat) → (root : Entries) → (current : List Text) → Text → Option Entries
  | 0, _, _, _ => none
  | fuel + 1, root, current, t =>
    match skipSpaces t with
    | [] => some root
    | '[' :: '[' :: rest => do
      let (path, last, rest) ← readKey rest
      let rest ← Text.after? [']', ']'] rest
      let root ← root.openElement path last
      readDocument fuel root (path ++ [last]) (← endLine rest)
    | '[' :: rest => do
      let (path, last, rest) ← readKey rest
      let rest ← Text.after? [']'] rest
      let root ← root.openTable path last
      readDocument fuel root (path ++ [last]) (← endLine rest)
    | c :: rest =>
      if c = '#' ∨ (lineBreak? (c :: rest)).isSome then do
        readDocument fuel root current (← endLine (c :: rest))
      else do
        let (path, last, v, rest) ← readPair (some ∘ skipSpaces) (readValue maxNesting) (c :: rest)
        let root ← root.change false (fun _ table => table.addValue path last v) current false
        readDocument fuel root current (← endLine rest)

/-- The entries of the document that a text spells. A byte order mark in front of it is passed
over. -/
def read (t : Text) : Option (Dictionary Setting) :=
  let body := (Text.after? ['\ufeff'] t).getD t
  (readDocument (body.length + 1) [] [] body).map settingsOf

end NoteQuery.Toml
