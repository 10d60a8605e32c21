import NoteQuery.Text.Basic

namespace NoteQuery.Toml

def isControl (c : Char) : Bool := (c.toNat < 32 && c != '\t') || c.toNat == 127

def hexValue? (c : Char) : Option Nat :=
  if '0' ≤ c ∧ c ≤ '9' then some (c.toNat - 48)
  else if 'a' ≤ c ∧ c ≤ 'f' then some (c.toNat - 87)
  else if 'A' ≤ c ∧ c ≤ 'F' then some (c.toNat - 55)
  else none

def readHex (n : Nat) : (count : Nat) → Text → Option (Nat × Text)
  | 0, t => some (n, t)
  | _ + 1, [] => none
  | count + 1, c :: rest => (hexValue? c).bind fun d => readHex (16 * n + d) count rest

def readCodePoint (count : Nat) (t : Text) : Option (Char × Text) :=
  (readHex 0 count t).bind fun (n, rest) =>
    if n < 0xd800 ∨ (0xe000 ≤ n ∧ n < 0x110000) then some (Char.ofNat n, rest) else none

def readEscape : Text → Option (Char × Text)
  | '"' :: rest => some ('"', rest)
  | '\\' :: rest => some ('\\', rest)
  | 'b' :: rest => some ('\x08', rest)
  | 't' :: rest => some ('\t', rest)
  | 'n' :: rest => some ('\n', rest)
  | 'f' :: rest => some ('\x0c', rest)
  | 'r' :: rest => some ('\r', rest)
  | 'e' :: rest => some ('\x1b', rest)
  | 'x' :: rest => readCodePoint 2 rest
  | 'u' :: rest => readCodePoint 4 rest
  | 'U' :: rest => readCodePoint 8 rest
  | _ => none

def readLine (quote : Char) (escapes : Bool) : (fuel : Nat) → Text → Option (Text × Text)
  | 0, _ => none
  | fuel + 1, t =>
    match t with
    | [] => none
    | c :: rest =>
      if c = quote then some ([], rest)
      else if c = '\\' ∧ escapes then do
        let (d, rest) ← readEscape rest
        let (s, rest) ← readLine quote escapes fuel rest
        some (d :: s, rest)
      else if isControl c then none
      else (readLine quote escapes fuel rest).map fun (s, rest) => (c :: s, rest)

def lineBreak? : Text → Option Text
  | '\n' :: rest => some rest
  | '\r' :: '\n' :: rest => some rest
  | _ => none

def skipSpaces : Text → Text
  | [] => []
  | c :: rest => if c = ' ' ∨ c = '\t' then skipSpaces rest else c :: rest

def skipLines : (fuel : Nat) → Text → Text
  | 0, t => t
  | fuel + 1, t =>
    match lineBreak? (skipSpaces t) with
    | some rest => skipLines fuel rest
    | none => skipSpaces t

/-- The rest of a text over several lines, whose line breaks are kept as they are. Three quotes end
it; one or two more before them belong to the text. A backslash at the end of a line joins it to the
next text. -/
def readLines (quote : Char) (escapes : Bool) : (fuel : Nat) → Text → Option (Text × Text)
  | 0, _ => none
  | fuel + 1, t =>
    let continued (c : Char) (rest : Text) : Option (Text × Text) :=
      (readLines quote escapes fuel rest).map fun (s, rest) => (c :: s, rest)
    match t with
    | [] => none
    | c :: rest =>
      if c = quote then
        let run := (t.takeWhile (· == quote)).length
        if run < 3 then continued c rest
        else
          let run := min run 5
          some (List.replicate (run - 3) quote, t.drop run)
      else if c = '\\' ∧ escapes then
        match lineBreak? (skipSpaces rest) with
        | some more => readLines quote escapes fuel (skipLines more.length more)
        | none => (readEscape rest).bind fun (d, rest) => continued d rest
      else if isControl c && (lineBreak? t).isNone then none
      else continued c rest

def readQuoted (quote : Char) (escapes : Bool) (t : Text) : Option (Text × Text) :=
  match Text.after? [quote, quote, quote] t with
  | some rest =>
    let body := (lineBreak? rest).getD rest
    readLines quote escapes (body.length + 1) body
  | none => (Text.after? [quote] t).bind fun rest => readLine quote escapes (rest.length + 1) rest

end NoteQuery.Toml
