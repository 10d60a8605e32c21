import NoteQuery.Json.Basic

namespace NoteQuery.Json

def isBlank (c : Char) : Bool := c == ' ' || c == '\n' || c == '\r' || c == '\t'

def skipBlanks : Text → Text
  | [] => []
  | c :: rest => if isBlank c then skipBlanks rest else c :: rest

def hexValue? (c : Char) : Option Nat :=
  if '0' ≤ c ∧ c ≤ '9' then some (c.toNat - 48)
  else if 'a' ≤ c ∧ c ≤ 'f' then some (c.toNat - 87)
  else if 'A' ≤ c ∧ c ≤ 'F' then some (c.toNat - 55)
  else none

def readHex4 : Text → Option (Nat × Text)
  | a :: b :: c :: d :: rest => do
    let n := 4096 * (← hexValue? a) + 256 * (← hexValue? b) + 16 * (← hexValue? c) + (← hexValue? d)
    some (n, rest)
  | _ => none

def readUnicodeEscape (t : Text) : Option (Char × Text) := do
  let (n, rest) ← readHex4 t
  if n < 0xd800 ∨ 0xe000 ≤ n then some (Char.ofNat n, rest)
  else if 0xdc00 ≤ n then none
  else match rest with
    | '\\' :: 'u' :: more => do
      let (low, rest) ← readHex4 more
      if 0xdc00 ≤ low ∧ low < 0xe000 then
        some (Char.ofNat (0x10000 + 1024 * (n - 0xd800) + (low - 0xdc00)), rest)
      else none
    | _ => none

def readString : (fuel : Nat) → Text → Option (Text × Text)
  | 0, _ => none
  | fuel + 1, t =>
    let continued (c : Char) (rest : Text) : Option (Text × Text) :=
      (readString fuel rest).map fun (s, rest) => (c :: s, rest)
    match t with
    | [] => none
    | '"' :: rest => some ([], rest)
    | '\\' :: 'u' :: rest => (readUnicodeEscape rest).bind fun (c, rest) => continued c rest
    | '\\' :: c :: rest =>
      match c with
      | '"' | '\\' | '/' => continued c rest
      | 'b' => continued '\x08' rest
      | 'f' => continued '\x0c' rest
      | 'n' => continued '\n' rest
      | 'r' => continued '\r' rest
      | 't' => continued '\t' rest
      | _ => none
    | c :: rest => if c.toNat < 32 then none else continued c rest

def spanDigits (t : Text) : Text × Text := (t.takeWhile Text.isDigit, t.dropWhile Text.isDigit)

def maxSignificand : Nat := 18446744073709551615

def collect (significand : Nat) : Text → Nat × Nat × Text
  | [] => (significand, 0, [])
  | c :: rest =>
    match Text.digit? c with
    | none => (significand, 0, c :: rest)
    | some d =>
      if maxSignificand < 10 * significand + d then (significand, 0, c :: rest)
      else
        let (s, taken, left) := collect (10 * significand + d) rest
        (s, taken + 1, left)

def shrink : Nat → Binary64 → Binary64
  | 0, x => x
  | n + 1, x => if x.isZero then x else shrink n (x.div (.ofDecimal false 1 308))

/-- The significand scaled by a power of ten in steps that each round to the nearest number.
A number out of range is refused. -/
def scale (significand : Nat) (power : Int) : Option Binary64 :=
  let x := Binary64.ofRatio false significand 1
  if 0 ≤ power then
    if 308 < power then if x.isZero then some x else none
    else match x.mul (.ofDecimal false 1 power) with
      | .infinite _ => none
      | y => some y
  else
    let size := (-power).toNat
    let steps := (size - 1) / 308
    some ((shrink (min steps 4) x).div (.ofDecimal false 1 (size - 308 * steps : Nat)))

def maxExponent : Nat := 2147483647

def readExponent (significand : Nat) (power : Int) (t : Text) : Option (Binary64 × Text) :=
  let (negative, t) := match t with
    | '+' :: rest => (false, rest)
    | '-' :: rest => (true, rest)
    | _ => (false, t)
  let (digits, rest) := spanDigits t
  if digits.isEmpty then none
  else match Text.readDigits 0 digits with
    | none => none
    | some n =>
      if maxExponent < n then
        if significand ≠ 0 ∧ !negative then none else some (.zero false, rest)
      else (scale significand (if negative then power - n else power + n)).map (·, rest)

def readTail (significand : Nat) (power : Int) (t : Text) : Option (Binary64 × Text) :=
  match t with
  | 'e' :: rest | 'E' :: rest => readExponent significand power rest
  | _ => (scale significand power).map (·, t)

def readPlaces (significand : Nat) (power : Int) (t : Text) : Option (Binary64 × Text) :=
  let (digits, rest) := spanDigits t
  if digits.isEmpty then none
  else
    let (s, taken, _) := collect significand digits
    readTail s (power - taken) rest

def readUnsigned (t : Text) : Option ((Nat ⊕ Binary64) × Text) :=
  let (digits, rest) := spanDigits t
  match digits with
  | [] => none
  | '0' :: _ :: _ => none
  | _ =>
    let (s, _, left) := collect 0 digits
    let isFloat := match rest with
      | '.' :: _ | 'e' :: _ | 'E' :: _ => true
      | _ => !left.isEmpty
    if isFloat then
      let number := match rest with
        | '.' :: places => readPlaces s left.length places
        | _ => readTail s left.length rest
      number.map fun (x, rest) => (.inr x, rest)
    else some (.inl s, rest)

/-- Whole numbers of 64 bits stay whole; all others, and `-0`, become floating point numbers. -/
def readNumber (t : Text) : Option (Json × Text) :=
  match t with
  | '-' :: rest => (readUnsigned rest).map fun
    | (.inl n, rest) =>
      if n = 0 ∨ 9223372036854775808 < n then (.float (Binary64.ofRatio true n 1), rest)
      else (.integer (-n), rest)
    | (.inr x, rest) => (.float x.negate, rest)
  | _ => (readUnsigned t).map fun
    | (.inl n, rest) => (.integer n, rest)
    | (.inr x, rest) => (.float x, rest)

def readItems (value : Text → Option (Json × Text)) : (fuel : Nat) → Text →
    Option (List Json × Text)
  | 0, _ => none
  | fuel + 1, t => do
    let (v, rest) ← value (skipBlanks t)
    match skipBlanks rest with
    | ',' :: rest => (readItems value fuel rest).map fun (vs, rest) => (v :: vs, rest)
    | ']' :: rest => some ([v], rest)
    | _ => none

def readMembers (value : Text → Option (Json × Text)) : (fuel : Nat) → Text →
    Option (List (Text × Json) × Text)
  | 0, _ => none
  | fuel + 1, t =>
    match skipBlanks t with
    | '"' :: rest => do
      let (name, rest) ← readString (rest.length + 1) rest
      match skipBlanks rest with
      | ':' :: rest => do
        let (v, rest) ← value (skipBlanks rest)
        match skipBlanks rest with
        | ',' :: rest => (readMembers value fuel rest).map fun (ms, rest) => ((name, v) :: ms, rest)
        | '\x7d' :: rest => some ([(name, v)], rest)
        | _ => none
      | _ => none
    | _ => none

def maxNesting : Nat := 127

/-- A value at the front of a text without blanks before it, with at most `levels` arrays and
objects inside one another. Of several members of one name the last one counts. -/
def readValue : (levels : Nat) → Text → Option (Json × Text)
  | levels, t =>
    match t with
    | '"' :: rest => (readString (rest.length + 1) rest).map fun (s, rest) => (.string s, rest)
    | '[' :: rest =>
      match levels with
      | 0 => none
      | levels + 1 =>
        match skipBlanks rest with
        | ']' :: rest => some (.array [], rest)
        | rest =>
          (readItems (readValue levels) (rest.length + 1) rest).map fun (vs, rest) =>
            (.array vs, rest)
    | '\x7b' :: rest =>
      match levels with
      | 0 => none
      | levels + 1 =>
        match skipBlanks rest with
        | '\x7d' :: rest => some (.object [], rest)
        | rest =>
          (readMembers (readValue levels) (rest.length + 1) rest).map fun (ms, rest) =>
            (.object (Dictionary.ofList ms), rest)
    | 'n' :: 'u' :: 'l' :: 'l' :: rest => some (.null, rest)
    | 't' :: 'r' :: 'u' :: 'e' :: rest => some (.bool true, rest)
    | 'f' :: 'a' :: 'l' :: 's' :: 'e' :: rest => some (.bool false, rest)
    | _ => readNumber t

def readPrefix (t : Text) : Option (Json × Text) := readValue maxNesting (skipBlanks t)

def read (t : Text) : Option Json :=
  match readPrefix t with
  | some (v, rest) => if (skipBlanks rest).isEmpty then some v else none
  | none => none

end NoteQuery.Json
