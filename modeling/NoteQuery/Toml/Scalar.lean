import NoteQuery.Calendar.Timestamp
import NoteQuery.Setting.Basic

namespace NoteQuery.Toml

def plainDigits (isDigit : Char → Bool) (before : Bool) : Text → Option Text
  | [] => if before then some [] else none
  | c :: rest =>
    if isDigit c then (plainDigits isDigit true rest).map (c :: ·)
    else if c = '_' ∧ before then
      match rest with
      | d :: _ => if isDigit d then plainDigits isDigit false rest else none
      | [] => none
    else none

def decimals? (t : Text) : Option Text := plainDigits Text.isDigit false t

def wholePart? (t : Text) : Option Text :=
  (decimals? t).bind fun digits =>
    match digits with
    | '0' :: _ :: _ => none
    | _ => some digits

def digitIn? (base : Nat) (c : Char) : Option Nat :=
  let value :=
    if '0' ≤ c ∧ c ≤ '9' then some (c.toNat - 48)
    else if 'a' ≤ c ∧ c ≤ 'f' then some (c.toNat - 87)
    else if 'A' ≤ c ∧ c ≤ 'F' then some (c.toNat - 55)
    else none
  value.filter (· < base)

def readInBase (base : Nat) (n : Nat) : Text → Option Nat
  | [] => some n
  | c :: rest => (digitIn? base c).bind fun d => readInBase base (base * n + d) rest

def basedInteger? (base : Nat) (t : Text) : Option Int :=
  (plainDigits (fun c => (digitIn? base c).isSome) false t).bind fun digits =>
    (readInBase base 0 digits).bind fun n =>
      if n ≤ 9223372036854775807 then some (n : Int) else none

def integer? (t : Text) : Option Int :=
  match t with
  | '0' :: 'x' :: rest => basedInteger? 16 rest
  | '0' :: 'o' :: rest => basedInteger? 8 rest
  | '0' :: 'b' :: rest => basedInteger? 2 rest
  | _ =>
    let (negative, body) := t.signed
    (wholePart? body).bind (Text.int64? negative)

def isExponentMark (c : Char) : Bool := c == 'e' || c == 'E'

def float? (t : Text) : Option Binary64 := do
  let (negative, body) := t.signed
  if body = "inf".toList then some (.infinite negative)
  else if body = "nan".toList then some .nan
  else if body.all Text.isDigit then none
  else
    let mantissa := body.takeWhile fun c => !isExponentMark c
    let wholeText := mantissa.takeWhile (· != '.')
    let whole ← wholePart? wholeText
    let places ← match mantissa.drop wholeText.length with
      | [] => some []
      | _ :: more => decimals? more
    let power ← match body.drop mantissa.length with
      | [] => some (0 : Int)
      | _ :: more => do
        let (below, digits) := Text.signed more
        let n ← (decimals? digits).bind (Text.readDigits 0)
        some (if below then -(n : Int) else n)
    let n ← Text.readDigits 0 (whole ++ places)
    match Binary64.ofDecimal negative n (power - places.length) with
    | .infinite _ => none
    | x => some x

def takeNumber (count : Nat) (t : Text) : Option (Nat × Text) :=
  let digits := t.take count
  if digits.length = count ∧ digits.all Text.isDigit then
    (Text.readDigits 0 digits).map (·, t.drop count)
  else none

def fixed (width n : Nat) : Text := Text.padded width (Text.ofNat n)

def readDate (t : Text) : Option (Text × Text) := do
  let (year, t) ← takeNumber 4 t
  let t ← Text.after? ['-'] t
  let (month, t) ← takeNumber 2 t
  let t ← Text.after? ['-'] t
  let (day, t) ← takeNumber 2 t
  if 1 ≤ month ∧ month ≤ 12 ∧ 1 ≤ day ∧ day ≤ daysInMonth year month then
    some (fixed 4 year ++ '-' :: fixed 2 month ++ '-' :: fixed 2 day, t)
  else none

def fractionText (digits : Text) : Text :=
  let nine := (digits.take 9).reverse.dropWhile (· == '0')
  if nine.isEmpty then ".0".toList else '.' :: nine.reverse

def readFraction (t : Text) : Option (Text × Text) :=
  match t with
  | '.' :: rest =>
    let digits := rest.takeWhile Text.isDigit
    if digits.isEmpty then none else some (fractionText digits, rest.drop digits.length)
  | _ => some ([], t)

def readSeconds (t : Text) : Option (Text × Text) :=
  match t with
  | ':' :: rest => do
    let (second, rest) ← takeNumber 2 rest
    let (fraction, rest) ← readFraction rest
    if second ≤ 60 then some (':' :: fixed 2 second ++ fraction, rest) else none
  | _ => some ([], t)

def readTime (t : Text) : Option (Text × Text) := do
  let (hour, t) ← takeNumber 2 t
  let t ← Text.after? [':'] t
  let (minute, t) ← takeNumber 2 t
  let (seconds, t) ← readSeconds t
  if hour ≤ 23 ∧ minute ≤ 59 then some (fixed 2 hour ++ ':' :: fixed 2 minute ++ seconds, t)
  else none

def readOffset (t : Text) : Option (Text × Text) :=
  match t with
  | 'Z' :: rest | 'z' :: rest => some (['Z'], rest)
  | '+' :: rest | '-' :: rest => do
    let (hour, rest) ← takeNumber 2 rest
    let rest ← Text.after? [':'] rest
    let (minute, rest) ← takeNumber 2 rest
    let sign := if t.head? = some '-' ∧ (hour ≠ 0 ∨ minute ≠ 0) then '-' else '+'
    if hour ≤ 23 ∧ minute ≤ 59 then some (sign :: fixed 2 hour ++ ':' :: fixed 2 minute, rest)
    else none
  | _ => some ([], t)

def isTimeMark (c : Char) : Bool := c == 'T' || c == 't' || c == ' '

def dateTime? (t : Text) : Option Text :=
  let whole : Option (Text × Text) :=
    match readDate t with
    | none => readTime t
    | some (date, []) => some (date, [])
    | some (date, mark :: rest) =>
      if isTimeMark mark then do
        let (time, rest) ← readTime rest
        let (offset, rest) ← readOffset rest
        some (date ++ 'T' :: time ++ offset, rest)
      else none
  whole.bind fun (canonical, rest) => if rest.isEmpty then some canonical else none

/-- The setting that an unquoted value spells. Dates and times are kept as texts. -/
def scalar? (t : Text) : Option Setting :=
  if t = "true".toList then some (.bool true)
  else if t = "false".toList then some (.bool false)
  else match integer? t with
    | some n => some (.integer n)
    | none =>
      match float? t with
      | some x => some (.float x)
      | none => (dateTime? t).map .text

end NoteQuery.Toml
