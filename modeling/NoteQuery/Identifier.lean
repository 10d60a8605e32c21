import NoteQuery.Calendar.Timestamp
import NoteQuery.Text.CharClass
import NoteQuery.Text.Basic

namespace NoteQuery.Identifier

def width : Nat := 15

/-- Years of up to four digits are padded to four; all others have a sign and at least four
digits. -/
def yearText (year : Int) : Text :=
  let digits := Text.padded 4 (Text.ofNat year.natAbs)
  if year < 0 then '-' :: digits else if 9999 < year then '+' :: digits else digits

def twoDigits (n : Nat) : Text := Text.padded 2 (Text.ofNat n)

def ofDate (d : Date) : Text := yearText d.year ++ twoDigits d.month ++ twoDigits d.day

def ofTime (t : TimeOfDay) : Text :=
  twoDigits t.hour ++ twoDigits t.minute ++ twoDigits (t.second + t.nano / 1000000000)

def ofTimestamp (stamp : Timestamp) : Text := ofDate stamp.date ++ 'T' :: ofTime stamp.time

def skipBlanks : Text → Text
  | [] => []
  | c :: rest => if Text.isBlank c then skipBlanks rest else c :: rest

def takeDigits (n : Nat) : (count : Nat) → Text → Nat × Text
  | 0, t => (n, t)
  | _ + 1, [] => (n, [])
  | count + 1, c :: rest =>
    match Text.digit? c with
    | some d => takeDigits (10 * n + d) count rest
    | none => (n, c :: rest)

def readNumber (count : Nat) (t : Text) : Option (Nat × Text) :=
  match t with
  | [] => none
  | c :: _ => if Text.isDigit c then some (takeDigits 0 count t) else none

def readTwo (t : Text) : Option (Nat × Text) := readNumber 2 (skipBlanks t)

def readYear (t : Text) : Option (Int × Text) :=
  match skipBlanks t with
  | '-' :: rest => (readNumber rest.length rest).map fun (n, rest) => (-(n : Int), rest)
  | '+' :: rest => (readNumber rest.length rest).map fun (n, rest) => ((n : Int), rest)
  | t => (readNumber 4 t).map fun (n, rest) => ((n : Int), rest)

def timeOfDay? (hour minute second : Nat) : Option TimeOfDay :=
  if second = 60 then TimeOfDay.of? hour minute 59 1000000000
  else TimeOfDay.of? hour minute second 0

/-- The timestamp that a text spells. Blanks may stand before every number, and a number may have
fewer digits than a complete identifier gives it. -/
def parse? (t : Text) : Option Timestamp := do
  let (year, t) ← readYear t
  let (month, t) ← readTwo t
  let (day, t) ← readTwo t
  let t ← Text.after? ['T'] t
  let (hour, t) ← readTwo t
  let (minute, t) ← readTwo t
  let (second, t) ← readTwo t
  if t.isEmpty then
    let date ← Date.of? year month day
    let time ← timeOfDay? hour minute second
    some ⟨date, time⟩
  else none

end NoteQuery.Identifier
