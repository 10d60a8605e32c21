namespace NoteQuery

/-- `finite negative m e` is `m * 2 ^ e` with a sign. Numbers are kept in one form: either
`2 ^ 52 ≤ m < 2 ^ 53`, or `m < 2 ^ 52` and `e = -1074`. -/
inductive Binary64 where
  | finite (negative : Bool) (significand : Nat) (exponent : Int)
  | infinite (negative : Bool)
  | nan
deriving DecidableEq, Repr

namespace Binary64

def zero (negative : Bool) : Binary64 := .finite negative 0 (-1074)

def isZero : Binary64 → Bool
  | .finite _ m _ => m == 0
  | _ => false

def negate : Binary64 → Binary64
  | .finite s m e => .finite (!s) m e
  | .infinite s => .infinite (!s)
  | .nan => .nan

def scaled (num den : Nat) (e : Int) : Nat × Nat :=
  if 0 ≤ e then (num, den * Nat.pow 2 e.toNat) else (num * Nat.pow 2 (-e).toNat, den)

def divRound (num den : Nat) : Nat :=
  let q := num / den
  let r := num % den
  if 2 * r < den then q else if den < 2 * r then q + 1 else if q % 2 = 0 then q else q + 1

def exponentFor (num den : Nat) : Int :=
  let guess := (num.log2 : Int) - den.log2 - 53
  let (n, d) := scaled num den guess
  max (-1074) (if n / d < Nat.pow 2 53 then guess else guess + 1)

def ofRatio (negative : Bool) (num den : Nat) : Binary64 :=
  if num = 0 then zero negative
  else
    let e := exponentFor num den
    let (n, d) := scaled num den e
    let m := divRound n d
    let (m, e) := if m = Nat.pow 2 53 then (Nat.pow 2 52, e + 1) else (m, e)
    if 971 < e then .infinite negative else .finite negative m e

def ratio (m : Nat) (e : Int) : Nat × Nat :=
  if 0 ≤ e then (m * Nat.pow 2 e.toNat, 1) else (m, Nat.pow 2 (-e).toNat)

/-- The number nearest to `m * 10 ^ e`. A number of more than 310 digits is too large whatever its
digits are, and one that begins more than 330 places after the point rounds to zero, so no power
beyond these is ever computed. -/
def ofDecimal (negative : Bool) (m : Nat) (e : Int) : Binary64 :=
  let width : Int := (Nat.toDigits 10 m).length
  if m = 0 then zero negative
  else if 310 < width + e then .infinite negative
  else if width + e < -330 then zero negative
  else if 0 ≤ e then ofRatio negative (m * Nat.pow 10 e.toNat) 1
  else ofRatio negative m (Nat.pow 10 (-e).toNat)

def mul : Binary64 → Binary64 → Binary64
  | .finite s m e, .finite _ m' e' =>
    let (n, d) := ratio (m * m') (e + e')
    ofRatio s n d
  | a, _ => a

def div : Binary64 → Binary64 → Binary64
  | .finite s m e, .finite _ m' e' =>
    let (n, d) := ratio m (e - e')
    ofRatio s n (d * m')
  | a, _ => a

end Binary64

end NoteQuery
