import NoteQuery.Decimal.Binary64
import NoteQuery.Text.Basic

namespace NoteQuery

/-- `digits` stands for the number whose digits they are, with the point after the first `point`
of them; `point` may lie outside. -/
structure Decimal where
  digits : Text
  point : Int
deriving DecidableEq, Repr

namespace Decimal

def atScale (num den : Nat) (k : Int) : Nat × Nat :=
  if 0 ≤ k then (num, den * Nat.pow 10 k.toNat) else (num * Nat.pow 10 (-k).toNat, den)

def magnitude (num den : Nat) : Int :=
  let guess := ((num.log2 : Int) - den.log2) * 30103 / 100000
  let fits (k : Int) : Bool := let (n, d) := atScale num den k; 1 ≤ n / d
  if fits (guess + 1) then guess + 1 else if fits guess then guess else guess - 1

def ofScaled (q : Nat) (k : Int) : Decimal :=
  let all := Text.ofNat q
  ⟨(all.reverse.dropWhile (· == '0')).reverse, all.length + k⟩

def withDigits? (m : Nat) (e : Int) (count : Nat) : Option Decimal :=
  let (num, den) := Binary64.ratio m e
  let k := magnitude num den - count + 1
  let (n, d) := atScale num den k
  let q := n / d
  let readsBack (q : Nat) : Bool := Binary64.ofDecimal false q k = .finite false m e
  let lowerIsNearer := 2 * (n % d) < d || (2 * (n % d) == d && q % 2 == 0)
  let lower := if readsBack q then some (ofScaled q k) else none
  let upper := if readsBack (q + 1) then some (ofScaled (q + 1) k) else none
  if lowerIsNearer then lower <|> upper else upper <|> lower

/-- The shortest decimal of the finite number `m * 2 ^ e`. Seventeen digits always read back, so
the search ends there. -/
def shortest (m : Nat) (e : Int) : Decimal :=
  if m = 0 then ⟨['0'], 1⟩
  else ((List.range' 1 17).findSome? (withDigits? m e)).getD ⟨['0'], 1⟩

def positional (x : Decimal) : Text :=
  if x.point ≤ 0 then "0.".toList ++ List.replicate (-x.point).toNat '0' ++ x.digits
  else
    let point := x.point.toNat
    if x.digits.length ≤ point then x.digits ++ List.replicate (point - x.digits.length) '0'
    else x.digits.take point ++ '.' :: x.digits.drop point

def positionalWithPoint (x : Decimal) : Text :=
  if 0 < x.point ∧ x.digits.length ≤ x.point.toNat then x.positional ++ ".0".toList
  else x.positional

def scientific (x : Decimal) : Text :=
  let power := x.point - 1
  x.digits.take 1 ++ (if x.digits.length ≤ 1 then [] else '.' :: x.digits.drop 1) ++
    'e' :: (if power < 0 then '-' else '+') :: Text.ofNat power.natAbs

end Decimal

end NoteQuery
