namespace NoteQuery

/-- A text is the list of its characters, so that a statement about every text goes by
induction on it. -/
abbrev Text := List Char

namespace Text

def order : Text → Text → Ordering
  | [], [] => .eq
  | [], _ :: _ => .lt
  | _ :: _, [] => .gt
  | a :: as, b :: bs =>
    if a.toNat < b.toNat then .lt else if b.toNat < a.toNat then .gt else order as bs

theorem order_eq_iff {a b : Text} : order a b = .eq ↔ a = b := by
  induction a generalizing b with
  | nil => cases b <;> simp [order]
  | cons c a ih =>
    cases b with
    | nil => simp [order]
    | cons d b =>
      rw [order]
      by_cases h₁ : c.toNat < d.toNat
      · rw [if_pos h₁]
        simp only [reduceCtorEq, List.cons.injEq, false_iff]
        rintro ⟨rfl, _⟩
        omega
      · by_cases h₂ : d.toNat < c.toNat
        · rw [if_neg h₁, if_pos h₂]
          simp only [reduceCtorEq, List.cons.injEq, false_iff]
          rintro ⟨rfl, _⟩
          omega
        · obtain rfl : c = d := Char.toNat_inj.1 (by omega)
          simp [ih]

/-- The maximal runs of characters that satisfy `p`. -/
def runs (p : Char → Bool) : Text → List Text
  | [] => []
  | c :: rest =>
    if p c then
      match rest, runs p rest with
      | d :: _, run :: more => if p d then (c :: run) :: more else [c] :: run :: more
      | _, more => [c] :: more
    else runs p rest

def pieces (sep : Char) : Text → List Text
  | [] => [[]]
  | c :: rest =>
    if c = sep then [] :: pieces sep rest
    else match pieces sep rest with
      | [] => [[c]]
      | piece :: more => (c :: piece) :: more

def join (sep : Text) : List Text → Text
  | [] => []
  | [t] => t
  | t :: u :: more => t ++ sep ++ join sep (u :: more)

def after? : (lead t : Text) → Option Text
  | [], t => some t
  | _ :: _, [] => none
  | a :: lead, c :: t => if a = c then after? lead t else none

def digit? (c : Char) : Option Nat :=
  if '0' ≤ c ∧ c ≤ '9' then some (c.toNat - '0'.toNat) else none

def isDigit (c : Char) : Bool := (digit? c).isSome

def readDigits (n : Nat) : Text → Option Nat
  | [] => some n
  | c :: rest => (digit? c).bind fun d => readDigits (10 * n + d) rest

def int64? (negative : Bool) (digits : Text) : Option Int :=
  if digits.isEmpty then none
  else (readDigits 0 digits).bind fun n =>
    let value : Int := if negative then -(n : Int) else n
    if -9223372036854775808 ≤ value ∧ value ≤ 9223372036854775807 then some value else none

def signed (t : Text) : Bool × Text :=
  match t with
  | '-' :: rest => (true, rest)
  | '+' :: rest => (false, rest)
  | _ => (false, t)

def ofNat (n : Nat) : Text := Nat.toDigits 10 n

def ofInt : Int → Text
  | .ofNat n => ofNat n
  | .negSucc n => '-' :: ofNat (n + 1)

def padded (width : Nat) (t : Text) : Text := List.replicate (width - t.length) '0' ++ t

def toOutput (t : Text) : String := String.ofList t

end Text

end NoteQuery
