namespace NoteQuery

def isLeapYear (year : Int) : Bool := year % 4 = 0 && (year % 100 ≠ 0 || year % 400 = 0)

def daysInMonth (year : Int) (month : Nat) : Nat :=
  if month = 2 then if isLeapYear year then 29 else 28
  else if month = 4 ∨ month = 6 ∨ month = 9 ∨ month = 11 then 30
  else 31

structure Date where
  year : Int
  month : Nat
  day : Nat
  year_bounds : -262143 ≤ year ∧ year ≤ 262142
  month_bounds : 1 ≤ month ∧ month ≤ 12
  day_bounds : 1 ≤ day ∧ day ≤ daysInMonth year month
deriving DecidableEq

def Date.of? (year : Int) (month day : Nat) : Option Date :=
  if h : (-262143 ≤ year ∧ year ≤ 262142) ∧ (1 ≤ month ∧ month ≤ 12) ∧
      (1 ≤ day ∧ day ≤ daysInMonth year month) then
    some ⟨year, month, day, h.1, h.2.1, h.2.2⟩
  else none

/-- A time of day. The nanoseconds of a leap second are counted on from those of the second before
it, whichever second that is. -/
structure TimeOfDay where
  hour : Nat
  minute : Nat
  second : Nat
  nano : Nat
  hour_lt : hour < 24
  minute_lt : minute < 60
  second_lt : second < 60
  nano_lt : nano < 2000000000
deriving DecidableEq

def TimeOfDay.of? (hour minute second nano : Nat) : Option TimeOfDay :=
  if h : hour < 24 ∧ minute < 60 ∧ second < 60 ∧ nano < 2000000000 ∧
      (1000000000 ≤ nano → second = 59) then
    some ⟨hour, minute, second, nano, h.1, h.2.1, h.2.2.1, h.2.2.2.1⟩
  else none

structure Timestamp where
  date : Date
  time : TimeOfDay
deriving DecidableEq

/-- The time of day without the fraction of its second. A leap second at the end of a minute stays
one, and any other is the second that it is written as. -/
def TimeOfDay.wholeSecond (t : TimeOfDay) : TimeOfDay :=
  if t.nano < 1000000000 then { t with nano := 0, nano_lt := by decide }
  else if h : t.second = 59 then { t with nano := 1000000000, nano_lt := by decide }
  else
    have hlt : t.second + 1 < 60 := by have := t.second_lt; omega
    { t with second := t.second + 1, nano := 0, second_lt := hlt, nano_lt := by decide }

end NoteQuery
