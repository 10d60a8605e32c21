import NoteQuery.Identifier
import NoteQuery.Proofs.Digits

namespace NoteQuery

theorem daysInMonth_le (year : Int) (month : Nat) : daysInMonth year month ≤ 31 := by
  unfold daysInMonth
  repeat' split
  all_goals decide

theorem Date.lt_hundred (d : Date) : d.month < 100 ∧ d.day < 100 := by
  have hmonth := d.month_bounds
  have hday := d.day_bounds
  have hlen := daysInMonth_le d.year d.month
  omega

theorem Date.of?_self (d : Date) : Date.of? d.year d.month d.day = some d :=
  dif_pos ⟨d.year_bounds, d.month_bounds, d.day_bounds⟩

theorem TimeOfDay.of?_self (t : TimeOfDay) (h : 1000000000 ≤ t.nano → t.second = 59) :
    of? t.hour t.minute t.second t.nano = some t :=
  dif_pos ⟨t.hour_lt, t.minute_lt, t.second_lt, t.nano_lt, h⟩

theorem TimeOfDay.wholeSecond_leap (t : TimeOfDay) :
    1000000000 ≤ t.wholeSecond.nano → t.wholeSecond.second = 59 := by
  rw [wholeSecond]
  split
  · nofun
  split
  · next h => exact fun _ => h
  · nofun

theorem TimeOfDay.lt_hundred (t : TimeOfDay) :
    t.hour < 100 ∧ t.minute < 100 ∧ t.second + t.nano / 1000000000 < 100 := by
  have hhour := t.hour_lt
  have hminute := t.minute_lt
  have hsecond := t.second_lt
  have hnano := t.nano_lt
  omega

namespace Identifier

open Text

variable {n count : Nat} {c : Char} {ds t : Text} {year : Int}

section Numbers

theorem isBlank_of_isDigit (h : c.isDigit = true) : isBlank c = false := by
  obtain ⟨hlow, hhigh⟩ : 48 ≤ c.toNat ∧ c.toNat ≤ 57 := Char.isDigit_iff_toNat.1 h
  have hapart : ∀ range ∈ blanks.list, range.2 < 48 ∨ 57 < range.1 := by decide
  refine Bool.eq_false_iff.2 fun hblank => ?_
  obtain ⟨range, hmem, hle, hge⟩ := blanks.contains_iff.1 hblank
  have := hapart range hmem
  omega

theorem skipBlanks_append (hds : ∀ c ∈ ds, c.isDigit = true) (hne : ds ≠ []) :
    skipBlanks (ds ++ t) = ds ++ t := by
  cases ds with
  | nil => exact absurd rfl hne
  | cons c ds =>
      have hc := isBlank_of_isDigit (hds c (List.mem_cons_self ..))
      rw [List.cons_append, skipBlanks, hc, if_neg Bool.false_ne_true]

def EndsNumber (t : Text) : Prop := ∀ c ∈ t.head?, isDigit c = false

theorem takeDigits_of_endsNumber (h : EndsNumber t) : takeDigits n count t = (n, t) := by
  cases count with
  | zero => rfl
  | succ count =>
      cases t with
      | nil => rfl
      | cons c t =>
          have hc : digit? c = none :=
            Option.not_isSome_iff_eq_none.1 (Bool.eq_false_iff.1 (h c rfl))
          rw [takeDigits, hc]

theorem takeDigits_append (hds : ∀ c ∈ ds, c.isDigit = true) (hlen : ds.length ≤ count)
    (hstop : ds.length = count ∨ EndsNumber t) :
    takeDigits n count (ds ++ t) = (Nat.ofDigitChars 10 ds n, t) := by
  induction ds generalizing n count with
  | nil =>
      rcases hstop with hcount | hend
      · rw [← hcount]
        rfl
      · exact takeDigits_of_endsNumber hend
  | cons c ds ih =>
      cases count with
      | zero => exact absurd hlen (Nat.not_succ_le_zero _)
      | succ count =>
          rw [List.cons_append, takeDigits, digit?_of_isDigit (hds c (List.mem_cons_self ..)),
            Nat.ofDigitChars_cons]
          exact ih (fun d hd => hds d (List.mem_cons_of_mem c hd)) (Nat.le_of_succ_le_succ hlen)
            (hstop.imp_left Nat.succ.inj)

theorem readNumber_digits (hds : ∀ c ∈ ds, c.isDigit = true) (hne : ds ≠ [])
    (hlen : ds.length ≤ count) (hstop : ds.length = count ∨ EndsNumber t) :
    readNumber count (ds ++ t) = some (Nat.ofDigitChars 10 ds 0, t) := by
  cases ds with
  | nil => exact absurd rfl hne
  | cons c ds =>
      have hc : isDigit c = true :=
        Option.isSome_of_eq_some (digit?_of_isDigit (hds c (List.mem_cons_self ..)))
      rw [List.cons_append, readNumber, if_pos hc, ← List.cons_append,
        takeDigits_append hds hlen hstop]

theorem readNumber_padded (h : (ofNat n).length ≤ count) :
    readNumber count (padded count (ofNat n) ++ t) = some (n, t) := by
  have hlen := length_padded h
  rw [readNumber_digits (fun _ => isDigit_of_mem_padded) (padded_ne_nil count n)
    (Nat.le_of_eq hlen) (.inl hlen), ofDigitChars_padded]

end Numbers

section Parts

theorem length_twoDigits (hn : n < 100) : (twoDigits n).length = 2 :=
  length_padded (length_ofNat_le_two hn)

theorem readTwo_twoDigits (hn : n < 100) : readTwo (twoDigits n ++ t) = some (n, t) := by
  rw [readTwo, twoDigits, skipBlanks_append (fun _ => isDigit_of_mem_padded) (padded_ne_nil 2 n)]
  exact readNumber_padded (length_ofNat_le_two hn)

theorem yearText_of_fourDigit (h : 0 ≤ year ∧ year ≤ 9999) :
    yearText year = padded 4 (ofNat year.natAbs) := by
  rw [yearText, if_neg (by omega), if_neg (by omega)]

theorem length_yearText (h : 0 ≤ year ∧ year ≤ 9999) : (yearText year).length = 4 := by
  rw [yearText_of_fourDigit h]
  exact length_padded (length_ofNat_le_four (by omega))

theorem readYear_of_isDigit (hc : c.isDigit = true) :
    readYear (c :: t) = (readNumber 4 (c :: t)).map fun (n, rest) => ((n : Int), rest) := by
  rw [readYear, skipBlanks, isBlank_of_isDigit hc, if_neg Bool.false_ne_true]
  split
  · rename_i heq
    obtain ⟨rfl, -⟩ := List.cons.inj heq
    exact absurd hc (by decide)
  · rename_i heq
    obtain ⟨rfl, -⟩ := List.cons.inj heq
    exact absurd hc (by decide)
  · rfl

theorem readYear_yearText (h : 0 ≤ year ∧ year ≤ 9999) :
    readYear (yearText year ++ t) = some (year, t) := by
  have hread : readNumber 4 (padded 4 (ofNat year.natAbs) ++ t) = some (year.natAbs, t) :=
    readNumber_padded (length_ofNat_le_four (by omega))
  rw [yearText_of_fourDigit h]
  cases hds : padded 4 (ofNat year.natAbs) with
  | nil => exact absurd hds (padded_ne_nil 4 _)
  | cons c ds =>
      have hc : c.isDigit = true := isDigit_of_mem_padded (hds ▸ List.mem_cons_self ..)
      rw [hds, List.cons_append] at hread
      rw [List.cons_append, readYear_of_isDigit hc, hread]
      exact congrArg (fun z => some (z, t)) (Int.natAbs_of_nonneg h.1)

theorem timeOfDay?_written (t : TimeOfDay) :
    timeOfDay? t.hour t.minute (t.second + t.nano / 1000000000) = some t.wholeSecond := by
  have hsecond := t.second_lt
  have hnano := t.nano_lt
  have hself : TimeOfDay.of? t.wholeSecond.hour t.wholeSecond.minute t.wholeSecond.second
      t.wholeSecond.nano = some t.wholeSecond := t.wholeSecond.of?_self t.wholeSecond_leap
  by_cases hleap : t.nano < 1000000000
  · have hzero : t.nano / 1000000000 = 0 := by omega
    rw [timeOfDay?, hzero, Nat.add_zero, if_neg (by omega)]
    simpa only [TimeOfDay.wholeSecond, if_pos hleap] using hself
  have hone : t.nano / 1000000000 = 1 := by omega
  by_cases hlast : t.second = 59
  · rw [timeOfDay?, hone, if_pos (by omega)]
    simpa only [TimeOfDay.wholeSecond, if_neg hleap, hlast, dite_true] using hself
  · rw [timeOfDay?, hone, if_neg (by omega)]
    simpa only [TimeOfDay.wholeSecond, if_neg hleap, dif_neg hlast] using hself

theorem isDigit_of_mem_dayDigits (year month day : Nat) :
    ∀ c ∈ padded 4 (ofNat year) ++ (twoDigits month ++ twoDigits day), c.isDigit = true := by
  intro c hc
  rcases List.mem_append.1 hc with hyear | hrest
  · exact isDigit_of_mem_padded hyear
  · exact (List.mem_append.1 hrest).elim isDigit_of_mem_padded isDigit_of_mem_padded

theorem readYear_sign {sign : Char} (hsign : sign = '-' ∨ sign = '+')
    (hds : ∀ c ∈ ds, c.isDigit = true) (hne : ds ≠ []) (hend : EndsNumber t) :
    (readYear (sign :: (ds ++ t))).map Prod.snd = some t := by
  have hlen : ds.length ≤ (ds ++ t).length := by
    rw [List.length_append]
    exact Nat.le_add_right ..
  have hread := readNumber_digits hds hne hlen (.inr hend)
  rcases hsign with rfl | rfl
  all_goals
    rw [readYear, skipBlanks, if_neg (by decide)]
    simp only [hread, Option.map_some]

end Parts

section Stamp

variable (stamp : Timestamp)

theorem ofTimestamp_eq : ofTimestamp stamp = yearText stamp.date.year ++
    (twoDigits stamp.date.month ++ (twoDigits stamp.date.day ++ 'T' :: (twoDigits stamp.time.hour ++
      (twoDigits stamp.time.minute ++
        twoDigits (stamp.time.second + stamp.time.nano / 1000000000))))) := by
  simp only [ofTimestamp, ofDate, ofTime, List.append_assoc]

theorem parse?_of_fourDigit (h : 0 ≤ stamp.date.year ∧ stamp.date.year ≤ 9999) :
    parse? (ofTimestamp stamp) = some { stamp with time := stamp.time.wholeSecond } := by
  obtain ⟨hmonth, hday⟩ := stamp.date.lt_hundred
  obtain ⟨hhour, hminute, hsecond⟩ := stamp.time.lt_hundred
  have hlast : readTwo (twoDigits (stamp.time.second + stamp.time.nano / 1000000000)) =
      some (stamp.time.second + stamp.time.nano / 1000000000, []) := by
    simpa using readTwo_twoDigits (t := []) hsecond
  simp only [parse?, ofTimestamp_eq, readYear_yearText h, readTwo_twoDigits hmonth,
    readTwo_twoDigits hday, readTwo_twoDigits hhour, readTwo_twoDigits hminute, hlast, after?,
    Option.bind_eq_bind, Option.bind_some, if_true, List.isEmpty_nil, Date.of?_self,
    timeOfDay?_written]

/-- The year takes the digits of the month and of the day too. -/
theorem parse?_of_sign {sign : Char} {year : Nat} (hsign : sign = '-' ∨ sign = '+')
    (hyear : yearText stamp.date.year = sign :: padded 4 (ofNat year)) :
    parse? (ofTimestamp stamp) = none := by
  have hend : EndsNumber ('T' :: ofTime stamp.time) := by
    rintro c ⟨⟩
    rfl
  have hread := readYear_sign hsign
    (isDigit_of_mem_dayDigits year stamp.date.month stamp.date.day)
    (List.append_ne_nil_of_left_ne_nil (padded_ne_nil 4 year) _) hend
  obtain ⟨⟨z, t⟩, hz, rfl⟩ := Option.map_eq_some_iff.1 hread
  have hstamp : ofTimestamp stamp = sign :: (padded 4 (ofNat year) ++
      (twoDigits stamp.date.month ++ twoDigits stamp.date.day) ++ 'T' :: ofTime stamp.time) := by
    simp only [ofTimestamp, ofDate, hyear, List.cons_append, List.append_assoc]
  rw [parse?, hstamp, hz]
  rfl

theorem parse?_of_not_fourDigit (h : ¬(0 ≤ stamp.date.year ∧ stamp.date.year ≤ 9999)) :
    parse? (ofTimestamp stamp) = none := by
  by_cases hneg : stamp.date.year < 0
  · exact parse?_of_sign stamp (.inl rfl) (by rw [yearText, if_pos hneg])
  · exact parse?_of_sign stamp (.inr rfl) (by rw [yearText, if_neg hneg, if_pos (by omega)])

theorem length_ofTimestamp (h : 0 ≤ stamp.date.year ∧ stamp.date.year ≤ 9999) :
    (ofTimestamp stamp).length = 15 := by
  obtain ⟨hmonth, hday⟩ := stamp.date.lt_hundred
  obtain ⟨hhour, hminute, hsecond⟩ := stamp.time.lt_hundred
  simp only [ofTimestamp_eq, List.length_append, List.length_cons, length_yearText h,
    length_twoDigits hmonth, length_twoDigits hday, length_twoDigits hhour,
    length_twoDigits hminute, length_twoDigits hsecond]

/-- The timestamps of the years 0 to 9999, and no others, come back from their identifiers, to the
second. A leap second within a minute comes back as the second after it. -/
theorem parse?_ofTimestamp :
    (parse? (ofTimestamp stamp) = some { stamp with time := stamp.time.wholeSecond } ↔
      0 ≤ stamp.date.year ∧ stamp.date.year ≤ 9999) ∧
    (0 ≤ stamp.date.year ∧ stamp.date.year ≤ 9999 →
      (ofTimestamp stamp).length = 15 ∧ ofDate stamp.date <+: ofTimestamp stamp) ∧
    (¬(0 ≤ stamp.date.year ∧ stamp.date.year ≤ 9999) → parse? (ofTimestamp stamp) = none) := by
  refine ⟨⟨fun hsome => ?_, parse?_of_fourDigit stamp⟩, fun h => ?_, parse?_of_not_fourDigit stamp⟩
  · refine Decidable.byContradiction fun h => ?_
    rw [parse?_of_not_fourDigit stamp h] at hsome
    cases hsome
  · exact ⟨length_ofTimestamp stamp h, List.prefix_append ..⟩

def leapWithin : Timestamp :=
  ⟨⟨2023, 1, 15, by decide, by decide, by decide⟩,
    ⟨12, 56, 4, 1333333333, by decide, by decide, by decide, by decide⟩⟩

theorem parse?_ofTimestamp_leapWithin :
    (0 ≤ leapWithin.date.year ∧ leapWithin.date.year ≤ 9999) ∧
    parse? (ofTimestamp leapWithin) = some ⟨leapWithin.date,
      ⟨12, 56, 5, 0, by decide, by decide, by decide, by decide⟩⟩ ∧
    parse? (ofTimestamp leapWithin) ≠ some ⟨leapWithin.date,
      ⟨12, 56, 4, 1000000000, by decide, by decide, by decide, by decide⟩⟩ := by
  refine ⟨by decide, ?_, ?_⟩ <;> decide

/-- The first second of the year 10000: the year is read as 100000101. -/
example : parse? "+100000101T000000".toList = none := rfl

end Stamp

end Identifier

end NoteQuery
