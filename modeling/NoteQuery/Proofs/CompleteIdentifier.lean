import NoteQuery.Proofs.TimestampForm

namespace NoteQuery.Identifier

open Text

/-- No blanks, no signs, nothing but digits and `T`. -/
def Plain (t : Text) : Prop := ∀ c ∈ t, c.isDigit = true ∨ c = 'T'

instance (t : Text) : Decidable (Plain t) := List.decidableBAll _ t

variable {n m count : Nat} {c : Char} {ds t rest : Text} {stamp : Timestamp} {year : Int}

section Readers

def TakenOff (count n : Nat) (t rest : Text) : Prop :=
  ∃ ds : Text, t = ds ++ rest ∧ (∀ c ∈ ds, c.isDigit = true) ∧ ds ≠ [] ∧ ds.length ≤ count ∧
    n = Nat.ofDigitChars 10 ds 0

theorem takeDigits_eq (h : takeDigits n count t = (m, rest)) :
    ∃ ds : Text, t = ds ++ rest ∧ (∀ c ∈ ds, c.isDigit = true) ∧ ds.length ≤ count ∧
      m = Nat.ofDigitChars 10 ds n := by
  induction count generalizing n t with
  | zero =>
      cases h
      exact ⟨[], rfl, nofun, Nat.le_refl 0, rfl⟩
  | succ count ih =>
      cases t with
      | nil =>
          cases h
          exact ⟨[], rfl, nofun, Nat.zero_le _, rfl⟩
      | cons c t =>
          rw [takeDigits] at h
          split at h
          · next d hd =>
            obtain ⟨hc, rfl⟩ := digit?_eq_some hd
            obtain ⟨ds, rfl, hds, hlen, hm⟩ := ih h
            exact ⟨c :: ds, rfl, List.forall_mem_cons.2 ⟨hc, hds⟩, Nat.succ_le_succ hlen, hm⟩
          · cases h
            exact ⟨[], rfl, nofun, Nat.zero_le _, rfl⟩

theorem readNumber_eq_some (hcount : 0 < count) (h : readNumber count t = some (n, rest)) :
    TakenOff count n t rest := by
  obtain ⟨count, rfl⟩ := Nat.exists_eq_add_one_of_ne_zero (Nat.ne_of_gt hcount)
  cases t with
  | nil => cases h
  | cons c t =>
      rw [readNumber] at h
      split at h
      · next hc =>
        have hd := digit?_of_isDigit (isDigit_iff.1 hc)
        rw [takeDigits, hd] at h
        obtain ⟨ds, rfl, hds, hlen, hn⟩ := takeDigits_eq (Option.some.inj h)
        exact ⟨c :: ds, rfl, List.forall_mem_cons.2 ⟨isDigit_iff.1 hc, hds⟩, List.cons_ne_nil c ds,
          Nat.succ_le_succ hlen, hn⟩
      · cases h

theorem Plain.of_append (h : Plain (ds ++ t)) : Plain t :=
  fun c hc => h c (List.mem_append_right ds hc)

theorem Plain.tail {c : Char} (h : Plain (c :: t)) : Plain t :=
  fun c hc => h c (List.mem_cons_of_mem _ hc)

theorem Plain.skipBlanks_eq (h : Plain t) : skipBlanks t = t := by
  cases t with
  | nil => rfl
  | cons c t =>
      have hc : isBlank c = false := by
        rcases h c (List.mem_cons_self ..) with hdigit | rfl
        · exact isBlank_of_isDigit hdigit
        · decide
      rw [skipBlanks, hc, if_neg Bool.false_ne_true]

theorem Plain.of_takenOff (ht : Plain t) (h : TakenOff count n t rest) : Plain rest := by
  obtain ⟨ds, rfl, -⟩ := h
  exact ht.of_append

theorem Plain.readTwo_eq_some (ht : Plain t) (h : readTwo t = some (n, rest)) :
    TakenOff 2 n t rest ∧ Plain rest := by
  rw [readTwo, ht.skipBlanks_eq] at h
  have htaken := readNumber_eq_some (by decide) h
  exact ⟨htaken, ht.of_takenOff htaken⟩

theorem Plain.readYear_eq_some (ht : Plain t) (h : readYear t = some (year, rest)) :
    (∃ n : Nat, year = n ∧ TakenOff 4 n t rest) ∧ Plain rest := by
  rw [readYear, ht.skipBlanks_eq] at h
  split at h
  · exact absurd (ht '-' (List.mem_cons_self ..)) (by decide)
  · exact absurd (ht '+' (List.mem_cons_self ..)) (by decide)
  · obtain ⟨⟨n, _⟩, hread, heq⟩ := Option.map_eq_some_iff.1 h
    cases heq
    have htaken := readNumber_eq_some (by decide) hread
    exact ⟨⟨n, rfl, htaken⟩, ht.of_takenOff htaken⟩

theorem eq_cons_of_after?_T (h : after? ['T'] t = some rest) : t = 'T' :: rest := by
  cases t with
  | nil => cases h
  | cons c t =>
      rw [after?] at h
      split at h
      · next hc =>
        cases h
        rw [← hc]
      · cases h

end Readers

section Written

theorem plain_of_isDigit (h : ∀ c ∈ t, c.isDigit = true) : Plain t := fun c hc => .inl (h c hc)

theorem Plain.append (hds : Plain ds) (ht : Plain t) : Plain (ds ++ t) := fun c hc =>
  (List.mem_append.1 hc).elim (hds c) (ht c)

theorem plain_twoDigits (n : Nat) : Plain (twoDigits n) :=
  plain_of_isDigit fun _ => isDigit_of_mem_padded

theorem plain_ofTimestamp (h : 0 ≤ stamp.date.year ∧ stamp.date.year ≤ 9999) :
    Plain (ofTimestamp stamp) := by
  have hT : Plain ['T'] := List.forall_mem_singleton.2 (.inr rfl)
  have hyear : Plain (yearText stamp.date.year) := by
    rw [yearText_of_fourDigit h]
    exact plain_of_isDigit fun _ => isDigit_of_mem_padded
  have hdate : Plain (ofDate stamp.date) :=
    (hyear.append (plain_twoDigits _)).append (plain_twoDigits _)
  have htime : Plain (ofTime stamp.time) :=
    ((plain_twoDigits _).append (plain_twoDigits _)).append (plain_twoDigits _)
  exact hdate.append (hT.append htime)

theorem fields_of_date {date : Date} {year : Int} {month day : Nat}
    (h : Date.of? year month day = some date) :
    date.year = year ∧ date.month = month ∧ date.day = day := by
  rw [Date.of?] at h
  split at h
  · cases h
    exact ⟨rfl, rfl, rfl⟩
  · cases h

theorem TimeOfDay.fields_of_some {time : TimeOfDay} {hour minute second nano : Nat}
    (h : TimeOfDay.of? hour minute second nano = some time) :
    time.hour = hour ∧ time.minute = minute ∧ time.second = second ∧ time.nano = nano := by
  rw [TimeOfDay.of?] at h
  split at h
  · cases h
    exact ⟨rfl, rfl, rfl, rfl⟩
  · cases h

theorem fields_of_time {time : TimeOfDay} {hour minute second : Nat}
    (h : timeOfDay? hour minute second = some time) :
    time.hour = hour ∧ time.minute = minute ∧
      time.second + time.nano / 1000000000 = second := by
  rw [timeOfDay?] at h
  split at h
  · next hleap =>
    obtain ⟨hhour, hminute, hsecond, hnano⟩ := TimeOfDay.fields_of_some h
    exact ⟨hhour, hminute, by omega⟩
  · obtain ⟨hhour, hminute, hsecond, hnano⟩ := TimeOfDay.fields_of_some h
    exact ⟨hhour, hminute, by omega⟩

end Written

theorem twoDigits_of_length (hds : ∀ c ∈ ds, c.isDigit = true) (hlen : ds.length = 2) :
    twoDigits (Nat.ofDigitChars 10 ds 0) = ds := by
  have hne : ds ≠ [] := List.length_pos_iff.1 (by omega)
  rw [twoDigits, ← hlen, padded_ofDigitChars hds hne]

theorem yearText_of_length (hds : ∀ c ∈ ds, c.isDigit = true) (hlen : ds.length = 4) :
    yearText (Nat.ofDigitChars 10 ds 0 : Nat) = ds := by
  have hne : ds ≠ [] := List.length_pos_iff.1 (by omega)
  have hlt : Nat.ofDigitChars 10 ds 0 < 10000 := by
    simpa [hlen] using ofDigitChars_lt hds 0
  rw [yearText_of_fourDigit (by omega), Int.natAbs_natCast, ← hlen, padded_ofDigitChars hds hne]

/-- In a plain text of fifteen characters no number lacks a digit. -/
theorem ofTimestamp_of_plain (h : parse? t = some stamp) (hlen : t.length = width)
    (ht : Plain t) : ofTimestamp stamp = t := by
  simp only [parse?, Option.bind_eq_bind, Option.bind_eq_some_iff,
    Option.ite_none_right_eq_some] at h
  obtain ⟨⟨_, t₁⟩, h₁, ⟨_, t₂⟩, h₂, ⟨_, t₃⟩, h₃, t₄, h₄, ⟨_, t₅⟩, h₅, ⟨_, t₆⟩, h₆, ⟨_, t₇⟩, h₇,
    hempty, date, hdate, time, htime, hstamp⟩ := h
  obtain ⟨⟨_, rfl, hy⟩, ht⟩ := ht.readYear_eq_some h₁
  obtain ⟨hmo, ht⟩ := ht.readTwo_eq_some h₂
  obtain ⟨hd, ht⟩ := ht.readTwo_eq_some h₃
  obtain rfl := eq_cons_of_after?_T h₄
  obtain ⟨hh, ht⟩ := ht.tail.readTwo_eq_some h₅
  obtain ⟨hmi, ht⟩ := ht.readTwo_eq_some h₆
  obtain ⟨hs, -⟩ := ht.readTwo_eq_some h₇
  obtain rfl := List.isEmpty_iff.1 hempty
  obtain ⟨y, rfl, hy, -, hylen, rfl⟩ := hy
  obtain ⟨mo, rfl, hmo, -, hmolen, rfl⟩ := hmo
  obtain ⟨d, rfl, hd, -, hdlen, rfl⟩ := hd
  obtain ⟨h, rfl, hh, -, hhlen, rfl⟩ := hh
  obtain ⟨mi, rfl, hmi, -, hmilen, rfl⟩ := hmi
  obtain ⟨s, rfl, hs, -, hslen, rfl⟩ := hs
  -- The six numbers may have fourteen digits between them, and they do.
  simp only [List.length_append, List.length_cons, List.length_nil, width] at hlen
  obtain ⟨hyear, hmonth, hday⟩ := fields_of_date hdate
  obtain ⟨hhour, hminute, hsecond⟩ := fields_of_time htime
  cases hstamp
  simp only [ofTimestamp_eq, hyear, hmonth, hday, hhour, hminute, hsecond, List.append_nil,
    yearText_of_length hy (by omega), twoDigits_of_length hmo (by omega),
    twoDigits_of_length hd (by omega), twoDigits_of_length hh (by omega),
    twoDigits_of_length hmi (by omega), twoDigits_of_length hs (by omega)]

/-- An accepted text is the identifier of its timestamp exactly if it is plain and has fifteen
characters. -/
theorem complete_iff_plain (h : parse? t = some stamp) :
    t.length = width ∧ ofTimestamp stamp = t ↔ t.length = width ∧ Plain t := by
  refine and_congr_right fun hlen => ⟨fun heq => ?_, ofTimestamp_of_plain h hlen⟩
  rw [← heq]
  apply plain_ofTimestamp
  refine Decidable.byContradiction fun hyear => ?_
  rw [← heq, parse?_of_not_fourDigit stamp hyear] at h
  cases h

theorem complete_iff_plain_of_leapSecond :
    ∃ stamp, parse? "20161231T235960".toList = some stamp ∧
      ofTimestamp stamp = "20161231T235960".toList := by
  have hsome : (parse? "20161231T235960".toList).isSome = true := by decide
  obtain ⟨stamp, hstamp⟩ := Option.isSome_iff_exists.1 hsome
  exact ⟨stamp, hstamp, ((complete_iff_plain hstamp).2 ⟨by decide, by decide⟩).2⟩

/-- An identifier without its last digit is taken for one of the full minute. -/
theorem exists_stamp_of_incomplete :
    ∃ stamp, parse? "20240115T09050".toList = some stamp ∧
      "20240115T09050".toList.length ≠ width ∧
        ofTimestamp stamp = "20240115T090500".toList := by
  have hread : (parse? "20240115T09050".toList).map ofTimestamp =
      some "20240115T090500".toList := by decide
  obtain ⟨stamp, hstamp, hwritten⟩ := Option.map_eq_some_iff.1 hread
  exact ⟨stamp, hstamp, by decide, hwritten⟩

end NoteQuery.Identifier
