import Mathlib
import NoteQuery.Proofs.CompleteIdentifier
import NoteQuery.Proofs.IdentifierWidth

namespace NoteQuery

namespace Identifier

open Text

variable {m n : Nat} {year year' : Int} {d d' : Date} {stamp : Timestamp}

theorem padded_injective {w : Nat} (h : padded w (ofNat m) = padded w (ofNat n)) : m = n := by
  rw [← ofDigitChars_padded w m, h, ofDigitChars_padded]

theorem head?_yearText_of_sign (h : ¬(0 ≤ year ∧ year ≤ 9999)) :
    ∃ rest : Text, yearText year = '-' :: rest ∨ yearText year = '+' :: rest := by
  rw [yearText]
  by_cases hneg : year < 0
  · rw [if_pos hneg]
    exact ⟨_, .inl rfl⟩
  · rw [if_neg hneg, if_pos (by omega)]
    exact ⟨_, .inr rfl⟩

theorem yearText_injective (h : 0 ≤ year ∧ year ≤ 9999) (h' : 0 ≤ year' ∧ year' ≤ 9999)
    (heq : yearText year = yearText year') : year = year' := by
  rw [yearText_of_fourDigit h, yearText_of_fourDigit h'] at heq
  have := padded_injective heq
  omega

theorem length_ofDate (h : 0 ≤ d.year ∧ d.year ≤ 9999) : (ofDate d).length = 8 := by
  obtain ⟨hmonth, hday⟩ := d.lt_hundred
  rw [ofDate, List.length_append, List.length_append, length_yearText h, length_twoDigits hmonth,
    length_twoDigits hday]

theorem ofDate_injective (h : 0 ≤ d.year ∧ d.year ≤ 9999) (h' : 0 ≤ d'.year ∧ d'.year ≤ 9999)
    (heq : ofDate d = ofDate d') : d = d' := by
  rw [ofDate, ofDate, List.append_assoc, List.append_assoc] at heq
  obtain ⟨hyear, heq⟩ := List.append_inj heq ((length_yearText h).trans (length_yearText h').symm)
  obtain ⟨hmonth, hday⟩ := List.append_inj heq
    ((length_twoDigits d.lt_hundred.1).trans (length_twoDigits d'.lt_hundred.1).symm)
  have hyear := yearText_injective h h' hyear
  have hmonth := padded_injective hmonth
  have hday := padded_injective hday
  cases d
  cases d'
  cases hyear
  cases hmonth
  cases hday
  rfl

/-- Of the days before the year 10000, the identifier of a timestamp begins with its own alone. Of
the others it begins with none, for they have a sign in front. -/
theorem ofDate_prefix_iff (hstamp : 0 ≤ stamp.date.year ∧ stamp.date.year ≤ 9999) :
    ofDate d <+: ofTimestamp stamp ↔ stamp.date = d := by
  constructor
  · intro hpre
    by_cases hd : 0 ≤ d.year ∧ d.year ≤ 9999
    · refine (ofDate_injective hd hstamp ?_).symm
      apply List.IsPrefix.eq_of_length _ ((length_ofDate hd).trans (length_ofDate hstamp).symm)
      refine List.prefix_of_prefix_length_le hpre (List.prefix_append ..) ?_
      rw [length_ofDate hd, length_ofDate hstamp]
    · obtain ⟨u, hu⟩ := hpre
      obtain ⟨rest, hsign⟩ := head?_yearText_of_sign hd
      have hplain := plain_ofTimestamp hstamp
      rw [← hu, ofDate] at hplain
      rcases hsign with hsign | hsign <;> rw [hsign] at hplain
      · exact absurd (hplain '-' (List.mem_cons_self ..)) (by decide)
      · exact absurd (hplain '+' (List.mem_cons_self ..)) (by decide)
  · rintro rfl
    exact List.prefix_append ..

theorem length_ofDate_le (d : Date) : (ofDate d).length ≤ width := by
  obtain ⟨hmonth, hday⟩ := d.lt_hundred
  have hyear := d.year_bounds
  have hlen : (padded 4 (ofNat d.year.natAbs)).length ≤ 6 := by
    have : (ofNat d.year.natAbs).length ≤ 6 :=
      (Nat.length_toDigits_le_iff (by decide) (by decide)).2 (by omega)
    rw [padded, List.length_append, List.length_replicate]
    omega
  have htext : (yearText d.year).length ≤ 7 := by
    simp only [yearText]
    repeat' split
    · exact Nat.succ_le_succ hlen
    · exact Nat.succ_le_succ hlen
    · exact hlen.trans (by decide)
  rw [ofDate, List.length_append, List.length_append, length_twoDigits hmonth,
    length_twoDigits hday, width]
  omega

end Identifier

namespace Query

open Pattern Regex

variable {c : Convention} (normalize : Normalizer) {v t : Text}

theorem exists_regex_withIdentifier (hfirst : c.layout.isFirst .identifier = true)
    (hv : v.length ≤ Identifier.width) (ht : '\n' ∉ t) :
    ∃ r, (empty.withIdentifier v).regex c normalize = .ok r ∧
      (Regex.isMatch r t = true ↔ ∃ i, i + Identifier.width ≤ t.length ∧ v <+: t.drop i) := by
  have hmem : .identifier ∈ c.layout.fields :=
    List.mem_of_mem_head? (beq_iff_eq.1 hfirst)
  cases hs : identifierSegment c.layout v with
  | error e => exact absurd ((identifierSegment_eq_error_iff c.layout).1 hs).1 (Nat.not_lt.2 hv)
  | ok s =>
      have hpattern : (empty.withIdentifier v).pattern c normalize = .ok (.separated [s]) := by
        rw [pattern_withIdentifier hmem, hs]
        rfl
      have husable : Regex.usable (Pattern.separated [s]).toRegex = true :=
        (isShallow_separated (List.forall_mem_singleton.2 (isShallow_of_identifierSegment hs))
          _ _).usable
      have hfree : (Pattern.separated [s]).anchorFree = true := by
        simp [Pattern.separated, withGaps, anchorFree, allAnchorFree,
          (identifierSegment_plain hs).1]
      refine ⟨(Pattern.separated [s]).toRegex, ?_, ?_⟩
      · simp [Query.regex, hpattern, bind, Except.bind, Pattern.regex, husable]
      · obtain ⟨n, body, hn, hbody, hs⟩ := identifierSegment_eq_ok hs
        rw [if_pos hfirst] at hs
        rw [← selects_identifier_iff hn hbody, ← hs, isMatch_iff_finds]
        exact exists_congr fun i => exists_congr fun j => and_congr_right fun hi =>
          matchesSeq_items ht rfl rfl hi _ hfree

/-- A query for a day finds the identifiers of that day and of no other. -/
theorem isMatch_withDate_iff (hfirst : c.layout.isFirst .identifier = true) (d : Date)
    {stamp : Timestamp} (hstamp : 0 ≤ stamp.date.year ∧ stamp.date.year ≤ 9999) :
    ∃ r, (empty.withDate d).regex c normalize = .ok r ∧
      (Regex.isMatch r (Identifier.ofTimestamp stamp) = true ↔ stamp.date = d) := by
  have hline : '\n' ∉ Identifier.ofTimestamp stamp := fun h =>
    absurd (Identifier.plain_ofTimestamp hstamp _ h) (by decide)
  obtain ⟨r, hr, hmatch⟩ := exists_regex_withIdentifier normalize hfirst
    (Identifier.length_ofDate_le d) hline
  refine ⟨r, hr, hmatch.trans ?_⟩
  rw [← Identifier.ofDate_prefix_iff hstamp, Identifier.length_ofTimestamp stamp hstamp]
  constructor
  · rintro ⟨i, hi, hpre⟩
    obtain rfl : i = 0 := by
      rw [Identifier.width] at hi
      omega
    exact hpre
  · exact fun hpre => ⟨0, Nat.le_refl 15, hpre⟩

def lastOfFebruary : Timestamp :=
  ⟨⟨2024, 2, 29, by decide, by decide, by decide⟩,
    ⟨23, 59, 59, 1500000000, by decide, by decide, by decide, by decide⟩⟩

theorem isMatch_withDate_iff_of_lastOfFebruary :
    Convention.standard.layout.isFirst .identifier = true ∧
      (0 ≤ lastOfFebruary.date.year ∧ lastOfFebruary.date.year ≤ 9999) ∧
        ∃ r, (empty.withDate lastOfFebruary.date).regex .standard slug = .ok r ∧
          Regex.isMatch r "20240229T235960".toList = true := by
  have hfirst : Convention.standard.layout.isFirst .identifier = true := by decide
  have hyear : 0 ≤ lastOfFebruary.date.year ∧ lastOfFebruary.date.year ≤ 9999 := by decide
  have hwritten : Identifier.ofTimestamp lastOfFebruary = "20240229T235960".toList := by decide
  obtain ⟨r, hr, hmatch⟩ :=
    isMatch_withDate_iff slug hfirst lastOfFebruary.date hyear
  exact ⟨hfirst, hyear, r, hr, hwritten ▸ hmatch.2 rfl⟩

end Query

end NoteQuery
