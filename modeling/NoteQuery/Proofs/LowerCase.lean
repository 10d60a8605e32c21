import NoteQuery.Text.Lowercase

namespace NoteQuery.Text

variable {c d : Char} {n : Nat} {t : Text} {rows : List CaseRow} {row : CaseRow}

structure IsSmall (c : Char) : Prop where
  ne_dotted : c ≠ 'İ'
  noRow : findRow c.toNat caseRows = none

namespace CaseRow

def lower (row : CaseRow) (n : Nat) : Nat := ((n : Int) + row.offset).toNat

def interleaves (row other : CaseRow) : Bool :=
  other.step == 2 && (row.step == 2 || row.first == row.last) &&
    (row.lower row.first + other.first) % 2 == 1

/-- None of the rows holds the lower case of a character of `row`, for all that the search in them
gets to see. -/
def clears (row : CaseRow) : List CaseRow → Bool
  | [] => true
  | other :: rest =>
    (row.lower row.last).blt other.first ||
      (other.last.blt (row.lower row.first) || row.interleaves other) && row.clears rest

theorem covers_iff :
    row.covers n = true ↔ row.first ≤ n ∧ n ≤ row.last ∧ (n - row.first) % row.step = 0 := by
  simp [covers, and_assoc]

theorem lower_bounds (h : row.covers n = true) :
    row.lower row.first ≤ row.lower n ∧ row.lower n ≤ row.lower row.last := by
  obtain ⟨hfirst, hlast, -⟩ := covers_iff.1 h
  simp only [lower]
  omega

theorem not_covers_of_interleaves {other : CaseRow} (hoffset : 0 ≤ (row.first : Int) + row.offset)
    (h : row.covers n = true) (hi : row.interleaves other = true) :
    other.covers (row.lower n) = false := by
  obtain ⟨hfirst, hlast, hstep⟩ := covers_iff.1 h
  simp only [interleaves, Bool.and_eq_true, Bool.or_eq_true, beq_iff_eq] at hi
  obtain ⟨⟨hother, hrow⟩, hodd⟩ := hi
  refine Bool.eq_false_iff.2 fun hc => ?_
  obtain ⟨hle, -, heven⟩ := covers_iff.1 hc
  rw [hother] at heven
  have hn : (n - row.first) % 2 = 0 := by
    rcases hrow with hrow | hrow
    · rwa [hrow] at hstep
    · omega
  simp only [lower] at hodd hle heven
  omega

theorem findRow_of_clears (hoffset : 0 ≤ (row.first : Int) + row.offset) (h : row.covers n = true)
    (hrows : row.clears rows = true) : findRow (row.lower n) rows = none := by
  obtain ⟨hfirst, hlast⟩ := lower_bounds h
  induction rows with
  | nil => rfl
  | cons other rest ih =>
      simp only [clears, Bool.or_eq_true, Bool.and_eq_true, Nat.blt_eq] at hrows
      rw [findRow]
      split
      · rfl
      · next hnot =>
        rcases hrows with hbehind | ⟨hmissed, hrest⟩
        · omega
        · have hcovers : other.covers (row.lower n) = false := by
            rcases hmissed with hbefore | hbetween
            · exact Bool.eq_false_iff.2 fun hc => by
                have := covers_iff.1 hc
                omega
            · exact not_covers_of_interleaves hoffset h hbetween
          rw [hcovers]
          exact ih hrest

end CaseRow

theorem findRow_eq_find? (h : rows.Pairwise fun a b => a.first ≤ b.first) :
    findRow n rows = rows.find? (·.covers n) := by
  induction rows with
  | nil => rfl
  | cons row rest ih =>
      obtain ⟨hfirst, hrest⟩ := List.pairwise_cons.1 h
      rw [findRow]
      split
      · next hlow =>
        -- No row from here on begins at `n` or before it.
        refine (List.find?_eq_none.2 fun other hmem hc => ?_).symm
        have hother : row.first ≤ other.first :=
          (List.mem_cons.1 hmem).elim (fun heq => heq ▸ Nat.le_refl _) (hfirst other)
        have := (CaseRow.covers_iff.1 hc).1
        omega
      · split
        · next hc => rw [List.find?_cons, hc]
        · next hc => rw [List.find?_cons, Bool.eq_false_iff.2 hc, ih hrest]

/-- The search for a row misses none by stopping early. -/
theorem findRow_caseRows (n : Nat) : findRow n caseRows = caseRows.find? (·.covers n) :=
  findRow_eq_find? (by decide +kernel)

theorem caseRows_clear : ∀ row ∈ caseRows, row.clears caseRows = true := by decide +kernel

theorem caseRows_bounds : ∀ row ∈ caseRows, 0 ≤ (row.first : Int) + row.offset ∧
    (row.lower row.last < 0xd800 ∨ 0xdfff < row.lower row.first ∧ row.lower row.last < 0x110000) ∧
    (row.lower row.last < 0x130 ∨ 0x130 < row.lower row.first) := by
  decide +kernel

theorem isSmall_lower (hmem : row ∈ caseRows) (h : row.covers n = true) :
    IsSmall (Char.ofNat (row.lower n)) := by
  obtain ⟨hoffset, hvalid, hdotted⟩ := caseRows_bounds row hmem
  obtain ⟨hfirst, hlast⟩ := CaseRow.lower_bounds h
  have htoNat : (Char.ofNat (row.lower n)).toNat = row.lower n := by
    have hn : (row.lower n).isValidChar := by
      rcases hvalid with hlow | ⟨hhigh, hmax⟩
      · exact .inl (by omega)
      · exact .inr ⟨by omega, by omega⟩
    rw [Char.ofNat, dif_pos hn]
    rfl
  constructor
  · intro he
    have hdot : row.lower n = 0x130 := htoNat.symm.trans (congrArg Char.toNat he)
    omega
  · rw [htoNat]
    exact CaseRow.findRow_of_clears hoffset h (caseRows_clear row hmem)

theorem isSmall_of_mem_lowerAlone (h : d ∈ lowerAlone c) : IsSmall d := by
  rw [lowerAlone] at h
  split at h
  · rcases List.mem_cons.1 h with rfl | h
    · exact ⟨by decide, by decide⟩
    · obtain rfl := List.mem_singleton.1 h
      exact ⟨by decide, by decide⟩
  · next hdotted =>
    split at h
    · next row hrow =>
      obtain rfl := List.mem_singleton.1 h
      rw [findRow_caseRows] at hrow
      have hc := List.find?_some hrow
      exact isSmall_lower (List.mem_of_find?_eq_some hrow) hc
    · next hrow =>
      obtain rfl := List.mem_singleton.1 h
      exact ⟨hdotted, hrow⟩

theorem isSmall_of_mem_lowerFrom {afterCased : Bool} (h : c ∈ lowerFrom afterCased t) :
    IsSmall c := by
  induction t generalizing afterCased with
  | nil => exact nomatch h
  | cons d rest ih =>
      rw [lowerFrom, List.mem_append] at h
      rcases h with h | h
      · split at h
        · obtain rfl := List.mem_singleton.1 h
          split <;> exact ⟨by decide, by decide⟩
        · exact isSmall_of_mem_lowerAlone h
      · exact ih h

theorem isSmall_of_mem_lowercase (h : c ∈ t.lowercase) : IsSmall c := isSmall_of_mem_lowerFrom h

theorem lowerFrom_of_isSmall (h : ∀ c ∈ t, IsSmall c) (afterCased : Bool) :
    lowerFrom afterCased t = t := by
  induction t generalizing afterCased with
  | nil => rfl
  | cons c rest ih =>
      obtain ⟨hc, hrest⟩ := List.forall_mem_cons.1 h
      have hsigma : c ≠ 'Σ' := by
        rintro rfl
        exact absurd hc.noRow (by decide)
      rw [lowerFrom, if_neg hsigma, lowerAlone, if_neg hc.ne_dotted, hc.noRow, ih hrest]
      rfl

theorem lowercase_of_isSmall (h : ∀ c ∈ t, IsSmall c) : t.lowercase = t :=
  lowerFrom_of_isSmall h false

end NoteQuery.Text
