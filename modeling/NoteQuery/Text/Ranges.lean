namespace NoteQuery.Text

def isAscending : (least : Nat) → List (Nat × Nat) → Bool
  | _, [] => true
  | least, (lo, hi) :: rest => least ≤ lo && lo ≤ hi && isAscending (hi + 1) rest

/-- Closed code point ranges. -/
structure Ranges where
  list : List (Nat × Nat)
  ascending : isAscending 0 list = true

def isWithin (n : Nat) : List (Nat × Nat) → Bool
  | [] => false
  | (lo, hi) :: rest => if n < lo then false else if n ≤ hi then true else isWithin n rest

def Ranges.contains (r : Ranges) (n : Nat) : Bool := isWithin n r.list

variable {least n : Nat} {ranges : List (Nat × Nat)}

theorem le_of_isAscending (h : isAscending least ranges = true) :
    ∀ range ∈ ranges, least ≤ range.1 := by
  induction ranges generalizing least with
  | nil => nofun
  | cons range rest ih =>
    simp only [isAscending, Bool.and_eq_true, decide_eq_true_eq] at h
    obtain ⟨⟨hlow, hrange⟩, hrest⟩ := h
    refine List.forall_mem_cons.2 ⟨hlow, fun range' hrange' => ?_⟩
    have := ih hrest range' hrange'
    omega

theorem isWithin_iff (h : isAscending least ranges = true) :
    isWithin n ranges = true ↔ ∃ range ∈ ranges, range.1 ≤ n ∧ n ≤ range.2 := by
  induction ranges generalizing least with
  | nil => simp [isWithin]
  | cons range rest ih =>
    simp only [isAscending, Bool.and_eq_true, decide_eq_true_eq] at h
    obtain ⟨⟨-, hrange⟩, hrest⟩ := h
    simp only [isWithin, List.mem_cons, exists_eq_or_imp, ← ih hrest]
    split
    · next hlow =>
      -- Every range from here on begins above `n`.
      have hnone : ¬ isWithin n rest = true := by
        rw [ih hrest]
        rintro ⟨range', hmem, hle, -⟩
        have := le_of_isAscending hrest range' hmem
        omega
      simp [hnone, Nat.not_le.2 hlow]
    · next hlow =>
      split
      · next hhigh => simp [Nat.not_lt.1 hlow, hhigh]
      · next hhigh => simp [hhigh]

theorem Ranges.contains_iff (r : Ranges) :
    r.contains n = true ↔ ∃ range ∈ r.list, range.1 ≤ n ∧ n ≤ range.2 :=
  isWithin_iff r.ascending

end NoteQuery.Text
