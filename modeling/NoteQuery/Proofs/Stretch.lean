import NoteQuery.Pattern.Regex
import NoteQuery.Regex.Search

namespace NoteQuery

variable {t : Text} {i j : Nat}

namespace Regex

theorem matchesSeq_append {xs ys : List Regex} :
    MatchesSeq t (xs ++ ys) i j ↔ ∃ k, MatchesSeq t xs i k ∧ MatchesSeq t ys k j := by
  induction xs generalizing i with
  | nil => simp [MatchesSeq]
  | cons r rest ih =>
      simp only [List.cons_append, MatchesSeq, ih]
      constructor
      · rintro ⟨l, hr, k, hrest, hys⟩
        exact ⟨k, ⟨l, hr, hrest⟩, hys⟩
      · rintro ⟨k, ⟨l, hr, hrest⟩, hys⟩
        exact ⟨l, hr, k, hrest, hys⟩

theorem matchesSeq_singleton {r : Regex} : MatchesSeq t [r] i j ↔ Matches t r i j := by
  simp [MatchesSeq]

theorem matchesSome_iff {branches : List (List Regex)} :
    MatchesSome t branches i j ↔ ∃ b ∈ branches, MatchesSeq t b i j := by
  induction branches with
  | nil => simp [MatchesSome]
  | cons b rest ih => simp [MatchesSome, ih]

theorem matches_group {isOptional : Bool} {branches : List (List Regex)} :
    Matches t (.group isOptional branches) i j ↔
      (isOptional = true ∧ i = j) ∨ ∃ b ∈ branches, MatchesSeq t b i j := by
  rw [Matches, matchesSome_iff]

theorem matchesSeq_optional {row : List Regex} :
    MatchesSeq t [.group true [row]] i j ↔ i = j ∨ MatchesSeq t row i j := by
  simp [matchesSeq_singleton, matches_group]

theorem matchesSeq_either {row other : List Regex} :
    MatchesSeq t [.group false [row, other]] i j ↔
      MatchesSeq t row i j ∨ MatchesSeq t other i j := by
  simp [matchesSeq_singleton, matches_group]

mutual

theorem Matches.le {i j : Nat} (hi : i ≤ t.length) :
    (r : Regex) → Matches t r i j → i ≤ j ∧ j ≤ t.length
  | .char c, h => by
      obtain ⟨hc, rfl⟩ := h
      have := (List.getElem?_eq_some_iff.1 hc).1
      omega
  | .anyRun, h => ⟨h.1, h.2.1⟩
  | .anyTimes n, h => ⟨h.1 ▸ Nat.le_add_right i n, h.2.1⟩
  | .separator, h => by
      obtain ⟨⟨c, hc, _⟩, rfl⟩ := h
      have := (List.getElem?_eq_some_iff.1 hc).1
      omega
  | .never, h => h.elim
  | .textStart, h => h.2 ▸ ⟨Nat.le_refl i, hi⟩
  | .textEnd, h => h.2 ▸ ⟨Nat.le_refl i, hi⟩
  | .veryEnd, h => h.2 ▸ ⟨Nat.le_refl i, hi⟩
  | .wordStartHalf, h => h.2 ▸ ⟨Nat.le_refl i, hi⟩
  | .wordEndHalf, h => h.2 ▸ ⟨Nat.le_refl i, hi⟩
  | .group isOptional branches, h => by
      rcases h with ⟨_, rfl⟩ | h
      · exact ⟨Nat.le_refl i, hi⟩
      · exact MatchesSome.le hi branches h

theorem MatchesSeq.le {i j : Nat} (hi : i ≤ t.length) :
    (items : List Regex) → MatchesSeq t items i j → i ≤ j ∧ j ≤ t.length
  | [], h => h ▸ ⟨Nat.le_refl i, hi⟩
  | r :: rest, ⟨k, hr, hrest⟩ => by
      have hk := Matches.le hi r hr
      have hj := MatchesSeq.le hk.2 rest hrest
      exact ⟨Nat.le_trans hk.1 hj.1, hj.2⟩

theorem MatchesSome.le {i j : Nat} (hi : i ≤ t.length) :
    (branches : List (List Regex)) → MatchesSome t branches i j → i ≤ j ∧ j ≤ t.length
  | b :: _, .inl h => MatchesSeq.le hi b h
  | _ :: rest, .inr h => MatchesSome.le hi rest h

end

end Regex

namespace Pattern

theorem coversSome_iff {branches : List Pattern} :
    CoversSome t branches i j ↔ ∃ p ∈ branches, Covers t p i j := by
  induction branches with
  | nil => simp [CoversSome]
  | cons p rest ih => simp [CoversSome, ih]

mutual

theorem Covers.le {i j : Nat} (hi : i ≤ t.length) :
    (p : Pattern) → Covers t p i j → i ≤ j ∧ j ≤ t.length
  | .seq parts, h => CoversAll.le hi parts h
  | .alt branches, h => CoversSome.le hi branches h
  | .literal w, h => ⟨h.1 ▸ Nat.le_add_right i w.length, h.2.1⟩
  | .anyRun, h => h
  | .anyExactly n, h => ⟨h.1 ▸ Nat.le_add_right i n, h.2⟩
  | .wordStart, h => h.1 ▸ ⟨Nat.le_refl i, hi⟩
  | .wordEnd, h => h.1 ▸ ⟨Nat.le_refl i, hi⟩
  | .nameEnd, h => h.1 ▸ ⟨Nat.le_refl i, hi⟩

theorem CoversAll.le {i j : Nat} (hi : i ≤ t.length) :
    (parts : List Pattern) → CoversAll t parts i j → i ≤ j ∧ j ≤ t.length
  | [], h => h ▸ ⟨Nat.le_refl i, hi⟩
  | p :: rest, ⟨k, hp, hrest⟩ => by
      have hk := Covers.le hi p hp
      have hj := CoversAll.le hk.2 rest hrest
      exact ⟨Nat.le_trans hk.1 hj.1, hj.2⟩

theorem CoversSome.le {i j : Nat} (hi : i ≤ t.length) :
    (branches : List Pattern) → CoversSome t branches i j → i ≤ j ∧ j ≤ t.length
  | p :: _, .inl h => Covers.le hi p h
  | _ :: rest, .inr h => CoversSome.le hi rest h

end

theorem matchesSeq_chars {w : Text} (hi : i ≤ t.length) :
    Regex.MatchesSeq t (w.map .char) i j ↔ Covers t (.literal w) i j := by
  induction w generalizing i with
  | nil =>
      simp only [List.map_nil, Regex.MatchesSeq, Covers, List.length_nil, Nat.add_zero]
      constructor
      · rintro rfl
        exact ⟨rfl, hi, List.nil_prefix⟩
      · rintro ⟨rfl, _⟩
        rfl
  | cons c w ih =>
      simp only [List.map_cons, Regex.MatchesSeq, Regex.Matches]
      constructor
      · rintro ⟨_, ⟨hc, rfl⟩, h⟩
        have hlt := (List.getElem?_eq_some_iff.1 hc).1
        obtain ⟨rfl, hj, hw⟩ := (ih hlt).1 h
        refine ⟨by simp; omega, hj, ?_⟩
        rw [List.drop_eq_getElem_cons hlt, (List.getElem?_eq_some_iff.1 hc).2]
        exact List.cons_prefix_cons.2 ⟨rfl, hw⟩
      · rintro ⟨rfl, hj, hw⟩
        have hlt : i < t.length := by simp at hj; omega
        rw [List.drop_eq_getElem_cons hlt, List.cons_prefix_cons] at hw
        refine ⟨i + 1, ⟨List.getElem?_eq_some_iff.2 ⟨hlt, hw.1.symm⟩, rfl⟩, (ih hlt).2 ?_⟩
        exact ⟨by simp; omega, hj, hw.2⟩

theorem matchesSeq_chars_append (u w v : Text) :
    Regex.MatchesSeq (u ++ (w ++ v)) (w.map .char) u.length (u.length + w.length) := by
  refine (matchesSeq_chars (by simp)).2 ⟨rfl, by simp, ?_⟩
  rw [List.drop_left]
  exact List.prefix_append w v

end Pattern

end NoteQuery
