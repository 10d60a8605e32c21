import NoteQuery.Regex.Search

namespace NoteQuery.Regex

namespace Positions

variable {t : Text} {s a b : Positions} {p : Char → Bool}

def Has (s : Positions) (i : Nat) : Prop := s[i]? = some true

def Fits (t : Text) (s : Positions) : Prop := s.length = t.length + 1

theorem Has.lt {i : Nat} (h : Has s i) : i < s.length := (List.getElem?_eq_some_iff.1 h).1

theorem Has.le_length {i : Nat} (h : Has s i) (hs : Fits t s) : i ≤ t.length := by
  have := h.lt
  rw [hs] at this
  omega

theorem fits_none (t : Text) : Fits t (none t) := List.length_replicate

theorem fits_all (t : Text) : Fits t (all t) := List.length_replicate

theorem fits_first (t : Text) : Fits t (first t) := by simp [Fits, first]

theorem fits_last (t : Text) : Fits t (last t) := by simp [Fits, last]

theorem fits_notAfter (p : Char → Bool) (t : Text) : Fits t (notAfter p t) := by
  simp [Fits, notAfter]

theorem fits_notBefore (p : Char → Bool) (t : Text) : Fits t (notBefore p t) := by
  simp [Fits, notBefore]

theorem Fits.union (ha : Fits t a) (hb : Fits t b) : Fits t (a.union b) := by
  simp_all [Fits, Positions.union]

theorem Fits.restrict (ha : Fits t a) (hb : Fits t b) : Fits t (a.restrict b) := by
  simp_all [Fits, Positions.restrict]

theorem Fits.advance (hs : Fits t s) : Fits t (s.advance p t) := by
  simp_all [Fits, Positions.advance]

theorem Fits.advanceTimes (n : Nat) (hs : Fits t s) : Fits t (s.advanceTimes p t n) := by
  induction n generalizing s with
  | zero => exact hs
  | succ n ih =>
    simp only [Positions.advanceTimes]
    split
    · exact hs
    · exact ih hs.advance

theorem Fits.sweep (reached : Bool) (hs : Fits t s) : Fits t (s.sweep p reached t) := by
  induction t generalizing s reached with
  | nil =>
    match s, hs with
    | [_], _ => rfl
  | cons c t ih =>
    match s, hs with
    | _ :: rest, hs =>
      have hr : Fits t rest := by simpa [Fits] using hs
      simpa [Fits, Positions.sweep] using ih _ hr

theorem not_has_none {i : Nat} : ¬ Has (none t) i := by
  simp [Has, none, List.getElem?_replicate]

theorem has_all {i : Nat} : Has (all t) i ↔ i ≤ t.length := by
  have h : Has (all t) i ↔ i < t.length + 1 := by simp [Has, all, List.getElem?_replicate]
  exact h.trans Nat.lt_succ_iff

theorem has_first {i : Nat} : Has (first t) i ↔ i = 0 := by
  cases i <;> simp [Has, first, List.getElem?_replicate]

theorem has_last {i : Nat} : Has (last t) i ↔ i = t.length := by
  simp only [Has, last, List.getElem?_append, List.length_replicate, List.getElem?_replicate]
  by_cases h : i < t.length
  · simp [h, Nat.ne_of_lt h]
  · rw [if_neg h]
    by_cases he : i = t.length
    · simp [he]
    · have : i - t.length ≠ 0 := by omega
      cases hk : i - t.length with
      | zero => omega
      | succ k => simp [he]

theorem has_notAfter {i : Nat} :
    Has (notAfter p t) i ↔ i ≤ t.length ∧ ∀ k c, i = k + 1 → t[k]? = some c → p c = false := by
  cases i with
  | zero => simp [Has, notAfter]
  | succ k =>
    simp only [Has, notAfter, List.getElem?_cons_succ, List.getElem?_map]
    constructor
    · intro h
      obtain ⟨c, hc, hp⟩ := Option.map_eq_some_iff.1 h
      refine ⟨(List.getElem?_eq_some_iff.1 hc).1, fun k' d hk hd => ?_⟩
      obtain rfl : k = k' := by omega
      rw [hc] at hd
      cases hd
      simpa using hp
    · rintro ⟨hk, h⟩
      have hc : t[k]? = some t[k] := List.getElem?_eq_getElem hk
      simp [hc, h k _ rfl hc]

theorem has_notBefore {i : Nat} :
    Has (notBefore p t) i ↔ i ≤ t.length ∧ ∀ c, t[i]? = some c → p c = false := by
  simp only [Has, notBefore, List.getElem?_append, List.length_map, List.getElem?_map]
  by_cases h : i < t.length
  · have hc : t[i]? = some t[i] := List.getElem?_eq_getElem h
    simp [h, Nat.le_of_lt h]
  · rw [if_neg h]
    by_cases he : i = t.length
    · simp [he]
    · have hle : ¬ i ≤ t.length := by omega
      cases hk : i - t.length with
      | zero => omega
      | succ k => simp [hle]

theorem has_restrict {i : Nat} : Has (a.restrict b) i ↔ Has a i ∧ Has b i := by
  simp only [Has, Positions.restrict, List.getElem?_zipWith]
  cases a[i]? <;> cases b[i]? <;> simp

theorem has_union {i : Nat} (ha : Fits t a) (hb : Fits t b) :
    Has (a.union b) i ↔ Has a i ∨ Has b i := by
  simp only [Has, Positions.union, List.getElem?_zipWith]
  by_cases h : i < t.length + 1
  · have hia : i < a.length := ha ▸ h
    have hib : i < b.length := hb ▸ h
    simp [List.getElem?_eq_getElem hia, List.getElem?_eq_getElem hib]
  · have h₁ : a[i]? = Option.none := List.getElem?_eq_none (by rw [ha]; omega)
    have h₂ : b[i]? = Option.none := List.getElem?_eq_none (by rw [hb]; omega)
    simp [h₁, h₂]

def Run (p : Char → Bool) (t : Text) (i j : Nat) : Prop :=
  ∀ k, i ≤ k → k < j → ∃ c, t[k]? = some c ∧ p c = true

theorem has_advance {j : Nat} :
    Has (s.advance p t) j ↔ ∃ i c, j = i + 1 ∧ Has s i ∧ t[i]? = some c ∧ p c = true := by
  cases j with
  | zero => simp [Has, Positions.advance]
  | succ i =>
    simp only [Has, Positions.advance, List.getElem?_cons_succ, List.getElem?_zipWith]
    constructor
    · intro h
      cases hs : s[i]? with
      | none => simp [hs] at h
      | some here =>
        cases ht : t[i]? with
        | none => simp [hs, ht] at h
        | some c =>
          obtain ⟨rfl, hp⟩ : here = true ∧ p c = true := by simpa [hs, ht] using h
          exact ⟨i, c, rfl, hs, ht, hp⟩
    · rintro ⟨k, c, hk, hs, ht, hp⟩
      obtain rfl : i = k := by omega
      simp [hs, ht, hp]

theorem advanceTimes_of_advance_eq (h : s.advance p t = s) (n : Nat) :
    s.advanceTimes p t n = s := by
  cases n with
  | zero => rfl
  | succ n => exact if_pos h

theorem advanceTimes_succ (n : Nat) :
    s.advanceTimes p t (n + 1) = (s.advance p t).advanceTimes p t n := by
  by_cases h : s.advance p t = s
  · rw [advanceTimes_of_advance_eq h, h, advanceTimes_of_advance_eq h]
  · exact if_neg h

theorem has_advanceTimes {n j : Nat} :
    Has (s.advanceTimes p t n) j ↔ ∃ i, j = i + n ∧ Has s i ∧ Run p t i j := by
  induction n generalizing s with
  | zero =>
    constructor
    · exact fun h => ⟨j, rfl, h, fun k h₁ h₂ => by omega⟩
    · rintro ⟨i, rfl, h, _⟩
      exact h
  | succ n ih =>
    rw [advanceTimes_succ, ih]
    constructor
    · rintro ⟨k, rfl, h, hr⟩
      obtain ⟨i, c, rfl, hs, ht, hp⟩ := has_advance.1 h
      refine ⟨i, by omega, hs, fun m h₁ h₂ => ?_⟩
      by_cases hm : m = i
      · exact ⟨c, hm ▸ ht, hp⟩
      · exact hr m (by omega) h₂
    · rintro ⟨i, rfl, hs, hr⟩
      obtain ⟨c, ht, hp⟩ := hr i (Nat.le_refl i) (by omega)
      exact ⟨i + 1, by omega, has_advance.2 ⟨i, c, rfl, hs, ht, hp⟩,
        fun m h₁ h₂ => hr m (by omega) h₂⟩

theorem run_cons {c : Char} {i j : Nat} : Run p (c :: t) (i + 1) (j + 1) ↔ Run p t i j := by
  constructor
  · intro h k h₁ h₂
    simpa using h (k + 1) (by omega) (by omega)
  · intro h k h₁ h₂
    obtain ⟨m, rfl⟩ : ∃ m, k = m + 1 := ⟨k - 1, by omega⟩
    simpa using h m (by omega) (by omega)

theorem run_zero_cons {c : Char} {j : Nat} :
    Run p (c :: t) 0 (j + 1) ↔ p c = true ∧ Run p t 0 j := by
  constructor
  · intro h
    refine ⟨?_, fun k _ h₂ => ?_⟩
    · simpa using h 0 (Nat.le_refl 0) (by omega)
    · simpa using h (k + 1) (by omega) (by omega)
  · rintro ⟨hp, h⟩ k _ h₂
    cases k with
    | zero => exact ⟨c, rfl, hp⟩
    | succ k => simpa using h k (by omega) (by omega)

theorem Run.le_length {i j : Nat} (hi : i ≤ t.length) (h : Run p t i j) : j ≤ t.length := by
  by_cases hij : j ≤ i
  · omega
  · obtain ⟨c, hc, _⟩ := h (j - 1) (by omega) (by omega)
    have := (List.getElem?_eq_some_iff.1 hc).1
    omega

theorem has_sweep {reached : Bool} {j : Nat} (hs : Fits t s) :
    Has (s.sweep p reached t) j ↔
      (∃ i, i ≤ j ∧ Has s i ∧ Run p t i j) ∨ (reached = true ∧ j ≤ t.length ∧ Run p t 0 j) := by
  induction t generalizing s reached j with
  | nil =>
    match s, hs with
    | [here], _ =>
      cases j with
      | zero =>
        have hr : Run p [] 0 0 := fun k _ h => by omega
        simp [Has, sweep, hr]
      | succ j =>
        constructor
        · intro h
          simp [Has, sweep] at h
        · rintro (⟨i, hi, h, hr⟩ | ⟨_, h, _⟩)
          · obtain ⟨c, hc, _⟩ := hr i (Nat.le_refl i) (by have := h.lt; simp at this; omega)
            simp at hc
          · simp at h
  | cons c t ih =>
    match s, hs with
    | here :: rest, hs =>
      have hrest : Fits t rest := by simpa [Fits] using hs
      cases j with
      | zero =>
        have hr : Run p (c :: t) 0 0 := fun k _ h => by omega
        simp [Has, sweep, hr]
      | succ j =>
        have := @ih rest ((here || reached) && p c) j hrest
        simp only [Has, sweep, List.getElem?_cons_succ] at this ⊢
        rw [this]
        constructor
        · rintro (⟨i, hi, h, hr⟩ | ⟨h, hj, hr⟩)
          · exact .inl ⟨i + 1, by omega, by simpa using h, run_cons.2 hr⟩
          · simp only [Bool.and_eq_true, Bool.or_eq_true] at h
            obtain ⟨hh | hh, hp⟩ := h
            · exact .inl ⟨0, by omega, by simp [hh], run_zero_cons.2 ⟨hp, hr⟩⟩
            · exact .inr ⟨hh, by simpa using hj, run_zero_cons.2 ⟨hp, hr⟩⟩
        · rintro (⟨i, hi, h, hr⟩ | ⟨hh, hj, hr⟩)
          · cases i with
            | zero =>
              obtain ⟨hp, hr'⟩ := run_zero_cons.1 hr
              exact .inr ⟨by simp_all, hr'.le_length (Nat.zero_le _), hr'⟩
            | succ i => exact .inl ⟨i, by omega, by simpa using h, run_cons.1 hr⟩
          · obtain ⟨hp, hr'⟩ := run_zero_cons.1 hr
            exact .inr ⟨by simp [hh, hp], by simpa using hj, hr'⟩

end Positions

open Positions

variable {t : Text}

theorem oneLine_of_run {i j : Nat} (h : Run notLineFeed t i j) : OneLine t i j := by
  intro k h₁ h₂ hk
  obtain ⟨c, hc, hn⟩ := h k h₁ h₂
  rw [hk] at hc
  cases hc
  simp [notLineFeed] at hn

theorem run_of_oneLine {i j : Nat} (hj : j ≤ t.length) (h : OneLine t i j) :
    Run notLineFeed t i j := by
  intro k h₁ h₂
  have hk : t[k]? = some t[k] := List.getElem?_eq_getElem (by omega)
  refine ⟨_, hk, ?_⟩
  have := h k h₁ h₂
  rw [hk] at this
  simpa [notLineFeed] using this

mutual

theorem fits_reach {s : Positions} (hs : Fits t s) : (r : Regex) → Fits t (reach t r s)
  | .char _ => hs.advance
  | .anyRun => hs.sweep _
  | .anyTimes n => hs.advanceTimes n
  | .separator => hs.advance
  | .never => fits_none t
  | .textStart => hs.restrict (fits_first t)
  | .textEnd => hs.restrict (fits_last t)
  | .veryEnd => hs.restrict (fits_last t)
  | .wordStartHalf => hs.restrict (fits_notAfter _ t)
  | .wordEndHalf => hs.restrict (fits_notBefore _ t)
  | .group isOptional branches => by
    rw [reach]
    split
    · exact hs.union (fits_reachSome hs branches)
    · exact fits_reachSome hs branches

theorem fits_reachSeq {s : Positions} (hs : Fits t s) :
    (items : List Regex) → Fits t (reachSeq t items s)
  | [] => hs
  | r :: rest => fits_reachSeq (fits_reach hs r) rest

theorem fits_reachSome {s : Positions} (hs : Fits t s) :
    (branches : List (List Regex)) → Fits t (reachSome t branches s)
  | [] => fits_none t
  | b :: rest => (fits_reachSeq hs b).union (fits_reachSome hs rest)

end

/-- An item that tests a position without taking up a character keeps the positions that pass. -/
theorem has_restrict_iff {s b : Positions} {p : Nat → Prop} {j : Nat}
    (h : ∀ i, Has s i → (Has b i ↔ p i)) :
    Has (s.restrict b) j ↔ ∃ i, Has s i ∧ p i ∧ i = j := by
  rw [has_restrict]
  constructor
  · rintro ⟨hs, hb⟩
    exact ⟨j, hs, (h j hs).1 hb, rfl⟩
  · rintro ⟨i, hs, hp, rfl⟩
    exact ⟨hs, (h i hs).2 hp⟩

mutual

theorem has_reach {s : Positions} {j : Nat} (hs : Fits t s) : (r : Regex) →
    (Has (reach t r s) j ↔ ∃ i, Has s i ∧ Matches t r i j)
  | .char c => by
    rw [reach, has_advance]
    constructor
    · rintro ⟨i, d, rfl, hi, hd, he⟩
      obtain rfl : d = c := by simpa using he
      exact ⟨i, hi, hd, rfl⟩
    · rintro ⟨i, hi, hc, rfl⟩
      exact ⟨i, c, rfl, hi, hc, by simp⟩
  | .anyRun => by
    rw [reach, has_sweep hs]
    constructor
    · rintro (⟨i, hij, hi, hr⟩ | ⟨h, _⟩)
      · exact ⟨i, hi, hij, hr.le_length (hi.le_length hs), oneLine_of_run hr⟩
      · simp at h
    · rintro ⟨i, hi, hij, hj, h⟩
      exact .inl ⟨i, hij, hi, run_of_oneLine hj h⟩
  | .anyTimes n => by
    rw [reach, has_advanceTimes]
    constructor
    · rintro ⟨i, hij, hi, hr⟩
      exact ⟨i, hi, hij, hr.le_length (hi.le_length hs), oneLine_of_run hr⟩
    · rintro ⟨i, hi, hij, hj, h⟩
      exact ⟨i, hij, hi, run_of_oneLine hj h⟩
  | .separator => by
    rw [reach, has_advance]
    constructor
    · rintro ⟨i, c, rfl, hi, hc, hp⟩
      exact ⟨i, hi, ⟨c, hc, hp⟩, rfl⟩
    · rintro ⟨i, hi, ⟨c, hc, hp⟩, rfl⟩
      exact ⟨i, c, rfl, hi, hc, hp⟩
  | .never => by
    rw [reach]
    exact ⟨fun h => absurd h not_has_none, fun ⟨_, _, h⟩ => h.elim⟩
  | .textStart => has_restrict_iff fun _ _ => has_first
  | .textEnd => has_restrict_iff fun _ _ => has_last
  | .veryEnd => has_restrict_iff fun _ _ => has_last
  | .wordStartHalf =>
    has_restrict_iff fun _ hi => has_notAfter.trans (and_iff_right (hi.le_length hs))
  | .wordEndHalf =>
    has_restrict_iff fun _ hi => has_notBefore.trans (and_iff_right (hi.le_length hs))
  | .group isOptional branches => by
    rw [reach]
    cases isOptional with
    | false =>
      rw [if_neg (by decide), has_reachSome hs branches]
      exact ⟨fun ⟨i, hi, h⟩ => ⟨i, hi, .inr h⟩,
        fun ⟨i, hi, h⟩ => ⟨i, hi, h.resolve_left fun h => by simp at h⟩⟩
    | true =>
      rw [if_pos rfl, has_union hs (fits_reachSome hs branches), has_reachSome hs branches]
      constructor
      · rintro (h | ⟨i, hi, h⟩)
        · exact ⟨j, h, .inl ⟨rfl, rfl⟩⟩
        · exact ⟨i, hi, .inr h⟩
      · rintro ⟨i, hi, ⟨_, rfl⟩ | h⟩
        · exact .inl hi
        · exact .inr ⟨i, hi, h⟩

theorem has_reachSeq {s : Positions} {j : Nat} (hs : Fits t s) : (items : List Regex) →
    (Has (reachSeq t items s) j ↔ ∃ i, Has s i ∧ MatchesSeq t items i j)
  | [] => by
    rw [reachSeq]
    exact ⟨fun h => ⟨j, h, rfl⟩, fun ⟨_, h, hij⟩ => hij ▸ h⟩
  | r :: rest => by
    rw [reachSeq, has_reachSeq (fits_reach hs r) rest]
    constructor
    · rintro ⟨k, hk, hr⟩
      obtain ⟨i, hi, h⟩ := (has_reach hs r).1 hk
      exact ⟨i, hi, k, h, hr⟩
    · rintro ⟨i, hi, k, h, hr⟩
      exact ⟨k, (has_reach hs r).2 ⟨i, hi, h⟩, hr⟩

theorem has_reachSome {s : Positions} {j : Nat} (hs : Fits t s) :
    (branches : List (List Regex)) →
    (Has (reachSome t branches s) j ↔ ∃ i, Has s i ∧ MatchesSome t branches i j)
  | [] => by
    rw [reachSome]
    exact ⟨fun h => absurd h not_has_none, fun ⟨_, _, h⟩ => h.elim⟩
  | b :: rest => by
    rw [reachSome, has_union (fits_reachSeq hs b) (fits_reachSome hs rest), has_reachSeq hs b,
      has_reachSome hs rest]
    constructor
    · rintro (⟨i, hi, h⟩ | ⟨i, hi, h⟩)
      · exact ⟨i, hi, .inl h⟩
      · exact ⟨i, hi, .inr h⟩
    · rintro ⟨i, hi, h | h⟩
      · exact .inl ⟨i, hi, h⟩
      · exact .inr ⟨i, hi, h⟩

end

theorem isMatch_iff_finds {items : List Regex} : isMatch items t = true ↔ Finds items t := by
  have hreach (j : Nat) := has_reachSeq (j := j) (fits_all t) items
  constructor
  · intro h
    obtain ⟨x, hx, rfl⟩ := List.any_eq_true.1 h
    obtain ⟨j, hj⟩ := List.getElem?_of_mem hx
    obtain ⟨i, hi, hm⟩ := (hreach j).1 hj
    exact ⟨i, j, has_all.1 hi, hm⟩
  · rintro ⟨i, j, hi, hm⟩
    have hj := (hreach j).2 ⟨i, has_all.2 hi, hm⟩
    exact List.any_eq_true.2 ⟨true, List.mem_of_getElem? hj, rfl⟩

end NoteQuery.Regex
