import NoteQuery.Proofs.WordTree

namespace NoteQuery

/-- A name on one line in which the separators are the characters that are not alphanumeric. -/
structure Text.Conventional (t : Text) : Prop where
  oneLine : '\n' ∉ t
  separator : ∀ c ∈ t, Text.isSeparator c = !Text.isAlphanumeric c

theorem Text.forall_of_all {P : Char → Prop} [DecidablePred P] {t : Text}
    (h : t.all (fun c => decide (P c)) = true) : ∀ c ∈ t, P c :=
  fun c hc => of_decide_eq_true (List.all_eq_true.1 h c hc)

def Text.SeparatorAt (t : Text) (i : Nat) : Prop :=
  ∃ c, t[i]? = some c ∧ Text.isSeparator c = true

namespace Pattern

open Regex Text

variable {t : Text} {i j k : Nat}

theorem startsWord_zero : StartsWord t 0 := by
  intro k c hk
  omega

theorem startsWord_succ : StartsWord t (i + 1) ↔ EndsWord t i := by
  constructor
  · intro h c hc
    exact h i c rfl hc
  · intro h k c hk hc
    obtain rfl : i = k := by omega
    exact h c hc

theorem endsWord_of_length_le (h : t.length ≤ i) : EndsWord t i := by
  intro c hc
  simp [List.getElem?_eq_none h] at hc

def SkipsTo (t : Text) (i j : Nat) : Prop :=
  i = j ∨ ∃ k, j = k + 1 ∧ i ≤ k ∧ OneLine t i k ∧ SeparatorAt t k

def SkipsFrom (t : Text) (i j : Nat) : Prop :=
  i = j ∨ SeparatorAt t i ∧ i < j ∧ j ≤ t.length ∧ OneLine t (i + 1) j

theorem SkipsFrom.le (h : SkipsFrom t i j) (hi : i ≤ t.length) : i ≤ j ∧ j ≤ t.length := by
  rcases h with rfl | ⟨_, hij, hj, _⟩
  · exact ⟨Nat.le_refl i, hi⟩
  · exact ⟨Nat.le_of_lt hij, hj⟩

theorem matchesSeq_run_separator : MatchesSeq t [.anyRun, .separator] i j ↔
    ∃ k, j = k + 1 ∧ i ≤ k ∧ OneLine t i k ∧ SeparatorAt t k := by
  constructor
  · rintro ⟨k, ⟨hik, _, hone⟩, _, ⟨hsep, rfl⟩, rfl⟩
    exact ⟨k, rfl, hik, hone, hsep⟩
  · rintro ⟨k, rfl, hik, hone, hsep⟩
    have hk : k ≤ t.length := by
      obtain ⟨c, hc, _⟩ := hsep
      exact Nat.le_of_lt (List.getElem?_eq_some_iff.1 hc).1
    exact ⟨k, ⟨hik, hk, hone⟩, k + 1, ⟨hsep, rfl⟩, rfl⟩

theorem matchesSeq_separator_run : MatchesSeq t [.separator, .anyRun] i j ↔
    SeparatorAt t i ∧ i < j ∧ j ≤ t.length ∧ OneLine t (i + 1) j := by
  constructor
  · rintro ⟨_, ⟨hsep, rfl⟩, _, ⟨hij, hj, hone⟩, rfl⟩
    exact ⟨hsep, hij, hj, hone⟩
  · rintro ⟨hsep, hij, hj, hone⟩
    exact ⟨i + 1, ⟨hsep, rfl⟩, j, ⟨hij, hj, hone⟩, rfl⟩

theorem matchesSeq_skip_to_word :
    MatchesSeq t (gapItems false true .separator .unknown) i j ↔ SkipsTo t i j := by
  simp only [SkipsTo, gapItems, matchesSeq_singleton, matches_group, List.mem_singleton, exists_eq_left,
    true_and, matchesSeq_run_separator]

theorem matchesSeq_skip_from_word :
    MatchesSeq t (gapItems true false .unknown .separator) i j ↔ SkipsFrom t i j := by
  simp only [SkipsFrom, gapItems, matchesSeq_singleton, matches_group, List.mem_singleton, exists_eq_left,
    true_and, matchesSeq_separator_run]

theorem endsWord_of_separatorAt (ht : ∀ c ∈ t, isSeparator c = !isAlphanumeric c)
    (h : SeparatorAt t i) : EndsWord t i := by
  obtain ⟨c, hc, hs⟩ := h
  intro d hd
  obtain rfl : c = d := Option.some.inj (hc.symm.trans hd)
  simpa [ht c (List.mem_of_getElem? hc)] using hs

section Conventional

variable (ht : t.Conventional)

include ht

theorem separatorAt_iff : SeparatorAt t i ↔ i < t.length ∧ EndsWord t i := by
  constructor
  · intro h
    refine ⟨?_, endsWord_of_separatorAt ht.separator h⟩
    obtain ⟨c, hc, _⟩ := h
    exact (List.getElem?_eq_some_iff.1 hc).1
  · rintro ⟨hi, h⟩
    have hc : t[i]? = some t[i] := List.getElem?_eq_getElem hi
    exact ⟨t[i], hc, by simp [ht.separator _ (List.getElem_mem hi), h _ hc]⟩

/-- A gap between two words consumes a separator at either end, which may be one and the same. -/
theorem matchesSeq_wordGap :
    MatchesSeq t wordGap i j ↔ i < j ∧ j ≤ t.length ∧ EndsWord t i ∧ StartsWord t j := by
  simp only [wordGap, MatchesSeq, Matches, MatchesSome]
  constructor
  · rintro ⟨_, ⟨hsep, rfl⟩, _, hgroup, rfl⟩
    obtain ⟨hi, hend⟩ := (separatorAt_iff ht).1 hsep
    rcases hgroup with ⟨_, rfl⟩ | ⟨m, ⟨him, _⟩, _, ⟨hsep', rfl⟩, rfl⟩ | h
    · exact ⟨by omega, hi, hend, startsWord_succ.2 hend⟩
    · obtain ⟨hm, hend'⟩ := (separatorAt_iff ht).1 hsep'
      exact ⟨by omega, hm, hend, startsWord_succ.2 hend'⟩
    · exact h.elim
  · rintro ⟨hij, hj, hend, hstart⟩
    refine ⟨i + 1, ⟨(separatorAt_iff ht).2 ⟨by omega, hend⟩, rfl⟩, j, ?_, rfl⟩
    by_cases he : i + 1 = j
    · exact .inl ⟨trivial, he⟩
    · obtain ⟨m, rfl⟩ : ∃ m, j = m + 1 := ⟨j - 1, by omega⟩
      have hm := (separatorAt_iff ht).2 ⟨by omega, startsWord_succ.1 hstart⟩
      exact .inr (.inl ⟨m, ⟨by omega, by omega, oneLine_of_not_mem ht.oneLine _ _⟩, m + 1,
        ⟨hm, rfl⟩, rfl⟩)

theorem matchesSeq_gap_before (h : StartsWord t i) (hi : i ≤ t.length) :
    MatchesSeq t (gapItems false true .separator .unknown) i j ↔
      i ≤ j ∧ j ≤ t.length ∧ StartsWord t j := by
  rw [matchesSeq_skip_to_word]
  constructor
  · rintro (rfl | ⟨k, rfl, hik, _, hsep⟩)
    · exact ⟨Nat.le_refl i, hi, h⟩
    · obtain ⟨hk, hend⟩ := (separatorAt_iff ht).1 hsep
      exact ⟨by omega, hk, startsWord_succ.2 hend⟩
  · rintro ⟨hij, hj, hstart⟩
    by_cases he : i = j
    · exact .inl he
    · obtain ⟨k, rfl⟩ : ∃ k, j = k + 1 := ⟨j - 1, by omega⟩
      exact .inr ⟨k, rfl, by omega, oneLine_of_not_mem ht.oneLine _ _,
        (separatorAt_iff ht).2 ⟨hj, startsWord_succ.1 hstart⟩⟩

theorem matchesSeq_gap_after (h : EndsWord t j) (hi : i ≤ t.length) :
    MatchesSeq t (gapItems true false .unknown .separator) i j ↔
      i ≤ j ∧ j ≤ t.length ∧ EndsWord t i := by
  rw [matchesSeq_skip_from_word]
  constructor
  · rintro (rfl | ⟨hsep, hij, hj, _⟩)
    · exact ⟨Nat.le_refl i, hi, h⟩
    · exact ⟨Nat.le_of_lt hij, hj, ((separatorAt_iff ht).1 hsep).2⟩
  · rintro ⟨hij, hj, hend⟩
    rcases Nat.eq_or_lt_of_le hij with he | hlt
    · exact .inl he
    · exact .inr ⟨(separatorAt_iff ht).2 ⟨by omega, hend⟩, hlt, hj,
        oneLine_of_not_mem ht.oneLine _ _⟩

theorem matchesSeq_closing (hi : i ≤ t.length) :
    (∃ j, MatchesSeq t Boundary.consumes.endItems i j) ↔ EndsWord t i := by
  simp only [Boundary.endItems, MatchesSeq, Matches, MatchesSome]
  constructor
  · rintro ⟨_, _, ⟨h, _⟩ | ⟨_, ⟨hsep, rfl⟩, rfl⟩ | ⟨_, ⟨rfl, rfl⟩, rfl⟩ | h, rfl⟩
    · simp at h
    · exact ((separatorAt_iff ht).1 hsep).2
    · exact endsWord_of_length_le (Nat.le_refl _)
    · exact h.elim
  · intro h
    by_cases he : i = t.length
    · exact ⟨i, i, .inr (.inr (.inl ⟨i, ⟨he, rfl⟩, rfl⟩)), rfl⟩
    · have hsep := (separatorAt_iff ht).2 ⟨by omega, h⟩
      exact ⟨i + 1, i + 1, .inr (.inl ⟨i + 1, ⟨hsep, rfl⟩, rfl⟩), rfl⟩

end Conventional

section Trees

variable {p : Pattern}

theorem stems_cons (p : Pattern) (ps : List Pattern) :
    ∃ tail, stems (p :: ps) = p.stem ++ tail := by
  cases ps with
  | nil => exact ⟨[], by simp [stems]⟩
  | cons q more => exact ⟨_, rfl⟩

theorem WordTree.stem_starts (h : WordTree IsWord p) (hm : MatchesSeq t p.stem i k) :
    ∃ c, t[i]? = some c ∧ isAlphanumeric c = true := by
  induction h generalizing k with
  | @word w hw =>
      rw [stem_word] at hm
      cases w with
      | nil => exact absurd rfl hw.ne_nil
      | cons c w =>
          obtain ⟨_, ⟨hc, _⟩, _⟩ := hm
          exact ⟨c, hc, hw.alphanumeric c (by simp)⟩
  | @alt ps hne h ih =>
      rw [stem_alt hne h, matchesSeq_singleton, matches_group] at hm
      rcases hm with ⟨hf, _⟩ | ⟨b, hb, hm⟩
      · simp at hf
      · obtain ⟨p, hp, rfl⟩ := List.mem_map.1 hb
        exact ih p hp hm
  | @separated ps hne h ih =>
      obtain ⟨p, rest, rfl⟩ := List.exists_cons_of_ne_nil hne
      obtain ⟨tail, he⟩ := stems_cons p rest
      rw [stem_separated hne h, he, matchesSeq_append] at hm
      obtain ⟨l, hl, _⟩ := hm
      exact ih p (by simp) hl

theorem coversAll_withGaps {ps : List Pattern} (ht : t.Conventional) (hne : ps ≠ [])
    (hps : ∀ p ∈ ps, WordTree IsWord p)
    (h : ∀ p ∈ ps, ∀ i k, i ≤ t.length →
      (Covers t p i k ↔ StartsWord t i ∧ MatchesSeq t p.stem i k ∧ EndsWord t k))
    (hi : i ≤ t.length) :
    CoversAll t (withGaps ps) i k ↔
      StartsWord t i ∧ MatchesSeq t (stems ps) i k ∧ EndsWord t k := by
  induction ps generalizing i with
  | nil => exact absurd rfl hne
  | cons p rest ih =>
      cases rest with
      | nil => simpa [withGaps, CoversAll, stems] using h p (by simp) i k hi
      | cons q more =>
          have hrest (l : Nat) (hl : l ≤ t.length) := ih (i := l) (by simp)
            (fun p hp => hps p (by simp [hp])) (fun p hp => h p (by simp [hp])) hl
          simp only [withGaps, CoversAll, stems, matchesSeq_append, Covers]
          constructor
          · rintro ⟨l, hp, m, ⟨hlm, hm⟩, hq⟩
            obtain ⟨hstart, hstem, hend⟩ := (h p (by simp) i l hi).1 hp
            obtain ⟨hstart', hstems, hend'⟩ := (hrest m hm).1 hq
            have hlt : l < m := by
              rcases Nat.lt_or_eq_of_le hlm with hlt | rfl
              · exact hlt
              · obtain ⟨tail, he⟩ := stems_cons q more
                rw [he, matchesSeq_append] at hstems
                obtain ⟨_, hq', _⟩ := hstems
                obtain ⟨c, hc, hw⟩ := (hps q (by simp)).stem_starts hq'
                simp [hend c hc] at hw
            exact ⟨hstart, ⟨l, hstem, m, (matchesSeq_wordGap ht).2 ⟨hlt, hm, hend, hstart'⟩,
              hstems⟩, hend'⟩
          · rintro ⟨hstart, ⟨l, hstem, m, hgap, hstems⟩, hend'⟩
            obtain ⟨hlt, hm, hend, hstart'⟩ := (matchesSeq_wordGap ht).1 hgap
            exact ⟨l, (h p (by simp) i l hi).2 ⟨hstart, hstem, hend⟩, m, ⟨Nat.le_of_lt hlt, hm⟩,
              (hrest m hm).2 ⟨hstart', hstems, hend'⟩⟩

/-- A tree means what its stem matches, with no letter or numeral on either side. -/
theorem WordTree.covers_iff (ht : t.Conventional) (h : WordTree IsWord p) (hi : i ≤ t.length) :
    Covers t p i k ↔ StartsWord t i ∧ MatchesSeq t p.stem i k ∧ EndsWord t k := by
  induction h generalizing i k with
  | @word w hw =>
      rw [stem_word]
      simp only [wholeWord, Covers, CoversAll]
      constructor
      · rintro ⟨_, ⟨rfl, hstart⟩, l, hlit, _, ⟨rfl, hend⟩, rfl⟩
        exact ⟨hstart, (matchesSeq_chars hi).2 hlit, hend⟩
      · rintro ⟨hstart, hlit, hend⟩
        exact ⟨i, ⟨rfl, hstart⟩, k, (matchesSeq_chars hi).1 hlit, k, ⟨rfl, hend⟩, rfl⟩
  | @alt ps hne h ih =>
      rw [stem_alt hne h, matchesSeq_singleton, matches_group, Covers, coversSome_iff]
      constructor
      · rintro ⟨p, hp, hc⟩
        obtain ⟨hstart, hm, hend⟩ := (ih p hp hi).1 hc
        exact ⟨hstart, .inr ⟨p.stem, List.mem_map.2 ⟨p, hp, rfl⟩, hm⟩, hend⟩
      · rintro ⟨hstart, ⟨hf, _⟩ | ⟨b, hb, hm⟩, hend⟩
        · simp at hf
        · obtain ⟨p, hp, rfl⟩ := List.mem_map.1 hb
          exact ⟨p, hp, (ih p hp hi).2 ⟨hstart, hm, hend⟩⟩
  | @separated ps hne h ih =>
      rw [stem_separated hne h, Pattern.separated, Covers]
      exact coversAll_withGaps ht hne h (fun p hp i k hi => ih p hp hi) hi

end Trees

end Pattern

end NoteQuery
