import NoteQuery.Proofs.Surroundings

namespace NoteQuery.Pattern

open Regex Text

variable {t : Text} {i j : Nat} {p : Pattern} {ps : List Pattern} {b : Behind} {a : Ahead}
  {left next : Edge} {afterWord beforeWord : Bool}

/-- The gap takes up a character. It need not if it takes over nothing, or where the neighbour on
the other side of the boundary is known to be a separator or an end of the pattern. -/
def gapIsFirm (afterWord beforeWord : Bool) (left next : Edge) : Bool :=
  match afterWord, beforeWord with
  | false, false => false
  | false, true => left ≠ .separator ∧ left ≠ .opening
  | true, false => next ≠ .separator ∧ next ≠ .closing
  | true, true => ¬ (left = .separator ∧ next = .separator)

theorem of_not_gapIsFirm (h : gapIsFirm afterWord beforeWord left next = false) :
    (afterWord = true → next = .separator ∨ beforeWord = false ∧ next = .closing) ∧
      (beforeWord = true → left = .separator ∨ afterWord = false ∧ left = .opening) := by
  cases afterWord <;> cases beforeWord
  case false.false => exact ⟨nofun, nofun⟩
  case false.true =>
    refine ⟨nofun, fun _ => ?_⟩
    cases left with
    | separator => exact .inl rfl
    | opening => exact .inr ⟨rfl, rfl⟩
    | closing | word | unknown => exact Bool.noConfusion h
  case true.false =>
    refine ⟨fun _ => ?_, nofun⟩
    cases next with
    | separator => exact .inl rfl
    | closing => exact .inr ⟨rfl, rfl⟩
    | opening | word | unknown => exact Bool.noConfusion h
  case true.true =>
    obtain ⟨hleft, hnext⟩ : left = .separator ∧ next = .separator :=
      Decidable.of_not_not (of_decide_eq_false h)
    exact ⟨fun _ => .inl hnext, fun _ => .inl hleft⟩

mutual

/-- The pattern between `behind` and `after` in which every firm gap asks for a character. -/
def firm (behind : Behind) (after : Ahead) : Pattern → Pattern
  | .seq parts => .seq (firmAll behind after parts)
  | .alt branches => .alt (firmSome behind.edge (branchAhead branches after) branches)
  | .anyRun =>
    if gapIsFirm behind.wordEnds after.wordStarts behind.edge after.edge then
      .seq [.anyExactly 1, .anyRun]
    else .anyRun
  | p => p

def firmAll (behind : Behind) (after : Ahead) : List Pattern → List Pattern
  | [] => []
  | p :: rest =>
    p.firm behind (aheadOfSeq after rest) ::
      firmAll (p.items behind (aheadOfSeq after rest)).2 after rest

def firmSome (left : Edge) (after : Ahead) : List Pattern → List Pattern
  | [] => []
  | p :: rest => p.firm ⟨left, false⟩ after :: firmSome left after rest

end

def firmed (p : Pattern) : Pattern := p.firm ⟨.opening, false⟩ ⟨.closing, false, false⟩

theorem covers_firm_cons : Covers t ((Pattern.seq (p :: ps)).firm b a) i j ↔
    ∃ k, Covers t (p.firm b ((Pattern.seq ps).ahead a)) i k ∧
      Covers t ((Pattern.seq ps).firm (p.items b ((Pattern.seq ps).ahead a)).2 a) k j := Iff.rfl

theorem covers_firm_alt : Covers t ((Pattern.alt ps).firm b a) i j ↔
    ∃ p ∈ ps, Covers t (p.firm ⟨b.edge, false⟩ (branchAhead ps a)) i j := by
  rw [firm, Covers]
  generalize branchAhead ps a = c
  induction ps with
  | nil => simp [firmSome, CoversSome]
  | cons p rest ih => simp [firmSome, CoversSome, ih]

theorem covers_firm_anyRun : Covers t (Pattern.anyRun.firm b a) i j ↔ i ≤ j ∧ j ≤ t.length ∧
    (gapIsFirm b.wordEnds a.wordStarts b.edge a.edge = true → i < j) := by
  rw [firm]
  split
  · next hfirm =>
    simp only [Covers, CoversAll, hfirm, true_imp_iff]
    constructor
    · rintro ⟨_, ⟨rfl, hi⟩, _, ⟨hij, hj⟩, rfl⟩
      exact ⟨by omega, hj, hij⟩
    · rintro ⟨hle, hj, hij⟩
      exact ⟨i + 1, ⟨rfl, by omega⟩, j, ⟨hij, hj⟩, rfl⟩
  · next hfirm =>
    rw [Covers]
    exact ⟨fun ⟨hij, hj⟩ => ⟨hij, hj, fun h => absurd h hfirm⟩, fun ⟨hij, hj, _⟩ => ⟨hij, hj⟩⟩

theorem covers_of_firm (p : Pattern) (h : Covers t (p.firm b a) i j) : Covers t p i j := by
  induction p using induction_seq generalizing i j b a with
  | cons p ps hp hps =>
      obtain ⟨k, hk, hj⟩ := covers_firm_cons.1 h
      exact covers_seq_cons.2 ⟨k, hp hk, hps hj⟩
  | alt ps ih =>
      obtain ⟨p, hp, h⟩ := covers_firm_alt.1 h
      exact coversSome_iff.2 ⟨p, hp, ih p hp h⟩
  | anyRun =>
      obtain ⟨hij, hj, -⟩ := covers_firm_anyRun.1 h
      exact ⟨hij, hj⟩
  | _ => exact h

section Gaps

theorem matchesSeq_two_separators :
    MatchesSeq t [.separator, .group true [[.anyRun, .separator]]] i j ↔
      SeparatorAt t i ∧ SkipsTo t (i + 1) j := by
  have hskip (k : Nat) : MatchesSeq t [.group true [[.anyRun, .separator]]] k j ↔ SkipsTo t k j :=
    matchesSeq_skip_to_word
  rw [MatchesSeq]
  constructor
  · rintro ⟨_, ⟨hsep, rfl⟩, h⟩
    exact ⟨hsep, (hskip _).1 h⟩
  · rintro ⟨hsep, h⟩
    exact ⟨i + 1, ⟨hsep, rfl⟩, (hskip _).2 h⟩

/-- A gap is passed over where the neighbours of the boundaries that it takes over are known to do
without a character, or at an end of the name; otherwise it takes up a separator at each of them. -/
theorem gap_cases (h : MatchesSeq t (gapItems afterWord beforeWord left next) i j) :
    (i = j ∧ gapIsFirm afterWord beforeWord left next = false ∧
      (afterWord = true → next = .separator ∨ i = t.length) ∧
      (beforeWord = true → left = .separator ∨ i = 0)) ∨
    (i < j ∧ (afterWord = true → SeparatorAt t i) ∧
      (beforeWord = true → ∃ k, j = k + 1 ∧ SeparatorAt t k)) := by
  have hbefore (h : MatchesSeq t [.anyRun, .separator] i j) :
      i < j ∧ ∃ k, j = k + 1 ∧ SeparatorAt t k := by
    obtain ⟨k, rfl, hik, -, hsep⟩ := matchesSeq_run_separator.1 h
    exact ⟨by omega, k, rfl, hsep⟩
  have hafter (h : MatchesSeq t [.separator, .anyRun] i j) : i < j ∧ SeparatorAt t i := by
    obtain ⟨hsep, hij, -⟩ := matchesSeq_separator_run.1 h
    exact ⟨hij, hsep⟩
  have hboth (h : MatchesSeq t [.separator, .group true [[.anyRun, .separator]]] i j) :
      i < j ∧ SeparatorAt t i ∧ ∃ k, j = k + 1 ∧ SeparatorAt t k := by
    obtain ⟨hsep, rfl | ⟨k, rfl, hik, -, hsep'⟩⟩ := matchesSeq_two_separators.1 h
    · exact ⟨by omega, hsep, i, rfl, hsep⟩
    · exact ⟨by omega, hsep, k, rfl, hsep'⟩
  cases afterWord <;> cases beforeWord
  case false.false =>
    obtain ⟨hij, -⟩ := matchesSeq_singleton.1 h
    rcases Nat.eq_or_lt_of_le hij with rfl | hlt
    · exact .inl ⟨rfl, rfl, nofun, nofun⟩
    · exact .inr ⟨hlt, nofun, nofun⟩
  case false.true =>
    cases left with
    | separator =>
        rcases matchesSeq_optional.1 h with rfl | h
        · exact .inl ⟨rfl, rfl, nofun, fun _ => .inl rfl⟩
        · exact .inr ⟨(hbefore h).1, nofun, fun _ => (hbefore h).2⟩
    | opening =>
        rcases matchesSeq_either.1 h with h | h
        · obtain ⟨rfl, rfl⟩ := matchesSeq_singleton.1 h
          exact .inl ⟨rfl, rfl, nofun, fun _ => .inr rfl⟩
        · exact .inr ⟨(hbefore h).1, nofun, fun _ => (hbefore h).2⟩
    | closing | word | unknown => exact .inr ⟨(hbefore h).1, nofun, fun _ => (hbefore h).2⟩
  case true.false =>
    cases next with
    | separator =>
        rcases matchesSeq_optional.1 h with rfl | h
        · exact .inl ⟨rfl, rfl, fun _ => .inl rfl, nofun⟩
        · exact .inr ⟨(hafter h).1, fun _ => (hafter h).2, nofun⟩
    | closing =>
        rcases matchesSeq_either.1 h with h | h
        · exact .inr ⟨(hafter h).1, fun _ => (hafter h).2, nofun⟩
        · obtain ⟨rfl, rfl⟩ := matchesSeq_singleton.1 h
          exact .inl ⟨rfl, rfl, fun _ => .inr rfl, nofun⟩
    | opening | word | unknown => exact .inr ⟨(hafter h).1, fun _ => (hafter h).2, nofun⟩
  case true.true =>
    by_cases hknown : left = .separator ∧ next = .separator
    · simp only [gapItems, if_pos hknown] at h
      rcases matchesSeq_optional.1 h with rfl | h
      · refine .inl ⟨rfl, ?_, fun _ => .inl hknown.2, fun _ => .inl hknown.1⟩
        exact decide_eq_false (not_not_intro hknown)
      · exact .inr ⟨(hboth h).1, fun _ => (hboth h).2.1, fun _ => (hboth h).2.2⟩
    · simp only [gapItems, if_neg hknown] at h
      exact .inr ⟨(hboth h).1, fun _ => (hboth h).2.1, fun _ => (hboth h).2.2⟩

theorem gap_of_lt (hij : i < j) (hj : j ≤ t.length) (hone : OneLine t i j)
    (hafter : afterWord = true → SeparatorAt t i)
    (hbefore : beforeWord = true → ∃ k, j = k + 1 ∧ SeparatorAt t k) :
    MatchesSeq t (gapItems afterWord beforeWord left next) i j := by
  have hsub {k l : Nat} (hk : i ≤ k) (hl : l ≤ j) : OneLine t k l :=
    fun m hkm hml => hone m (Nat.le_trans hk hkm) (Nat.lt_of_lt_of_le hml hl)
  cases afterWord <;> cases beforeWord
  case false.false =>
    exact matchesSeq_singleton.2 ⟨Nat.le_of_lt hij, hj, hone⟩
  case false.true =>
    obtain ⟨k, rfl, hsep⟩ := hbefore rfl
    have h : MatchesSeq t [.anyRun, .separator] i (k + 1) :=
      matchesSeq_run_separator.2 ⟨k, rfl, by omega, hsub (Nat.le_refl i) (Nat.le_succ k), hsep⟩
    cases left with
    | separator => exact matchesSeq_optional.2 (.inr h)
    | opening => exact matchesSeq_either.2 (.inr h)
    | closing | word | unknown => exact h
  case true.false =>
    have h : MatchesSeq t [.separator, .anyRun] i j :=
      matchesSeq_separator_run.2 ⟨hafter rfl, hij, hj, hsub (Nat.le_succ i) (Nat.le_refl j)⟩
    cases next with
    | separator => exact matchesSeq_optional.2 (.inr h)
    | closing => exact matchesSeq_either.2 (.inl h)
    | opening | word | unknown => exact h
  case true.true =>
    obtain ⟨k, rfl, hsep⟩ := hbefore rfl
    have hskip : SkipsTo t (i + 1) (k + 1) := by
      rcases Nat.eq_or_lt_of_le (Nat.le_of_lt_succ hij) with rfl | hlt
      · exact .inl rfl
      · exact .inr ⟨k, rfl, hlt, hsub (Nat.le_succ i) (Nat.le_succ k), hsep⟩
    have h := matchesSeq_two_separators.2 ⟨hafter rfl, hskip⟩
    by_cases hknown : left = .separator ∧ next = .separator
    · simp only [gapItems, if_pos hknown]
      exact matchesSeq_optional.2 (.inr h)
    · simp only [gapItems, if_neg hknown]
      exact h

theorem gap_of_not_firm (hfirm : gapIsFirm afterWord beforeWord left next = false)
    (hnext : afterWord = true → next = .separator ∨ i = t.length)
    (hleft : beforeWord = true → left = .separator ∨ i = 0) (hi : i ≤ t.length) :
    MatchesSeq t (gapItems afterWord beforeWord left next) i i := by
  cases afterWord <;> cases beforeWord
  case false.false =>
    exact matchesSeq_singleton.2 ⟨Nat.le_refl i, hi, fun k hk hki => absurd hki (by omega)⟩
  case false.true =>
    cases left with
    | separator => exact matchesSeq_optional.2 (.inl rfl)
    | opening =>
        obtain rfl : i = 0 := (hleft rfl).resolve_left nofun
        exact matchesSeq_either.2 (.inl (matchesSeq_singleton.2 ⟨rfl, rfl⟩))
    | closing | word | unknown => exact Bool.noConfusion hfirm
  case true.false =>
    cases next with
    | separator => exact matchesSeq_optional.2 (.inl rfl)
    | closing =>
        obtain rfl : i = t.length := (hnext rfl).resolve_left nofun
        exact matchesSeq_either.2 (.inr (matchesSeq_singleton.2 ⟨rfl, rfl⟩))
    | opening | word | unknown => exact Bool.noConfusion hfirm
  case true.true =>
    have hknown : left = .separator ∧ next = .separator := Decidable.of_not_not (of_decide_eq_false hfirm)
    simp only [gapItems, if_pos hknown]
    exact matchesSeq_optional.2 (.inl rfl)

end Gaps

end NoteQuery.Pattern
