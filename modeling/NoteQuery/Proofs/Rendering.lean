import Mathlib
import NoteQuery.Proofs.WordBuilt
import NoteQuery.Query.Pattern
import NoteQuery.Regex.Lemmas

namespace NoteQuery.Pattern

open Regex Text

variable {t : Text} {i j k : Nat} {p : Pattern} {ps : List Pattern} {b : Behind} {a : Ahead}
  {e : Edge}

/-- A match that begins at `i` stands for a stretch that begins at `k`. -/
def EntersAt (t : Text) (e : Edge) (i k : Nat) : Prop :=
  i = k ∨ e = .opening ∧ SeparatorAt t i ∧ k = i + 1 ∧ k < t.length

/-- A stretch that ends at `j` is matched up to `k`. -/
def ClosesAt (t : Text) (e : Edge) (j k : Nat) : Prop :=
  j = k ∨ e = .closing ∧ k ≤ t.length

theorem EntersAt.le (h : EntersAt t e i k) (hi : i ≤ t.length) : k ≤ t.length := by
  rcases h with rfl | ⟨-, -, -, hk⟩
  · exact hi
  · exact Nat.le_of_lt hk

theorem ClosesAt.holdsAhead (h : ClosesAt t e j k) (he : e.HoldsAhead t k) : e.HoldsAhead t j := by
  rcases h with rfl | ⟨rfl, -⟩
  · exact he
  · trivial

section Told

variable (ht : ∀ c ∈ t, isSeparator c = !isAlphanumeric c)

include ht

theorem not_alphanumeric_of_not_wordChar {c : Char} (hc : t[i]? = some c)
    (h : isWordChar c = false) : isAlphanumeric c = false := by
  have := ht c (List.mem_of_getElem? hc)
  simpa [isSeparator, h] using this

theorem startsWord_of_startItems (h : MatchesSeq t (startBoundary e).startItems i k)
    (he : e = .separator → StartsWord t i) :
    StartsWord t k ∧ (i = k ∨ e = .opening ∧ SeparatorAt t i ∧ k = i + 1) := by
  cases e with
  | separator =>
      obtain rfl : i = k := h
      exact ⟨he rfl, .inl rfl⟩
  | word => exact (matchesSeq_singleton.1 h).elim
  | opening =>
      rcases matchesSeq_either.1 h with h | h
      · obtain ⟨rfl, rfl⟩ := matchesSeq_singleton.1 h
        exact ⟨nofun, .inl rfl⟩
      · obtain ⟨hsep, rfl⟩ := matchesSeq_singleton.1 h
        exact ⟨startsWord_succ.2 (endsWord_of_separatorAt ht hsep), .inr ⟨rfl, hsep, rfl⟩⟩
  | closing | unknown =>
      obtain ⟨hword, rfl⟩ := matchesSeq_singleton.1 h
      refine ⟨?_, .inl rfl⟩
      intro k c hk hc
      exact not_alphanumeric_of_not_wordChar ht hc (hword k c hk hc)

theorem endsWord_of_endItems (h : MatchesSeq t (endBoundary a).endItems i k) :
    (i = k ∨ a.edge = .closing ∧ SeparatorAt t i ∧ k = i + 1) ∧
      (a.edge.HoldsAhead t k → (a.gap = true → EndsWord t k) → EndsWord t i) := by
  by_cases hg : a.gap = true
  · rw [endBoundary, if_pos hg] at h
    obtain rfl : i = k := h
    exact ⟨.inl rfl, fun _ hgap => hgap hg⟩
  rw [endBoundary, if_neg hg] at h
  cases he : a.edge with
  | separator =>
      rw [he] at h
      obtain rfl : i = k := h
      exact ⟨.inl rfl, fun hend _ => hend⟩
  | word =>
      rw [he] at h
      exact (matchesSeq_singleton.1 h).elim
  | closing =>
      rw [he] at h
      rcases matchesSeq_either.1 h with h | h
      · obtain ⟨hsep, rfl⟩ := matchesSeq_singleton.1 h
        exact ⟨.inr ⟨rfl, hsep, rfl⟩, fun _ _ => endsWord_of_separatorAt ht hsep⟩
      · obtain ⟨rfl, rfl⟩ := matchesSeq_singleton.1 h
        exact ⟨.inl rfl, fun _ _ => endsWord_of_length_le (Nat.le_refl _)⟩
  | opening | unknown =>
      rw [he] at h
      obtain ⟨hword, rfl⟩ := matchesSeq_singleton.1 h
      refine ⟨.inl rfl, fun _ _ c hc => ?_⟩
      exact not_alphanumeric_of_not_wordChar ht hc (hword c hc)

theorem startsWord_of_edge (p : Pattern) (h : MatchesSeq t (p.items b a).1 i j)
    (hi : i ≤ t.length) (hb : b.edge = .separator → StartsWord t i)
    (he : (p.items b a).2.edge = .separator) : StartsWord t j := by
  induction p using induction_seq generalizing i j b a with
  | nil =>
      obtain rfl : i = j := h
      exact hb he
  | cons p ps hp hps =>
      obtain ⟨k, hk, hj⟩ := matchesSeq_seq_cons.1 h
      exact hps hj (MatchesSeq.le hi _ hk).2 (hp hk hi hb) he
  | alt ps ih =>
      obtain ⟨p, hp, h⟩ := matchesSeq_alt.1 h
      exact ih p hp h hi hb ((edge_of_alt (.inl rfl) he).2 p hp)
  | literal w =>
      have hlit := (matchesSeq_chars hi).1 h
      cases hw : w.getLast? with
      | none =>
          obtain rfl := List.getLast?_eq_none_iff.1 hw
          obtain ⟨rfl, -⟩ := hlit
          exact hb he
      | some c =>
          rw [startsWord_of_covers_literal hlit hw, Bool.eq_false_iff]
          intro hc
          simp [items, hw, Edge.ofChar, hc] at he
  | anyRun =>
      have hword : a.wordStarts = true := by
        rw [items, gapEdge] at he
        split at he
        · assumption
        · cases he
      rcases gap_cases h with ⟨rfl, -, -, hleft⟩ | ⟨-, -, hsep⟩
      · rcases hleft hword with hleft | rfl
        · exact hb hleft
        · exact startsWord_zero
      · obtain ⟨k, rfl, hk⟩ := hsep hword
        exact startsWord_succ.2 (endsWord_of_separatorAt ht hk)
  | anyExactly n =>
      cases n with
      | zero =>
          obtain rfl : i = j := h
          exact hb he
      | succ n => cases he
  | wordStart => exact (startsWord_of_startItems ht h hb).1
  | wordEnd =>
      rcases (endsWord_of_endItems ht h).1 with rfl | ⟨-, hsep, rfl⟩
      · exact hb he
      · exact startsWord_succ.2 (endsWord_of_separatorAt ht hsep)
  | nameEnd =>
      obtain ⟨-, rfl⟩ := matchesSeq_singleton.1 h
      exact hb he

theorem covers_wholeWord_of_matches {w : Text} (hw : w ≠ [])
    (hm : MatchesSeq t ((wholeWord w).items b a).1 i j) (hi : i ≤ t.length)
    (hb : b.edge = .separator → StartsWord t i) (ha : a.edge.HoldsAhead t j)
    (hgap : a.gap = true → EndsWord t j) :
    ∃ k l, EntersAt t b.edge i k ∧ Covers t (wholeWord w) k l ∧ ClosesAt t a.edge l j := by
  rw [items_wholeWord (List.getLast?_eq_some_getLast hw)] at hm
  obtain ⟨k, hstart, hm⟩ := matchesSeq_append.1 hm
  obtain ⟨l, hlit, hend⟩ := matchesSeq_append.1 hm
  have hk := (MatchesSeq.le hi _ hstart).2
  have hlit := (matchesSeq_chars hk).1 hlit
  have hl := (Covers.le hk _ hlit).2
  have hj := (MatchesSeq.le hl _ hend).2
  obtain ⟨hstart, henter⟩ := startsWord_of_startItems ht hstart hb
  obtain ⟨hclose, hend⟩ := endsWord_of_endItems ht hend
  refine ⟨k, l, ?_, covers_wholeWord.2 ⟨hstart, hlit, hend ha hgap⟩, ?_⟩
  · rcases henter with rfl | ⟨he, hsep, rfl⟩
    · exact .inl rfl
    · exact .inr ⟨he, hsep, rfl, lt_length_of_covers_literal hw hlit⟩
  · rcases hclose with rfl | ⟨he, -, -⟩
    · exact .inl rfl
    · exact .inr ⟨he, hj⟩

theorem covers_anyRun_of_matches (hm : MatchesSeq t (Pattern.anyRun.items b a).1 i j)
    (hi : i ≤ t.length) (ha : a.edge.HoldsAhead t j) :
    Covers t (Pattern.anyRun.firm b a) i j ∧ (b.wordEnds = true → EndsWord t i) := by
  obtain ⟨hij, hj⟩ := MatchesSeq.le hi _ hm
  rcases gap_cases hm with ⟨rfl, hfirm, hnext, -⟩ | ⟨hlt, hsep, -⟩
  · refine ⟨covers_firm_anyRun.2 ⟨hij, hi, ?_⟩, fun hw => ?_⟩
    · intro h
      exact Bool.noConfusion (hfirm.symm.trans h)
    · rcases hnext hw with he | rfl
      · rwa [he] at ha
      · exact endsWord_of_length_le (Nat.le_refl _)
  · exact ⟨covers_firm_anyRun.2 ⟨hij, hj, fun _ => hlt⟩,
      fun hw => endsWord_of_separatorAt ht (hsep hw)⟩

/-- What matches a word-built pattern stands for a stretch that its firm form covers. -/
theorem WordBuilt.covers_of_matches (h : WordBuilt p) (hm : MatchesSeq t (p.items b a).1 i j)
    (hi : i ≤ t.length) (hb : b.edge = .separator → StartsWord t i)
    (ha : a.edge.HoldsAhead t j)
    (hgap : a.gap = true → (p.items b a).2.wordEnds = true → EndsWord t j) :
    (∃ k l, EntersAt t b.edge i k ∧ Covers t (p.firm b a) k l ∧ ClosesAt t a.edge l j) ∧
      ((p.ahead a).gap = true → b.wordEnds = true → EndsWord t i) := by
  induction h using WordBuilt.induction_seq generalizing i j b a with
  | word w hw =>
      have hends : ((wholeWord w).items b a).2.wordEnds = true := by
        rw [items_wholeWord (List.getLast?_eq_some_getLast hw)]
      exact ⟨covers_wholeWord_of_matches ht hw hm hi hb ha fun hg => hgap hg hends, nofun⟩
  | nil =>
      obtain rfl : i = j := hm
      exact ⟨⟨i, i, .inl rfl, rfl, .inl rfl⟩, hgap⟩
  | cons p ps hp hps _ ihp ihps =>
      obtain ⟨m, hmp, hmps⟩ := matchesSeq_seq_cons.1 hm
      have hm := (MatchesSeq.le hi _ hmp).2
      have hj := (MatchesSeq.le hm _ hmps).2
      have hb' := startsWord_of_edge ht p hmp hi hb
      obtain ⟨⟨k, l, henter, hcov, hclose⟩, hgap'⟩ := ihps hmps hm hb' ha hgap
      rcases henter with rfl | ⟨he, hsep, rfl, hlt⟩
      · have ha' : ((Pattern.seq ps).ahead a).edge.HoldsAhead t m := by
          rw [ahead_edge]
          exact holdsAhead_firstEdge _ (covers_of_firm _ hcov) (hclose.holdsAhead ha)
        obtain ⟨⟨k', l', henter', hcov', hclose'⟩, hgap''⟩ := ihp hmp hi hb ha' hgap'
        refine ⟨⟨k', ?_⟩, hgap''⟩
        rcases hclose' with rfl | ⟨he, -⟩
        · exact ⟨l, henter', covers_firm_cons.2 ⟨l', hcov', hcov⟩, hclose⟩
        · -- The pattern closes in front of `ps` already, so `ps` can be passed over where `p` ends.
          rw [ahead_edge] at he
          obtain ⟨he, hvoid⟩ := hps.of_firstEdge_closing he
          have hl' := (Covers.le (henter'.le hi) _ (covers_of_firm _ hcov')).2
          refine ⟨l', henter', covers_firm_cons.2 ⟨l', hcov', (hvoid _ l' hl').2⟩, ?_⟩
          exact .inr ⟨he, hj⟩
      · -- The pattern still opens behind `p`, so `p` can be passed over where `ps` begins.
        obtain ⟨he, hvoid⟩ := hp.of_edge_opening he
        obtain ⟨rfl, hvoid⟩ := hvoid i m hi (.inl hmp)
        have hp := (hvoid (by omega) (m + 1) (by omega)).2
        refine ⟨⟨m + 1, l, .inr ⟨he, hsep, rfl, hlt⟩, covers_firm_cons.2 ⟨m + 1, hp, hcov⟩,
          hclose⟩, fun _ _ => endsWord_of_separatorAt ht hsep⟩
  | alt ps h ih =>
      obtain ⟨p, hp, hm⟩ := matchesSeq_alt.1 hm
      have hgap' (hg : (branchAhead ps a).gap = true) : EndsWord t j := by
        obtain ⟨hg, htrails⟩ := Bool.and_eq_true_iff.1 hg
        exact hgap hg htrails
      obtain ⟨⟨k, l, henter, hcov, hclose⟩, -⟩ := ih p hp hm hi hb ha fun hg _ => hgap' hg
      exact ⟨⟨k, l, henter, covers_firm_alt.2 ⟨p, hp, hcov⟩, hclose⟩, nofun⟩
  | literal w =>
      exact ⟨⟨i, j, .inl rfl, (matchesSeq_chars hi).1 hm, .inl rfl⟩, nofun⟩
  | anyRun =>
      obtain ⟨hcov, hends⟩ := covers_anyRun_of_matches ht hm hi ha
      exact ⟨⟨i, j, .inl rfl, hcov, .inl rfl⟩, fun _ => hends⟩
  | anyExactly n =>
      cases n with
      | zero =>
          obtain rfl : i = j := hm
          exact ⟨⟨i, i, .inl rfl, ⟨rfl, hi⟩, .inl rfl⟩, nofun⟩
      | succ n =>
          obtain ⟨hj, hle, -⟩ := matchesSeq_singleton.1 hm
          exact ⟨⟨i, j, .inl rfl, ⟨hj, hle⟩, .inl rfl⟩, nofun⟩
  | nameEnd =>
      obtain ⟨rfl, rfl⟩ := matchesSeq_singleton.1 hm
      exact ⟨⟨_, _, .inl rfl, ⟨rfl, rfl⟩, .inl rfl⟩, nofun⟩

theorem WordBuilt.firmed_selects (h : WordBuilt p) (hm : Finds p.toRegex t) :
    p.firmed.Selects t := by
  obtain ⟨i, j, hi, hm⟩ := hm
  obtain ⟨⟨k, l, henter, hcov, -⟩, -⟩ := h.covers_of_matches ht hm hi nofun trivial nofun
  exact ⟨k, l, henter.le hi, hcov⟩

end Told

theorem selects_of_firmed (h : p.firmed.Selects t) : p.Selects t := by
  obtain ⟨i, j, hi, h⟩ := h
  exact ⟨i, j, hi, covers_of_firm p h⟩

/-- A name in which separators and letters or numerals are told apart is matched by the regular
expression of a word-built pattern only if some stretch of it is as the pattern describes it. -/
theorem selects_of_isMatch {r : List Regex} (hp : WordBuilt p)
    (ht : ∀ c ∈ t, isSeparator c = !isAlphanumeric c) (hr : p.regex = .ok r)
    (h : isMatch r t = true) : p.Selects t := by
  rw [Pattern.regex] at hr
  split at hr
  · cases hr
    exact selects_of_firmed (hp.firmed_selects ht (isMatch_iff_finds.1 h))
  · cases hr

def homePlan : Pattern :=
  .seq [.anyExactly 2, wholeWord "plan".toList, .anyRun,
    .alt [wholeWord "home".toList, .literal []]]

theorem selects_of_isMatch_of_homePlan :
    WordBuilt homePlan ∧
      (∀ c ∈ "--plan\nat_home".toList, isSeparator c = !isAlphanumeric c) ∧
      ∃ r, homePlan.regex = .ok r ∧ isMatch r "--plan\nat_home".toList = true ∧
        homePlan.Selects "--plan\nat_home".toList := by
  have hp : WordBuilt homePlan := by
    apply WordBuilt.seq
    simp only [List.forall_mem_cons]
    refine ⟨.anyExactly 2, .word nofun, .anyRun, ?_, nofun⟩
    apply WordBuilt.alt
    simp only [List.forall_mem_cons]
    exact ⟨.word nofun, .literal [], nofun⟩
  have ht : ∀ c ∈ "--plan\nat_home".toList, isSeparator c = !isAlphanumeric c :=
    forall_of_all (by decide)
  have hr : ∃ r, homePlan.regex = .ok r ∧
      isMatch r "--plan\nat_home".toList = true := ⟨_, by cbv, by cbv⟩
  obtain ⟨r, hr, h⟩ := hr
  exact ⟨hp, ht, r, hr, h, selects_of_isMatch hp ht hr h⟩

end NoteQuery.Pattern
