import NoteQuery.Proofs.Rendering

namespace NoteQuery

open Pattern Regex Text

namespace Regex

/-- The item itself leaves nothing to the word boundaries of regular expressions. -/
def testFree : Regex → Bool
  | .wordStartHalf | .wordEndHalf => false
  | _ => true

end Regex

namespace Pattern

variable {t : Text} {i j k : Nat} {p : Pattern} {ps : List Pattern} {b : Behind} {a : Ahead}
  {e : Edge}

theorem testFree_seq_cons (h : everyItem testFree ((Pattern.seq (p :: ps)).items b a).1 = true) :
    everyItem testFree (p.items b ((Pattern.seq ps).ahead a)).1 = true ∧
      everyItem testFree ((Pattern.seq ps).items (p.items b ((Pattern.seq ps).ahead a)).2 a).1 = true :=
  Bool.and_eq_true_iff.1 (everyItem_append.symm.trans h)

theorem testFree_alt (h : everyItem testFree ((Pattern.alt ps).items b a).1 = true) (hp : p ∈ ps) :
    everyItem testFree (p.items ⟨b.edge, false⟩ (branchAhead ps a)).1 = true := by
  obtain ⟨q, rest, rfl⟩ := List.exists_cons_of_ne_nil (List.ne_nil_of_mem hp)
  rw [items_alt_cons, everyItem_group_iff] at h
  exact h.2 _ (List.mem_map_of_mem hp)

theorem not_tested_of_wholeWord {w : Text} {c : Char} (hc : w.getLast? = some c)
    (h : everyItem testFree ((wholeWord w).items b a).1 = true) :
    startBoundary b.edge ≠ .tested ∧ endBoundary a ≠ .tested := by
  rw [items_wholeWord hc, everyItem_append, everyItem_append] at h
  constructor
  · intro he
    rw [he] at h
    cases h
  · intro he
    rw [he] at h
    simp [Boundary.endItems, everyItem, everywhere, testFree] at h

section Told

variable (ht : t.Conventional)

include ht

theorem startItems_of_startsWord (hfree : startBoundary e ≠ .tested) (hstart : StartsWord t i)
    (he : e = .word → ¬ StartsWord t i) (hi : i < t.length) :
    ∃ k, EntersAt t e k i ∧ MatchesSeq t (startBoundary e).startItems k i := by
  cases e with
  | separator => exact ⟨i, .inl rfl, rfl⟩
  | word => exact absurd hstart (he rfl)
  | closing | unknown => exact absurd rfl hfree
  | opening =>
      cases i with
      | zero =>
          have hitem : MatchesSeq t [.textStart] 0 0 := matchesSeq_singleton.2 ⟨rfl, rfl⟩
          exact ⟨0, .inl rfl, matchesSeq_either.2 (.inl hitem)⟩
      | succ i =>
          have hsep := (separatorAt_iff ht).2 ⟨by omega, startsWord_succ.1 hstart⟩
          have hitem : MatchesSeq t [.separator] i (i + 1) := matchesSeq_singleton.2 ⟨hsep, rfl⟩
          exact ⟨i, .inr ⟨rfl, hsep, rfl, hi⟩, matchesSeq_either.2 (.inr hitem)⟩

theorem endItems_of_endsWord (hfree : endBoundary a ≠ .tested) (hend : EndsWord t j)
    (ha : a.edge.HoldsAhead t j) (hj : j ≤ t.length) :
    ∃ k, ClosesAt t a.edge j k ∧ MatchesSeq t (endBoundary a).endItems j k := by
  by_cases hg : a.gap = true
  · rw [endBoundary, if_pos hg]
    exact ⟨j, .inl rfl, rfl⟩
  rw [endBoundary, if_neg hg] at hfree ⊢
  cases he : a.edge with
  | separator => exact ⟨j, .inl rfl, rfl⟩
  | word =>
      rw [he] at ha
      exact absurd hend ha
  | opening | unknown =>
      rw [he] at hfree
      exact absurd rfl hfree
  | closing =>
      rcases Nat.eq_or_lt_of_le hj with rfl | hlt
      · have hitem : MatchesSeq t [.textEnd] t.length t.length :=
          matchesSeq_singleton.2 ⟨rfl, rfl⟩
        exact ⟨t.length, .inl rfl, matchesSeq_either.2 (.inr hitem)⟩
      · have hsep := (separatorAt_iff ht).2 ⟨hlt, hend⟩
        have hitem : MatchesSeq t [.separator] j (j + 1) := matchesSeq_singleton.2 ⟨hsep, rfl⟩
        exact ⟨j + 1, .inr ⟨rfl, hlt⟩, matchesSeq_either.2 (.inl hitem)⟩

theorem gap_of_covers (hcov : Covers t (Pattern.anyRun.firm b a) i j)
    (hb : b.wordEnds = true → EndsWord t i)
    (hw : a.wordStarts = true → StartsWord t j ∧ j < t.length) :
    ∃ k l, EntersAt t b.edge k i ∧ MatchesSeq t (Pattern.anyRun.items b a).1 k l ∧
      ClosesAt t a.edge j l := by
  obtain ⟨hij, hj, hfirm⟩ := covers_firm_anyRun.1 hcov
  have hone (k l : Nat) := oneLine_of_not_mem ht.oneLine k l
  rcases Nat.eq_or_lt_of_le hij with rfl | hlt
  · have hfirm : gapIsFirm b.wordEnds a.wordStarts b.edge a.edge = false :=
      Bool.eq_false_iff.2 fun h => absurd (hfirm h) (Nat.lt_irrefl i)
    obtain ⟨hnext, hleft⟩ := of_not_gapIsFirm hfirm
    by_cases hend : b.wordEnds = true → a.edge = .separator ∨ i = t.length
    · by_cases hstart : a.wordStarts = true → b.edge = .separator ∨ i = 0
      · exact ⟨i, i, .inl rfl, gap_of_not_firm hfirm hend hstart hj, .inl rfl⟩
      · -- The pattern opens in front of the gap, which takes up the separator before the word.
        obtain ⟨hws, hne⟩ := Classical.not_imp.1 hstart
        obtain ⟨hne, hpos⟩ := not_or.1 hne
        obtain ⟨hwe, hopen⟩ := (hleft hws).resolve_left hne
        obtain ⟨k, rfl⟩ := Nat.exists_eq_succ_of_ne_zero hpos
        obtain ⟨hs, hlt⟩ := hw hws
        have hsep := (separatorAt_iff ht).2 ⟨hj, startsWord_succ.1 hs⟩
        refine ⟨k, k + 1, .inr ⟨hopen, hsep, rfl, hlt⟩, ?_, .inl rfl⟩
        refine gap_of_lt (Nat.lt_succ_self k) hj (hone k _) ?_ fun _ => ⟨k, rfl, hsep⟩
        intro h
        exact Bool.noConfusion (hwe.symm.trans h)
    · -- The pattern closes behind the gap, which takes up the separator after the word.
      obtain ⟨hwe, hne⟩ := Classical.not_imp.1 hend
      obtain ⟨hne, hlen⟩ := not_or.1 hne
      obtain ⟨hws, hclose⟩ := (hnext hwe).resolve_left hne
      have hlt : i < t.length := Nat.lt_of_le_of_ne hj hlen
      have hsep := (separatorAt_iff ht).2 ⟨hlt, hb hwe⟩
      refine ⟨i, i + 1, .inl rfl, ?_, .inr ⟨hclose, hlt⟩⟩
      refine gap_of_lt (Nat.lt_succ_self i) hlt (hone i _) (fun _ => hsep) ?_
      intro h
      exact Bool.noConfusion (hws.symm.trans h)
  · refine ⟨i, j, .inl rfl, gap_of_lt hlt hj (hone i j) ?_ ?_, .inl rfl⟩
    · intro h
      exact (separatorAt_iff ht).2 ⟨by omega, hb h⟩
    · intro h
      obtain ⟨k, rfl⟩ : ∃ k, j = k + 1 := ⟨j - 1, by omega⟩
      exact ⟨k, rfl, (separatorAt_iff ht).2 ⟨hj, startsWord_succ.1 (hw h).1⟩⟩

/-- What the firm form of a word-built pattern covers is matched, up to a separator at either outer
end of the pattern. -/
theorem WordBuilt.matches_of_covers (h : WordBuilt p) (hcov : Covers t (p.firm b a) i j)
    (hi : i ≤ t.length) (hfree : everyItem testFree (p.items b a).1 = true)
    (hedge : b.edge = .word → ¬ StartsWord t i) (hends : b.wordEnds = true → EndsWord t i)
    (ha : a.edge.HoldsAhead t j) (hstarts : a.wordStarts = true → StartsWord t j ∧ j < t.length) :
    ∃ k l, EntersAt t b.edge k i ∧ MatchesSeq t (p.items b a).1 k l ∧ ClosesAt t a.edge j l := by
  induction h using WordBuilt.induction_seq generalizing i j b a with
  | word w hw =>
      have hc := List.getLast?_eq_some_getLast hw
      obtain ⟨htstart, htend⟩ := not_tested_of_wholeWord hc hfree
      obtain ⟨hstart, hlit, hend⟩ := covers_wholeWord.1 hcov
      have hlt := lt_length_of_covers_literal hw hlit
      have hj := (Covers.le hi _ hlit).2
      obtain ⟨k, henter, hk⟩ := startItems_of_startsWord ht htstart hstart hedge hlt
      obtain ⟨l, hclose, hl⟩ := endItems_of_endsWord ht htend hend ha hj
      refine ⟨k, l, henter, ?_, hclose⟩
      rw [items_wholeWord hc]
      exact matchesSeq_append.2 ⟨i, hk, matchesSeq_append.2 ⟨j, (matchesSeq_chars hi).2 hlit, hl⟩⟩
  | nil =>
      obtain rfl : i = j := hcov
      exact ⟨i, i, .inl rfl, rfl, .inl rfl⟩
  | cons p ps hp hps _ ihp ihps =>
      obtain ⟨hfreep, hfreeps⟩ := testFree_seq_cons hfree
      obtain ⟨m, hcovp, hcovps⟩ := covers_firm_cons.1 hcov
      have hpm := covers_of_firm _ hcovp
      have hmj := covers_of_firm _ hcovps
      have hm := (Covers.le hi _ hpm).2
      have hj := (Covers.le hm _ hmj).2
      obtain ⟨k, l, henter, hmatch, hclose⟩ := ihps hcovps hm hfreeps
        (not_startsWord_of_edge p hpm hedge) (endsWord_of_wordEnds p hpm hends) ha hstarts
      rcases henter with rfl | ⟨he, hsep, rfl, hlt⟩
      · have ha' : ((Pattern.seq ps).ahead a).edge.HoldsAhead t k := by
          rw [ahead_edge]
          exact holdsAhead_firstEdge _ hmj ha
        obtain ⟨k', l', henter', hmatch', hclose'⟩ := ihp hcovp hi hfreep hedge hends ha'
          (hps.startsWord_of_wordStarts hmj hstarts)
        refine ⟨k', ?_⟩
        rcases hclose' with rfl | ⟨he, hl'⟩
        · exact ⟨l, henter', matchesSeq_seq_cons.2 ⟨k, hmatch', hmatch⟩, hclose⟩
        · -- The match of `p` went past its stretch at the end, so `ps` is passed over behind it.
          rw [ahead_edge] at he
          obtain ⟨he, hvoid⟩ := hps.of_firstEdge_closing he
          refine ⟨l', henter', matchesSeq_seq_cons.2 ⟨l', hmatch', (hvoid _ l' hl').1⟩, ?_⟩
          exact .inr ⟨he, hl'⟩
      · -- The match of `ps` begins a separator early, so `p` is passed over in front of that.
        obtain ⟨he, hvoid⟩ := hp.of_edge_opening he
        obtain ⟨rfl, hvoid⟩ := hvoid i _ hi (.inr hcovp)
        have hmatch' := (hvoid hlt k (by omega)).1
        exact ⟨k, l, .inr ⟨he, hsep, rfl, hlt⟩, matchesSeq_seq_cons.2 ⟨k, hmatch', hmatch⟩, hclose⟩
  | alt ps h ih =>
      obtain ⟨p, hp, hcov⟩ := covers_firm_alt.1 hcov
      obtain ⟨k, l, henter, hmatch, hclose⟩ :=
        ih p hp hcov hi (testFree_alt hfree hp) hedge nofun ha nofun
      exact ⟨k, l, henter, matchesSeq_alt.2 ⟨p, hp, hmatch⟩, hclose⟩
  | literal w => exact ⟨i, j, .inl rfl, (matchesSeq_chars hi).2 hcov, .inl rfl⟩
  | anyRun => exact gap_of_covers ht hcov hends hstarts
  | anyExactly n =>
      obtain ⟨rfl, hj⟩ := hcov
      refine ⟨i, i + n, .inl rfl, ?_, .inl rfl⟩
      cases n with
      | zero => exact rfl
      | succ n => exact matchesSeq_singleton.2 ⟨rfl, hj, oneLine_of_not_mem ht.oneLine _ _⟩
  | nameEnd =>
      obtain ⟨rfl, rfl⟩ := hcov
      exact ⟨_, _, .inl rfl, matchesSeq_singleton.2 ⟨rfl, rfl⟩, .inl rfl⟩

theorem WordBuilt.finds_iff (h : WordBuilt p) (hfree : everyItem testFree p.toRegex = true) :
    Finds p.toRegex t ↔ p.firmed.Selects t := by
  constructor
  · exact h.firmed_selects ht.separator
  · rintro ⟨i, j, hi, hcov⟩
    obtain ⟨k, l, henter, hmatch, -⟩ := h.matches_of_covers ht hcov hi hfree nofun nofun trivial nofun
    refine ⟨k, l, ?_, hmatch⟩
    rcases henter with rfl | ⟨-, -, rfl, -⟩
    · exact hi
    · exact Nat.le_of_succ_le hi

end Told

end Pattern

end NoteQuery
